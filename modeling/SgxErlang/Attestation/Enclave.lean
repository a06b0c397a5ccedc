import SgxErlang.Attestation.Runs

/-!
# The attested enclave

`isv_enclave.cpp`, and what `isv_app.cpp` does with an attestation result.  The enclave has
its own copy of the supplied key derivation, checks the MAC of a result, and takes the secret
out of it.

The key exchange itself is a library of the vendor, and so is what it keeps for a context;
the enclave asks it for keys.  `peerSession` is what the other end of the exchange has to
compute for the two to agree.

## Main definitions

* `keyDerivation`, `verifyAttResultMac`, `putSecretData` — the functions of the enclave.
* `processAttResult` — the host's part.

## Main results

* `keyDerivation_eq_ok_iff` — the enclave and the service provider derive the same keys.
* `putSecretData_success_iff`, `secret_of_success` — when the secret is taken.
* `secret_delivered_iff` — which enclave gets the secret after any run.
-/

namespace SgxErlang.Attestation

/-- `sgx_status_t`, as far as the code names it. -/
inductive SgxStatus where
  | success | unexpected | invalidParameter | macMismatch | kdfMismatch
  | other (code : ℕ)
  deriving DecidableEq

/-- What happens outside the code while the enclave handles a result. -/
structure EnclaveEnv where
  /-- `sgx_ra_get_keys` for `SGX_RA_KEY_MK`. -/
  mkKey : Except ℕ Key128
  /-- `sgx_ra_get_keys` for `SGX_RA_KEY_SK`. -/
  skKey : Except ℕ Key128
  /-- The error that `sgx_rijndael128_cmac_msg` returns, if it does. -/
  cmac : Option ℕ
  /-- What a decryption that fails leaves in the buffer for its result. -/
  leftover : Vector Byte 8 → Vector Byte 8
  /-- What the two calls into the enclave themselves come to; zero is success. -/
  ecall : ℕ × ℕ

/-! ## Keys -/

/-- `key_derivation`, with `SUPPLIED_KEY_DERIVATION`. -/
def keyDerivation (L : Libcrypto) (ok : Byte → HashStep → Bool) (sharedKey : EcDhShared)
    (kdfId : UInt16) : Except SgxStatus SessionKeys :=
  if kdfId ≠ 2 then .error .kdfMismatch
  else
    match deriveKeys L (ok 0) sharedKey 0 with
    | none => .error .unexpected
    | some first =>
        match deriveKeys L (ok 1) sharedKey 1 with
        | none => .error .unexpected
        | some second => .ok ⟨first.1, first.2, second.1, second.2⟩

/-- The enclave derives keys exactly for a `msg2` of a service provider with the supplied
derivation, and then the keys that this derives from the secret. -/
theorem keyDerivation_eq_ok_iff {L : Libcrypto} {ok : Byte → HashStep → Bool}
    {shared : EcDhShared} {k : Kdf} {keys : SessionKeys} :
    keyDerivation L ok shared k.id = .ok keys ↔
      k = .supplied ∧ (∀ step, ok 0 step) ∧ (∀ step, ok 1 step) ∧
        keys = sessionKeys L shared k := by
  cases k with
  | standard => simp [keyDerivation, Kdf.id]
  | supplied =>
      simp only [keyDerivation, Kdf.id, ne_eq, not_true_eq_false, if_false]
      by_cases h₀ : ∀ step, ok 0 step
      · rw [deriveKeys_eq_some_iff.mpr ⟨h₀, rfl⟩]
        by_cases h₁ : ∀ step, ok 1 step
        · rw [deriveKeys_eq_some_iff.mpr ⟨h₁, rfl⟩]
          simp [h₀, h₁, sessionKeys, eq_comm]
        · rw [deriveKeys_eq_none h₁]
          simp [h₁]
      · rw [deriveKeys_eq_none h₀]
        simp [h₀]

/-! ## The result -/

/-- `verify_att_result_mac`. -/
def verifyAttResultMac (L : Libcrypto) (e : EnclaveEnv) (message mac : List Byte) : SgxStatus :=
  if mac.length ≠ 16 then .invalidParameter
  else if 2 ^ 32 ≤ message.length then .invalidParameter
  else
    match e.mkKey with
    | .error code => .other code
    | .ok mkKey =>
        match e.cmac with
        | some code => .other code
        | none => if mac ≠ (L.cmac mkKey message).toList then .macMismatch else .success

/-- `put_secret_data`: the result, and `g_secret` afterwards.  Whatever the decryption says,
a buffer that does not hold the expected bytes is an error. -/
def putSecretData (L : Libcrypto) (e : EnclaveEnv) (secretBytes : List Byte) (gcmMac : Key128)
    (gSecret : Vector Byte 8) : SgxStatus × Vector Byte 8 :=
  if secretBytes.length ≠ 8 then (.invalidParameter, gSecret)
  else
    match e.skKey with
    | .error code => (.other code, gSecret)
    | .ok skKey =>
        let decrypted :=
          match L.gcmDecrypt skKey (Vector.replicate 12 0) ((Layout.array 8).get secretBytes)
            gcmMac with
          | some plain => (SgxStatus.success, plain)
          | none => (.macMismatch, e.leftover gSecret)
        let secretMatch := (List.finRange 8).all fun i => decrypted.2[i] == UInt8.ofNat i
        (if secretMatch then decrypted.1 else .unexpected, decrypted.2)

/-- The end of a round of `main` in `isv_app.cpp`: the value of `ret`, and `g_secret`.  After
`put_secret_data` it is what the call itself has come to; what the enclave has returned is
only printed. -/
def processAttResult (L : Libcrypto) (e : EnclaveEnv) (resp : Response)
    (gSecret : Vector Byte 8) : ℤ × Vector Byte 8 :=
  if resp.type ≠ RaMsgType.attResult.toByte then (-1, gSecret)
  else
    let body := AttResult.layout.get resp.body
    let payload := (resp.body.drop AttResult.layout.size).take body.payloadSize.toNat
    if e.ecall.1 != 0 || verifyAttResultMac L e (PlatformInfoBlob.layout.put body.platformInfoBlob)
        body.mac.toList != .success then (-1, gSecret)
    else if resp.status ≠ (0, 0) then (0, gSecret)
    else if e.ecall.2 ≠ 0 then (e.ecall.2, gSecret)
    else (0, (putSecretData L e payload body.payloadTag gSecret).2)

/-- The enclave compares with the secret that the service provider sends. -/
theorem all_eq_ofNat_iff {v : Vector Byte 8} :
    ((List.finRange 8).all fun i => v[i] == UInt8.ofNat i) ↔ v = secret := by
  have hsecret : ∀ i : Fin 8, secret[i] = UInt8.ofNat i := by decide
  simp only [List.all_eq_true, List.mem_finRange, forall_const, beq_iff_eq]
  constructor
  · intro h
    apply Vector.ext
    intro i hi
    exact (h ⟨i, hi⟩).trans (hsecret ⟨i, hi⟩).symm
  · rintro rfl
    exact hsecret

/-- The enclave reports success exactly when the message decrypts to the secret. -/
theorem putSecretData_success_iff {L : Libcrypto} {e : EnclaveEnv} {bytes : List Byte}
    {tag : Key128} {g : Vector Byte 8} :
    (putSecretData L e bytes tag g).1 = .success ↔
      bytes.length = 8 ∧ ∃ skKey, e.skKey = .ok skKey ∧
        L.gcmDecrypt skKey (Vector.replicate 12 0) ((Layout.array 8).get bytes) tag =
          some secret := by
  rw [putSecretData]
  by_cases hlen : bytes.length = 8
  · rw [if_neg (not_not.mpr hlen)]
    cases hsk : e.skKey with
    | error code => simp
    | ok skKey =>
        simp only [hlen, true_and, Except.ok.injEq, exists_eq_left']
        cases hd : L.gcmDecrypt skKey (Vector.replicate 12 0) ((Layout.array 8).get bytes) tag with
        | none => split_ifs <;> simp
        | some plain =>
            by_cases hp : plain = secret
            · rw [if_pos (all_eq_ofNat_iff.mpr hp), hp]
              simp
            · rw [if_neg (fun h => hp (all_eq_ofNat_iff.mp h))]
              simp [hp]
  · rw [if_pos hlen]
    simp [hlen]

/-- After a success `g_secret` is the secret. -/
theorem secret_of_success {L : Libcrypto} {e : EnclaveEnv} {bytes : List Byte} {tag : Key128}
    {g : Vector Byte 8} (h : (putSecretData L e bytes tag g).1 = .success) :
    (putSecretData L e bytes tag g).2 = secret := by
  obtain ⟨hlen, skKey, hsk, hd⟩ := putSecretData_success_iff.mp h
  simp only [putSecretData, hlen, hsk, hd]
  rfl

/-! ## The two ends -/

/-- The session as the other end of the exchange has to compute it, from its own private key
and the public key in `msg2`. -/
def peerSession (L : Libcrypto) (k : Kdf) (a : EcPriv) (gB : EcPub) : SpDbItem :=
  let keys := sessionKeys L (L.sharedDhkey a gB) k
  { gA := L.publicOf a, gB := gB, b := Vector.replicate 32 0, smkKey := keys.smkKey
    skKey := keys.skKey, mkKey := keys.mkKey, vkKey := keys.vkKey
    psSecProp := Vector.replicate 256 0 }

/-- The enclave holds the keys of a session, and nothing fails while it handles a result. -/
structure EnclaveEnv.Holds (e : EnclaveEnv) (db : SpDbItem) : Prop where
  mkKey : e.mkKey = .ok db.mkKey
  skKey : e.skKey = .ok db.skKey
  cmac : e.cmac = none
  ecall : e.ecall = (0, 0)

/-- An enclave that holds the keys of the session gets the secret out of the result. -/
theorem processAttResult_attResultResponse {L : Libcrypto} {e : Env} {enclave : EnclaveEnv}
    {db : SpDbItem} (hholds : enclave.Holds db)
    (hgcm : L.gcmDecrypt db.skKey (Vector.replicate 12 0)
      (L.gcmEncrypt db.skKey (Vector.replicate 12 0) secret).1
      (L.gcmEncrypt db.skKey (Vector.replicate 12 0) secret).2 = some secret)
    (g : Vector Byte 8) :
    processAttResult L enclave (attResultResponse L e db) g = (0, secret) := by
  let blob := signedPlatformInfo L e
  let sealed := L.gcmEncrypt db.skKey (Vector.replicate 12 0) secret
  let result : AttResult := ⟨blob, L.cmac db.mkKey (PlatformInfoBlob.layout.put blob), 8,
    Vector.replicate 12 0, sealed.2⟩
  have hbody : AttResult.layout.get (attResultResponse L e db).body = result :=
    AttResult.layout.get_put_append _ _
  have hdrop : (attResultResponse L e db).body.drop AttResult.layout.size = sealed.1.toList :=
    AttResult.layout.drop_put_append _ _
  have hpayload : sealed.1.toList.take (8 : UInt32).toNat = sealed.1.toList :=
    List.take_of_length_le (by rw [Vector.length_toList]; decide)
  have hmac : verifyAttResultMac L enclave (PlatformInfoBlob.layout.put blob)
      (L.cmac db.mkKey (PlatformInfoBlob.layout.put blob)).toList = .success := by
    have hlen : (PlatformInfoBlob.layout.put blob).length = 97 := Layout.length_put _ _
    simp [verifyAttResultMac, hlen, hholds.mkKey, hholds.cmac]
  have hput : (putSecretData L enclave sealed.1.toList sealed.2 g).1 = .success := by
    refine putSecretData_success_iff.mpr ⟨Vector.length_toList, _, hholds.skKey, ?_⟩
    have hget : (Layout.array 8).get sealed.1.toList = sealed.1 := (Layout.array 8).get_put _
    rw [hget]
    exact hgcm
  have htype : (attResultResponse L e db).type = RaMsgType.attResult.toByte := rfl
  have hstatus : (attResultResponse L e db).status = (0, 0) := rfl
  simp only [processAttResult, htype, hstatus, hbody, hdrop, hpayload, hmac, hholds.ecall,
    secret_of_success hput, result]
  rfl

/-- Both ends have the same session if the exchange gives them the same secret. -/
theorem session_eq_peerSession {L : Libcrypto} {k : Kdf} {a b : EcPriv}
    (hdh : L.sharedDhkey b (L.publicOf a) = L.sharedDhkey a (L.publicOf b)) :
    session L k b (L.publicOf a) = { peerSession L k a (L.publicOf b) with b := b } := by
  simp only [session, peerSession, hdh]

/-- Which enclave gets the secret.  After any run in which the last `msg1` got through, an
enclave that has done its part of the exchange with that `msg1`'s key pair is answered
exactly if the `msg1` was its own; and then it gets the secret out of the answer. -/
theorem secret_delivered_iff {L : Libcrypto} {k : Kdf} {is : List (Env × Request)}
    {os : List (Except ℤ Response)} {s : Sp}
    (h : (runAll (raNetworkSendReceive L k) is).run Sp.init = .ret (os, s))
    {ms : List (Env × EcPub)} {e : Env} {gA : EcPub}
    (hms : servedMsg1s false is = ms ++ [(e, gA)]) (he : e.reach k = k.stages) {a : EcPriv}
    (hdh : L.sharedDhkey e.priv (L.publicOf a) = L.sharedDhkey a (L.publicOf e.priv))
    {i : Env × Request} (hi : i.2.type = RaMsgType.msg3.toByte) {ps : Vector Byte 256}
    {before : Vector Byte 368} {tail : List Byte}
    (hbody : i.2.body = msg3Bytes L (peerSession L k a (L.publicOf e.priv)) ps before tail)
    {enclave : EnclaveEnv} (hholds : enclave.Holds (peerSession L k a (L.publicOf e.priv)))
    (hgcm : ∀ skKey : Key128, L.gcmDecrypt skKey (Vector.replicate 12 0)
      (L.gcmEncrypt skKey (Vector.replicate 12 0) secret).1
      (L.gcmEncrypt skKey (Vector.replicate 12 0) secret).2 = some secret) :
    ((∃ resp s', (raNetworkSendReceive L k i).run s = .ret (.ok resp, s')) ↔
      i.1.servesMsg3 ∧ gA = L.publicOf a) ∧
    ∀ resp s' g, (raNetworkSendReceive L k i).run s = .ret (.ok resp, s') →
      processAttResult L enclave resp g = (0, secret) := by
  have hreg : is.any registers := any_registers_of_concat hms
  have hiff := answered_iff_of_run h hi
  rw [storedSession_of_whole hms he] at hiff
  have hown : ∀ ps' before' tail',
      i.2.body = msg3Bytes L (session L k e.priv gA) ps' before' tail' →
      gA = L.publicOf a := by
    intro ps' before' tail' hb
    have hget := congrArg Msg3.layout.get (hbody.symm.trans hb)
    rw [msg3Bytes, msg3Bytes, Msg3.layout.get_put_append, Msg3.layout.get_put_append] at hget
    exact (congrArg (fun m : Msg3 => m.head.gA) hget).symm
  constructor
  · constructor
    · rintro ⟨resp, s', hrun⟩
      obtain ⟨-, hserves, ⟨ps', before', tail', hb⟩, -⟩ := (hiff resp).mp ⟨s', hrun⟩
      exact ⟨hserves, hown ps' before' tail' hb⟩
    · rintro ⟨hserves, rfl⟩
      have hb : i.2.body = msg3Bytes L (session L k e.priv (L.publicOf a)) ps before tail := by
        rw [hbody, session_eq_peerSession hdh]
        rfl
      obtain ⟨s', hs'⟩ := (hiff _).mpr ⟨hreg, hserves, ⟨ps, before, tail, hb⟩, rfl⟩
      exact ⟨_, s', hs'⟩
  · intro resp s' g hrun
    obtain ⟨-, -, ⟨ps', before', tail', hb⟩, rfl⟩ := (hiff resp).mp ⟨s', hrun⟩
    obtain rfl := hown ps' before' tail' hb
    rw [session_eq_peerSession hdh]
    exact processAttResult_attResultResponse hholds (hgcm _) g

/-- An enclave that holds the keys of a session. -/
def EnclaveEnv.holding (db : SpDbItem) : EnclaveEnv :=
  ⟨.ok db.mkKey, .ok db.skKey, none, id, (0, 0)⟩

theorem secret_delivered_of_sampleRun : ∃ os s resp s',
    (runAll (raNetworkSendReceive reference .supplied)
      (sampleRun [(.fine (numBytes 3), p256PublicOf (numBytes 2))])).run Sp.init = .ret (os, s) ∧
    (raNetworkSendReceive reference .supplied (.fine (numBytes 3), sampleMsg3 reference
      (peerSession reference .supplied (numBytes 2) (p256PublicOf (numBytes 3))))).run s =
        .ret (.ok resp, s') ∧
    processAttResult reference (.holding (peerSession reference .supplied (numBytes 2)
      (p256PublicOf (numBytes 3)))) resp (Vector.replicate 8 0) = (0, secret) := by
  obtain ⟨os, s, h⟩ := exists_run_sampleRun reference .supplied
    [(.fine (numBytes 3), p256PublicOf (numBytes 2))]
  have hms : servedMsg1s false (sampleRun [(.fine (numBytes 3), p256PublicOf (numBytes 2))]) =
      [] ++ [(.fine (numBytes 3), p256PublicOf (numBytes 2))] := servedMsg1s_sampleRun _
  have hdh : reference.sharedDhkey (numBytes 3) (reference.publicOf (numBytes 2)) =
      reference.sharedDhkey (numBytes 2) (reference.publicOf (numBytes 3)) := by decide +kernel
  obtain ⟨hiff, hsecret⟩ := secret_delivered_iff h hms rfl hdh
    (i := (.fine (numBytes 3), sampleMsg3 reference
      (peerSession reference .supplied (numBytes 2) (p256PublicOf (numBytes 3))))) rfl rfl
    (⟨rfl, rfl, rfl, rfl⟩ : (EnclaveEnv.holding (peerSession reference .supplied (numBytes 2)
      (p256PublicOf (numBytes 3)))).Holds _)
    (fun skKey => reference_gcm skKey _ _)
  obtain ⟨resp, s', hrun⟩ := hiff.mpr ⟨rfl, rfl⟩
  exact ⟨os, s, resp, s', h, hrun, hsecret resp s' _ hrun⟩

end SgxErlang.Attestation
