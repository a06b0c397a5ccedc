import SgxErlang.Attestation.ServiceProvider
import SgxErlang.Lib.StagedWrite

/-!
# What a request does to the session

`sp_ra_proc_msg1_req` fills in the session one field after the other and stops at the first
call that fails, so a session is written in stages: the client's public key, the key pair of
the service provider, and then the derived keys in the order of the code, which is another
one in each build.  The other two handlers leave these fields alone.

## Main definitions

* `Slot`, `Kdf.rank` — the fields, and the stages in which they are written.
* `msg1Write` — what one `msg1` writes.
* `Sp.Valid` — what holds whenever no request is being served.

## Main results

* `exec_msg0`, `exec_msg1`, `exec_msg3` — one request of each kind, from any valid state.
-/

namespace SgxErlang.Attestation

open Handler StagedWrite

/-- The fields of the session that `msg1` writes. -/
inductive Slot where
  | gA | gB | b | smkKey | skKey | mkKey | vkKey
  deriving DecidableEq

/-- The bytes of a field. -/
def SpDbItem.read (db : SpDbItem) : Slot → List Byte
  | .gA => EcPub.layout.put db.gA
  | .gB => EcPub.layout.put db.gB
  | .b => db.b.toList
  | .smkKey => db.smkKey.toList
  | .skKey => db.skKey.toList
  | .mkKey => db.mkKey.toList
  | .vkKey => db.vkKey.toList

/-- Two sessions with the same bytes are the same. -/
theorem SpDbItem.ext_read {db db' : SpDbItem} (h : db.read = db'.read)
    (hps : db.psSecProp = db'.psSecProp) : db = db' := by
  have hslot := congrFun h
  have hA := EcPub.layout.put_injective (hslot .gA)
  have hB := EcPub.layout.put_injective (hslot .gB)
  have hb := Vector.toList_inj.mp (hslot .b)
  have hsmk := Vector.toList_inj.mp (hslot .smkKey)
  have hsk := Vector.toList_inj.mp (hslot .skKey)
  have hmk := Vector.toList_inj.mp (hslot .mkKey)
  have hvk := Vector.toList_inj.mp (hslot .vkKey)
  cases db
  cases db'
  simp_all

/-- The stage in which a field is written. -/
def Kdf.rank : Kdf → Slot → ℕ
  | _, .gA => 0
  | _, .gB => 1
  | _, .b => 1
  | _, .smkKey => 2
  | .standard, .mkKey => 3
  | .standard, .skKey => 4
  | .standard, .vkKey => 5
  | .supplied, .skKey => 2
  | .supplied, .mkKey => 3
  | .supplied, .vkKey => 3

/-- The number of stages. -/
def Kdf.stages : Kdf → ℕ
  | .standard => 6
  | .supplied => 4

theorem Kdf.rank_lt_stages (k : Kdf) (slot : Slot) : k.rank slot < k.stages := by
  cases k <;> cases slot <;> decide

/-- The session that a `msg1` sets up when nothing fails. -/
def session (L : Libcrypto) (k : Kdf) (b : EcPriv) (gA : EcPub) : SpDbItem :=
  let keys := sessionKeys L (L.sharedDhkey b gA) k
  { gA := gA, gB := L.publicOf b, b := b, smkKey := keys.smkKey, skKey := keys.skKey
    mkKey := keys.mkKey, vkKey := keys.vkKey, psSecProp := Vector.replicate 256 0 }

/-- All calls of one `derive_key` succeed. -/
def Env.derives (e : Env) : Kdf → Byte → Bool
  | .standard, keyId =>
      e.ok (.kdf keyId .extract) && e.ok (.kdf keyId .malloc) && e.ok (.kdf keyId .expand)
  | .supplied, keyId =>
      e.ok (.hash keyId .init) && e.ok (.hash keyId .buffer) && e.ok (.hash keyId .idU) &&
        e.ok (.hash keyId .idV) && e.ok (.hash keyId .getHash)

/-- What has to succeed for each stage after the first. -/
def Env.gates (e : Env) : Kdf → List Bool
  | .standard =>
      [e.ok .openContext && e.ok .createKeyPair,
        e.ok .computeSharedDhkey && e.derives .standard 0, e.derives .standard 2,
        e.derives .standard 1, e.derives .standard 3]
  | .supplied =>
      [e.ok .openContext && e.ok .createKeyPair,
        e.ok .computeSharedDhkey && e.derives .supplied 0, e.derives .supplied 1]

/-- The number of stages that a `msg1` gets through. -/
def Env.reach (e : Env) (k : Kdf) : ℕ := 1 + ((e.gates k).takeWhile id).length

/-- What one `msg1` writes. -/
def msg1Write (L : Libcrypto) (k : Kdf) (e : Env) (gA : EcPub) :
    StagedWrite Slot (List Byte) where
  reach := e.reach k
  fresh := (session L k e.priv gA).read

theorem whole_msg1Write_iff {L : Libcrypto} {k : Kdf} {e : Env} {gA : EcPub} :
    (msg1Write L k e gA).Whole k.rank ↔ e.reach k = k.stages := by
  have hle : e.reach k ≤ k.stages := by
    have := (List.takeWhile_prefix (l := e.gates k) id).length_le
    cases k <;> simp only [Env.reach, Kdf.stages, Env.gates, List.length_cons,
      List.length_nil] at this ⊢ <;> omega
  constructor
  · intro h
    have hv := h .vkKey
    cases k <;> simp only [msg1Write, Kdf.rank, Kdf.stages] at hv hle ⊢ <;> omega
  · intro h slot
    exact lt_of_lt_of_eq (k.rank_lt_stages slot) h.symm

/-! ## Deriving the keys -/

theorem deriveKey_eq {L : Libcrypto} {e : Env} {shared : EcDhShared} (keyId : Byte)
    {l : List Byte} (hl : label keyId = some l) :
    deriveKey L (fun s => e.ok (.kdf keyId s)) shared keyId =
      if e.derives .standard keyId then some (expandKey L shared l) else none := by
  rw [deriveKey, hl]
  cases hx : e.ok (.kdf keyId .extract) <;> cases hm : e.ok (.kdf keyId .malloc) <;>
    cases he : e.ok (.kdf keyId .expand) <;> simp [Env.derives, hx, hm, he]

theorem deriveKeys_eq {L : Libcrypto} {e : Env} {shared : EcDhShared} {keyId : Byte} :
    deriveKeys L (fun s => e.ok (.hash keyId s)) shared keyId =
      if e.derives .supplied keyId then some (digestKeys (L.sha256 (hashInput shared keyId)))
      else none := by
  rw [deriveKeys]
  split_ifs <;> simp_all [Env.derives]

/-- A stage that stores a derived value. -/
theorem exec_storeDerived {α : Type} (c : Bool) (a : α) (store : α → SpDbItem → SpDbItem)
    (s : Sp) :
    exec (storeDerived (if c then some a else none) store) s =
      if c then .ret (.ok ⟨⟩, { s with db := store a s.db })
      else .ret (.error spInternalError, s) := by
  cases c <;> rfl

/-- The writes of `sp_ra_proc_msg1_req`: a session written as far as the calls succeed, and
an error unless they all do. -/
theorem exec_exchangeKeys (L : Libcrypto) (k : Kdf) (e : Env) (gA : EcPub) (s : Sp) :
    ∃ r db, exec (exchangeKeys L k e gA) s = .ret (r, { s with db := db }) ∧
      db.read = (msg1Write L k e gA).apply k.rank s.db.read ∧
      db.psSecProp = s.db.psSecProp ∧
      (r = .ok ⟨⟩ ∨ ∃ c, c ≠ 0 ∧ r = .error c) ∧ (r = .ok ⟨⟩ ↔ e.reach k = k.stages) := by
  cases k
  all_goals
    simp only [exchangeKeys, modifyDb, exec_bind, exec_modify, Outcome.ret_bind,
      exec_bind_of_ite (exec_require _ _ _), deriveSessionKeys,
      deriveKey_eq 0 rfl, deriveKey_eq 1 rfl,
      deriveKey_eq 2 rfl, deriveKey_eq 3 rfl, deriveKeys_eq,
      exec_bind_of_ite (exec_storeDerived _ _ _ _), exec_storeDerived]
    -- one case for each call that fails first, and one for none
    split_ifs
  all_goals
    refine ⟨_, _, rfl, ?_, rfl, ?_, ?_⟩
    · funext slot
      simp only [StagedWrite.apply, msg1Write, Env.reach, Env.gates, *]
      cases slot <;> rfl
    · simp [spInternalError]
    · simp [Env.reach, Env.gates, Kdf.stages, *]

/-! ## One request -/

/-- What holds whenever no request is being served. -/
structure Sp.Valid (s : Sp) : Prop where
  group_eq : s.extendedEpidGroup = if s.isSpRegistered then some iasGroup else none
  spid_eq : s.isSpRegistered → s.spid = simSpid

theorem Sp.valid_init : Sp.init.Valid := ⟨rfl, by decide⟩

/-- The service provider after it has heard of a group. -/
def Sp.register (s : Sp) (extendedEpidGroupId : UInt32) : Sp :=
  if extendedEpidGroupId = 0 then
    { s with extendedEpidGroup := some iasGroup, spid := simSpid, isSpRegistered := true }
  else s

/-- The answer to `msg0`. -/
def msg0Response (ecdsa : Bool) : Response where
  type := RaMsgType.msg0.toByte
  status := (0, 0)
  size := 264
  body := if ecdsa then ecdsaP256AttKeyIdList else epidUnlinkableAttKeyIdList

/-- Registering again changes nothing. -/
theorem Sp.register_eq_self {s : Sp} (hs : s.Valid) {extendedEpidGroupId : UInt32}
    (h : s.needsGroup extendedEpidGroupId = false) : s.register extendedEpidGroupId = s := by
  by_cases hr : s.isSpRegistered
  · obtain ⟨hgroup, hspid⟩ := hs
    rw [if_pos hr] at hgroup
    have hspid := hspid hr
    rw [Sp.register]
    split_ifs
    · cases s
      simp_all
    · rfl
  · simp [needsGroup, hr] at h

/-- `registerGroup` registers with the one group there is, and does nothing for another
one. -/
theorem exec_registerGroup {s : Sp} (hs : s.Valid) (extendedEpidGroupId : UInt32) :
    exec (registerGroup extendedEpidGroupId) s =
      .ret (.ok ⟨⟩, s.register extendedEpidGroupId) := by
  rw [registerGroup, exec_bind_ok (exec_get s)]
  cases hneeds : s.needsGroup extendedEpidGroupId with
  | false =>
      rw [Sp.register_eq_self hs hneeds]
      rfl
  | true =>
      by_cases h : extendedEpidGroupId = 0
      · subst h
        rfl
      · have hfind : extendedEpidGroups.find? (·.extendedEpidGroupId == extendedEpidGroupId) =
            none := by
          rw [extendedEpidGroups, List.find?_singleton, if_neg]
          simpa [iasGroup] using Ne.symm h
        simp only [if_true, hfind, exec_pure, Sp.register, if_neg h]

theorem exec_msg0 {s : Sp} (hs : s.Valid) (e : Env) (body : List Byte) :
    exec (spRaProcMsg0Req e body) s =
      if body.length = 4 then
        if e.ok .msg0Malloc then
          .ret (.ok (msg0Response s.returnEcdsaAttKeyId),
            { s.register (Layout.uint32.get body) with returnEcdsaAttKeyId := false })
        else .ret (.error spInternalError, s.register (Layout.uint32.get body))
      else .ret (.error (-1), s) := by
  have hsize : (body.length == Layout.uint32.size) = decide (body.length = 4) := rfl
  have hregistered : (s.register (Layout.uint32.get body)).returnEcdsaAttKeyId =
      s.returnEcdsaAttKeyId := by
    rw [Sp.register]
    split_ifs <;> rfl
  simp only [spRaProcMsg0Req, hsize, exec_bind_of_ite (exec_require _ _ _),
    exec_bind_ok (exec_registerGroup hs _), exec_bind_ok (exec_get _),
    exec_bind_ok (exec_modify _ _), exec_pure, hregistered, decide_eq_true_eq]
  rfl

/-- The calls that assembling `msg2` makes. -/
def Env.assemblesMsg2 (e : Env) : Bool := e.ok .msg2Malloc && e.ok .msg2Sign && e.ok .msg2Cmac

/-- The answer to `msg1`, once the session is stored. -/
def msg2Response (L : Libcrypto) (k : Kdf) (e : Env) (s : Sp) : Response where
  type := RaMsgType.msg2.toByte
  status := (0, 0)
  size := 168
  body := Msg2.layout.put
    ⟨msg2Head L k e s, L.cmac s.db.smkKey (Msg2Head.layout.put (msg2Head L k e s)), 0⟩

theorem exec_assembleMsg2 (L : Libcrypto) (k : Kdf) (e : Env) (s : Sp) :
    exec (assembleMsg2 L k e []) s =
      if e.assemblesMsg2 then .ret (.ok (msg2Response L k e s), s)
      else .ret (.error spInternalError, s) := by
  simp only [assembleMsg2, exec_bind_ok (exec_get s), exec_bind_of_ite (exec_require _ _ _),
    List.append_nil, Env.assemblesMsg2, Bool.and_eq_true]
  split_ifs <;> first | rfl | simp_all

/-- A `msg1` of the wrong size, or before any registration, is refused. -/
theorem exec_msg1_refused {L : Libcrypto} {k : Kdf} {e : Env} {s : Sp} {body : List Byte}
    (h : ¬(body.length = 68 ∧ s.isSpRegistered)) :
    ∃ c, c ≠ 0 ∧ exec (spRaProcMsg1Req L k e body) s = .ret (.error c, s) := by
  simp only [spRaProcMsg1Req, exec_bind_of_ite (exec_require _ _ _), exec_bind_ok (exec_get s),
    Msg1.size_layout, beq_iff_eq]
  by_cases hlen : body.length = 68
  · have hr : ¬s.isSpRegistered := fun hr => h ⟨hlen, hr⟩
    exact ⟨1, by decide, by rw [if_pos hlen, if_neg hr]; rfl⟩
  · exact ⟨-1, by decide, by rw [if_neg hlen]⟩

/-- Any other `msg1` writes a session, as far as the calls succeed. -/
theorem exec_msg1 {L : Libcrypto} {k : Kdf} {e : Env} {s : Sp} {body : List Byte} (hs : s.Valid)
    (hlen : body.length = 68) (hr : s.isSpRegistered) :
    ∃ r db, exec (spRaProcMsg1Req L k e body) s = .ret (r, { s with db := db }) ∧
      db.read = (msg1Write L k e (Msg1.layout.get body).gA).apply k.rank s.db.read ∧
      db.psSecProp = s.db.psSecProp ∧
      (∀ resp, r = .ok resp ↔ e.reach k = k.stages ∧ e.assemblesMsg2 ∧
        resp = msg2Response L k e { s with db := db }) ∧
      ∀ c, r = .error c → c ≠ 0 := by
  have hgroup : s.extendedEpidGroup = some iasGroup := by rw [hs.group_eq, if_pos hr]
  obtain ⟨r, db, hexec, hread, hps, hr', hwhole⟩ :=
    exec_exchangeKeys L k e (Msg1.layout.get body).gA s
  have hrun : exec (spRaProcMsg1Req L k e body) s =
      exec (exchangeKeys L k e (Msg1.layout.get body).gA >>= fun _ => assembleMsg2 L k e []) s := by
    simp only [spRaProcMsg1Req, exec_bind_of_ite (exec_require _ _ _),
      exec_bind_ok (exec_get s), Msg1.size_layout, hlen, hr, hgroup, beq_self_eq_true, if_true]
    rfl
  rw [hrun]
  rcases hr' with rfl | ⟨c, hc, rfl⟩
  · have hreach := hwhole.mp rfl
    rw [exec_bind_ok hexec, exec_assembleMsg2]
    by_cases ha : e.assemblesMsg2
    · refine ⟨_, db, by rw [if_pos ha], hread, hps, ?_, ?_⟩
      · intro resp
        simp [hreach, ha, eq_comm]
      · intro c hc
        cases hc
    · refine ⟨_, db, by rw [if_neg ha], hread, hps, ?_, ?_⟩
      · intro resp
        simp [ha]
      · rintro c ⟨⟩
        decide
  · have hreach : e.reach k ≠ k.stages := fun h => by cases hwhole.mpr h
    rw [exec_bind_error hexec]
    refine ⟨_, db, rfl, hread, hps, ?_, ?_⟩
    · intro resp
      simp [hreach]
    · rintro c' ⟨⟩
      exact hc

/-! ### `msg3` -/

/-- The message belongs to the session that is stored and is authenticated by it. -/
structure Authentic (L : Libcrypto) (s : Sp) (body : List Byte) : Prop where
  registered : s.isSpRegistered
  size_le : 336 ≤ body.length
  gA_eq : s.db.gA = (Msg3.layout.get body).head.gA
  mac_eq : (Msg3.layout.get body).mac = L.cmac s.db.smkKey (body.drop 16)

/-- The quote carries the hash of the session. -/
def Committed (L : Libcrypto) (db : SpDbItem) (body : List Byte) : Prop :=
  expectedReportData L db = (Quote.layout.get (body.drop 336)).reportData

/-- The calls that checking the quote makes. -/
def Env.hashesQuote (e : Env) : Bool :=
  e.ok .shaInit && e.ok .shaGa && e.ok .shaGb && e.ok .shaVk && e.ok .shaGetHash

/-- The calls that the attestation server makes. -/
def Env.verifies (e : Env) : Bool := e.ok .iasOpenContext && e.ok .iasSign

/-- The calls that assembling the result makes. -/
def Env.assemblesAttResult (e : Env) : Bool :=
  e.ok .resultMalloc && e.ok .resultCmac && e.gcm.isNone

/-- The platform information with its signature. -/
def signedPlatformInfo (L : Libcrypto) (e : Env) : PlatformInfoBlob :=
  let signature := L.ecdsaSign rkPrivKey e.nonce (PlatformInfo.layout.put platformInfo)
  ⟨platformInfo, ⟨swapEndian32B signature.x, swapEndian32B signature.y⟩⟩

/-- The answer to `msg3`, with the secret. -/
def attResultResponse (L : Libcrypto) (e : Env) (db : SpDbItem) : Response :=
  let blob := signedPlatformInfo L e
  let sealed := L.gcmEncrypt db.skKey (Vector.replicate 12 0) secret
  { type := RaMsgType.attResult.toByte
    status := (0, 0)
    size := 145
    body := AttResult.layout.put
      ⟨blob, L.cmac db.mkKey (PlatformInfoBlob.layout.put blob), 8, Vector.replicate 12 0,
        sealed.2⟩ ++ sealed.1.toList }

/-- The quote is read past the end of the message. -/
structure OverReads (L : Libcrypto) (e : Env) (s : Sp) (body : List Byte) : Prop where
  authentic : Authentic L s body
  cmac : e.ok .msg3Cmac
  hashes : e.hashesQuote
  size_lt : body.length < 768

/-- The service provider after it has looked at an authentic `msg3`. -/
def Sp.withPsSecProp (s : Sp) (psSecProp : Vector Byte 256) : Sp :=
  { s with db := { s.db with psSecProp := psSecProp } }

/-- A message that does not belong to the session is refused. -/
theorem exec_authenticateMsg3 (L : Libcrypto) (e : Env) (s : Sp) (body : List Byte) :
    (Authentic L s body ∧ e.ok .msg3Cmac ∧ exec (authenticateMsg3 L e body) s = .ret (.ok ⟨⟩, s)) ∨
    (¬(Authentic L s body ∧ e.ok .msg3Cmac) ∧
      ∃ c, c ≠ 0 ∧ exec (authenticateMsg3 L e body) s = .ret (.error c, s)) := by
  have hsize : decide (Msg3.layout.size ≤ body.length) = decide (336 ≤ body.length) := rfl
  simp only [authenticateMsg3, hsize, exec_bind_of_ite (exec_require _ _ _),
    exec_bind_ok (exec_get s), exec_require, decide_eq_true_eq, beq_iff_eq]
  split_ifs with hsize hreg hgA hcmac hmac
  · exact .inl ⟨⟨hreg, hsize, hgA, hmac⟩, hcmac, rfl⟩
  · exact .inr ⟨fun h => hmac h.1.mac_eq, _, by decide, rfl⟩
  · exact .inr ⟨fun h => hcmac h.2, _, by decide, rfl⟩
  · exact .inr ⟨fun h => hgA h.1.gA_eq, _, by decide, rfl⟩
  · exact .inr ⟨fun h => hreg h.1.registered, _, by decide, rfl⟩
  · exact .inr ⟨fun h => hsize h.1.size_le, _, by decide, rfl⟩

/-- A quote that is too short is read past its end; another one is compared. -/
theorem exec_compareReportData (L : Libcrypto) (s : Sp) (body : List Byte) :
    (body.length < 768 ∧ exec (compareReportData L (body.drop 336)) s = .undefined) ∨
    (768 ≤ body.length ∧ Committed L s.db body ∧
      exec (compareReportData L (body.drop 336)) s = .ret (.ok ⟨⟩, s)) ∨
    (768 ≤ body.length ∧ ¬Committed L s.db body ∧
      exec (compareReportData L (body.drop 336)) s = .ret (.error spIntegrityFailed, s)) := by
  rw [compareReportData, exec_bind_ok (exec_get s)]
  by_cases hlen : body.length < 768
  · have hshort : (body.drop 336).length < Quote.layout.size := by
      rw [List.length_drop, Quote.size_layout]
      omega
    exact .inl ⟨hlen, by rw [if_pos hshort, exec_undefinedBehaviour]⟩
  · have hlong : ¬(body.drop 336).length < Quote.layout.size := by
      rw [List.length_drop, Quote.size_layout]
      omega
    rw [if_neg hlong, exec_require]
    by_cases hc : Committed L s.db body
    · exact .inr (.inl ⟨by omega, hc, if_pos (beq_iff_eq.mpr hc)⟩)
    · exact .inr (.inr ⟨by omega, hc, if_neg fun h => hc (beq_iff_eq.mp h)⟩)

theorem exec_checkQuote (L : Libcrypto) (e : Env) (s : Sp) (quote : List Byte) :
    exec (checkQuote L e quote) s =
      if e.hashesQuote then exec (compareReportData L quote) s
      else .ret (.error spInternalError, s) := by
  simp only [checkQuote, exec_bind_of_ite (exec_require _ _ _), Env.hashesQuote,
    Bool.and_eq_true]
  split_ifs <;> first | rfl | simp_all

theorem exec_assembleAttResult (L : Libcrypto) (e : Env) (s : Sp) :
    (e.assemblesAttResult ∧ exec (assembleAttResult L e
      ⟨.ok, signedPlatformInfo L e, .ok⟩) s = .ret (.ok (attResultResponse L e s.db), s)) ∨
    (¬e.assemblesAttResult ∧ ∃ c, c ≠ 0 ∧ exec (assembleAttResult L e
      ⟨.ok, signedPlatformInfo L e, .ok⟩) s = .ret (.error c, s)) := by
  simp only [assembleAttResult, exec_bind_of_ite (exec_require _ _ _), exec_bind_ok (exec_get s),
    Env.assemblesAttResult, Bool.and_eq_true]
  split_ifs with hm hc
  · cases hg : e.gcm with
    | none => exact .inl ⟨by simp [hm, hc], by simp only [sealSecret, hg]; rfl⟩
    | some error =>
        refine .inr ⟨by simp, error.toInt, by cases error <;> decide, ?_⟩
        simp only [sealSecret, hg]
        rfl
  · exact .inr ⟨by simp [hc], _, by decide, rfl⟩
  · exact .inr ⟨by simp [hm], _, by decide, rfl⟩

/-- The server reports that all is well, unless a call fails. -/
theorem iasVerifyAttestationEvidence_eq (L : Libcrypto) (e : Env) (quote : List Byte) :
    (e.verifies ∧ iasVerifyAttestationEvidence L e quote =
      .ok ⟨.ok, signedPlatformInfo L e, .ok⟩) ∨
    (¬e.verifies ∧ ∃ c, iasVerifyAttestationEvidence L e quote = .error c) := by
  cases ho : e.ok .iasOpenContext with
  | false =>
      refine .inr ⟨by simp [Env.verifies, ho], -1, ?_⟩
      simp [iasVerifyAttestationEvidence, ho]
      rfl
  | true =>
      cases hsign : e.ok .iasSign with
      | false =>
          exact .inr ⟨by simp [Env.verifies, hsign], 5,
            by simp [iasVerifyAttestationEvidence, ho, hsign]; rfl⟩
      | true =>
          exact .inl ⟨by simp [Env.verifies, ho, hsign],
            by simp [iasVerifyAttestationEvidence, ho, hsign]; rfl⟩

/-- A registered service provider answers, unless a call fails. -/
theorem exec_answerMsg3 {L : Libcrypto} {e : Env} {s : Sp} (hs : s.Valid)
    (hr : s.isSpRegistered) (quote : List Byte) :
    ((e.verifies ∧ e.assemblesAttResult) ∧
      exec (answerMsg3 L e quote) s = .ret (.ok (attResultResponse L e s.db), s)) ∨
    (¬(e.verifies ∧ e.assemblesAttResult) ∧
      ∃ c, c ≠ 0 ∧ exec (answerMsg3 L e quote) s = .ret (.error c, s)) := by
  have hgroup : s.extendedEpidGroup = some iasGroup := by rw [hs.group_eq, if_pos hr]
  simp only [answerMsg3, exec_bind_ok (exec_get s), hgroup, iasGroup]
  rcases iasVerifyAttestationEvidence_eq L e quote with ⟨hv, h⟩ | ⟨hv, c, h⟩
  · simp only [h]
    rcases exec_assembleAttResult L e s with ⟨ha, h⟩ | ⟨ha, c, hc, h⟩
    · exact .inl ⟨⟨hv, ha⟩, h⟩
    · exact .inr ⟨fun hall => ha hall.2, c, hc, h⟩
  · simp only [h]
    exact .inr ⟨fun hall => hv hall.1, _, by decide, exec_throw _ s⟩

/-- The message is answered with the result. -/
structure Accepts (L : Libcrypto) (e : Env) (s : Sp) (body : List Byte) : Prop where
  authentic : Authentic L s body
  committed : Committed L s.db body
  cmac : e.ok .msg3Cmac
  hashes : e.hashesQuote
  verifies : e.verifies
  assembles : e.assemblesAttResult

theorem Sp.Valid.withPsSecProp {s : Sp} (hs : s.Valid) (ps : Vector Byte 256) :
    (s.withPsSecProp ps).Valid := ⟨hs.group_eq, hs.spid_eq⟩

/-- A `msg3` is read past its end, or it is answered with the secret of the session if it is
accepted, and refused otherwise.  Nothing of the session changes but `ps_sec_prop`. -/
theorem exec_msg3 (L : Libcrypto) (e : Env) {s : Sp} (hs : s.Valid) (body : List Byte) :
    (OverReads L e s body ∧ exec (spRaProcMsg3Req L e body) s = .undefined) ∨
    (¬OverReads L e s body ∧ ∃ r ps,
      exec (spRaProcMsg3Req L e body) s = .ret (r, s.withPsSecProp ps) ∧
      (∀ resp, r = .ok resp ↔ Accepts L e s body ∧ resp = attResultResponse L e s.db) ∧
      ∀ c, r = .error c → c ≠ 0) := by
  have refused : ∀ {c : ℤ} (ps : Vector Byte 256), c ≠ 0 → ¬Accepts L e s body →
      exec (spRaProcMsg3Req L e body) s = .ret (.error c, s.withPsSecProp ps) →
      ∃ r ps, exec (spRaProcMsg3Req L e body) s = .ret (r, s.withPsSecProp ps) ∧
        (∀ resp, r = .ok resp ↔ Accepts L e s body ∧ resp = attResultResponse L e s.db) ∧
        ∀ c, r = .error c → c ≠ 0 := by
    intro c ps hc hno hexec
    refine ⟨_, ps, hexec, fun resp => ?_, ?_⟩
    · simp [hno]
    · intro c' h
      rwa [← Except.error.inj h]
  rcases exec_authenticateMsg3 L e s body with ⟨hauth, hcmac, h₁⟩ | ⟨hno, c, hc, h₁⟩
  · generalize hps : (Msg3.layout.get body).head.psSecProp = ps
    -- what is compared does not depend on `ps_sec_prop`, which has been stored by then
    have h₂ : exec (spRaProcMsg3Req L e body) s =
        exec (checkQuote L e (body.drop 336) >>= fun _ => answerMsg3 L e (body.drop 336))
          (s.withPsSecProp ps) := by
      rw [spRaProcMsg3Req, exec_bind_ok h₁, modifyDb, exec_bind_ok (exec_modify _ _), hps]
      rfl
    rw [exec_bind, exec_checkQuote] at h₂
    by_cases hh : e.hashesQuote
    · rw [if_pos hh] at h₂
      rcases exec_compareReportData L (s.withPsSecProp ps) body with
        ⟨hlen, h₃⟩ | ⟨hlen, hc, h₃⟩ | ⟨hlen, hc, h₃⟩
      · exact .inl ⟨⟨hauth, hcmac, hh, hlen⟩, by rw [h₂, h₃, Outcome.undefined_bind]⟩
      · refine .inr ⟨fun h => absurd h.size_lt (by omega), ?_⟩
        rw [h₃, Outcome.ret_bind] at h₂
        rcases exec_answerMsg3 (e := e) (hs.withPsSecProp ps) hauth.registered (body.drop 336) with
          ⟨⟨hv, ha⟩, h₄⟩ | ⟨hno, c, hc', h₄⟩
        · refine ⟨_, ps, h₂.trans h₄, fun resp => ?_, ?_⟩
          · have hacc : Accepts L e s body := ⟨hauth, hc, hcmac, hh, hv, ha⟩
            rw [Except.ok.injEq]
            exact ⟨fun h => ⟨hacc, h.symm⟩, fun h => h.2.symm⟩
          · intro c h
            cases h
        · exact refused ps hc' (fun h => hno ⟨h.verifies, h.assembles⟩) (h₂.trans h₄)
      · refine .inr ⟨fun h => absurd h.size_lt (by omega), ?_⟩
        rw [h₃] at h₂
        exact refused ps (by decide) (fun h => hc h.committed) h₂
    · rw [if_neg hh] at h₂
      exact .inr ⟨fun h => hh h.hashes, refused ps (by decide) (fun h => hh h.hashes) h₂⟩
  · refine .inr ⟨fun h => hno ⟨h.authentic, h.cmac⟩, ?_⟩
    exact refused s.db.psSecProp hc (fun h => hno ⟨h.authentic, h.cmac⟩)
      (exec_bind_error h₁ _)

end SgxErlang.Attestation
