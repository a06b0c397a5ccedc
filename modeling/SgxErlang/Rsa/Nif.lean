import SgxErlang.Erlang.Enif
import SgxErlang.Rsa.KeyGen

/-!
# The NIFs of the two builds

`App/App.c` with `App/EnclavedErlangCFunc/Test.c` (SGX), and their namesakes under
`App_no-sgx`.  The NIFs themselves are the same text in both.  The functions `my_*` between
them and the enclave code are not: the SGX ones go through the bridge that is generated
from `Enclave.edl`, abort when the transition fails, and hand the status on; the others
call the function directly and abort on the status.

The bridge copies the string of an `[in, string]` argument with its terminator into the
enclave, where other memory lies behind it, and gives an `[out]` argument a buffer of zeros
that is copied back on return.  Without SGX the argument is the buffer of the NIF itself,
and the output goes to memory that `malloc` has just returned.  What is in the memory that
the code did not write is part of a call.

## Main definitions

* `nif` — a call of one of the six NIFs, in either build.
-/

namespace SgxErlang.Rsa

/-- What the memory around a call holds.  `beyond` is what the enclave code reads without
having written it, behind the plaintext or in the buffer for an encoding; `fresh` is in the
output buffer that the NIF has just got from `malloc`. -/
structure Memory where
  beyond : ℕ → Byte
  fresh : ℕ → Byte

variable (o : OpenSSL) (b : Build) (mem : Memory)

/-! ## Between the NIFs and the enclave code -/

/-- The pointer the enclave code gets for the plaintext. -/
def Build.plaintext (cleartext : List Byte) : Ptr :=
  match b with
  | .sgx => ⟨cstr cleartext ++ [0], mem.beyond⟩
  | .noSgx => ⟨cleartext, mem.beyond⟩

/-- What is in the output buffer before the call. -/
def Build.outBuffer : ℕ → Byte :=
  match b with
  | .sgx => fun _ => 0
  | .noSgx => mem.fresh

/-- The output buffer of `count` bytes, after `bytes` have been written to its start. -/
def Build.contents (count : ℕ) (bytes : List Byte) : List Byte :=
  Ptr.read ⟨bytes, fun i => b.outBuffer mem (bytes.length + i)⟩ count

/-- The output buffer after a call; a write beyond its end is undefined. -/
def Build.filled (count : ℕ) (bytes : List Byte) : Exec Enclave (List Byte) :=
  if bytes.length ≤ count then pure (b.contents mem count bytes) else Exec.undefinedBehaviour

/-- What the functions `my_rsa_*` have in common: call the enclave code, and look at what
comes back.  A fault in the enclave fails the transition; elsewhere it is the host's. -/
def Build.callEnclave (count : ℕ) (ecall : Exec Enclave Written) :
    Exec Enclave (ℤ × List Byte) :=
  match b with
  | .sgx => do
      let w ← Exec.abortOnCrash ecall
      let out ← b.filled mem count w.bytes
      pure (w.status, out)
  | .noSgx => do
      let w ← ecall
      let out ← b.filled mem count w.bytes
      if w.status ≠ 0 then Exec.abort else pure (w.status, out)

/-- `my_increment`. -/
def myIncrement : Exec Enclave Unit :=
  match b with
  | .sgx => Exec.abortOnCrash ecallIncrement
  | .noSgx => ecallIncrement

/-- `my_return_a`. -/
def myReturnA : Exec Enclave (BitVec 32) :=
  match b with
  | .sgx => Exec.abortOnCrash ecallReturnA
  | .noSgx => ecallReturnA

/-- `my_rsa_sign`. -/
def myRsaSign (r : o.Rand) (cleartext : List Byte) (count : ℕ) : Exec Enclave (ℤ × List Byte) :=
  b.callEnclave mem count
    (ecallRsaSign o r (b.plaintext mem cleartext) (BitVec.ofNat 32 count))

/-- `my_rsa_encrypt`. -/
def myRsaEncrypt (r : o.Rand) (cleartext : List Byte) (count : ℕ) :
    Exec Enclave (ℤ × List Byte) :=
  b.callEnclave mem count
    (ecallRsaEncrypt o r (b.plaintext mem cleartext) (BitVec.ofNat 32 count))

/-- `my_rsa_get_pubkey`. -/
def myRsaGetPubkey (r : PubkeyResults o) (count : ℕ) : Exec Enclave (ℤ × List Byte) :=
  b.callEnclave mem count (ecallRsaGetPubkey o r mem.beyond (BitVec.ofNat 32 count))

/-- `my_rsa_key_gen`. -/
def myRsaKeyGen (r : KeyGenResults o) : Exec Enclave ℤ :=
  match b with
  | .sgx => Exec.abortOnCrash (ecallRsaKeyGen o b r)
  | .noSgx => do
      let ret ← ecallRsaKeyGen o b r
      if ret ≠ 0 then Exec.abort else pure ret

/-! ## The NIFs -/

/-- How the NIFs read an argument: into an array on the stack, with room for the bytes of a
list and a terminator as the length is counted.  Where the source says `return;`, in a
function that returns a term, the result is undefined, and so is an array of no elements.  The
stack ends at memory that is not mapped. -/
def readArgument (arg : Term) : Outcome (List Byte) :=
  match enifGetListLength arg with
  | none => .undefined
  | some n =>
      let len := (n + 1).toNat -- for null termination
      if len < 1 then .undefined
      else if o.stack.room < len then .crashed
      else
        let (ret, cleartext) := enifGetString arg len
        if ret < 1 then .undefined else .ret cleartext

/-- The argument of a NIF. -/
def getCleartext (arg : Term) : Exec Enclave (List Byte) := monadLift (readArgument o arg)

/-- `increment_nif`. -/
def incrementNif : Exec Enclave Term := do
  myIncrement b
  pure (.int 0)

/-- `rtrn_nif`. -/
def rtrnNif : Exec Enclave Term := do
  let ret ← myReturnA b
  pure (.int ret.toInt)

/-- `BUFFER_SIZE` in `rsa_sign_nif` and `rsa_encrypt_nif`. -/
def bufferSize : ℕ := 512

/-- `BUFFER_SIZE` in `rsa_get_pubkey_nif`. -/
def pubkeyBufferSize : ℕ := 526

/-- `rsa_sign_nif`: the status is not looked at. -/
def rsaSignNif (r : o.Rand) (arg : Term) : Exec Enclave Term := do
  let cleartext ← getCleartext o arg
  let (_ret, ciphertext) ← myRsaSign o b mem r cleartext bufferSize
  pure (.binary ciphertext)

/-- `rsa_encrypt_nif`: the status is not looked at. -/
def rsaEncryptNif (r : o.Rand) (arg : Term) : Exec Enclave Term := do
  let cleartext ← getCleartext o arg
  let (_ret, ciphertext) ← myRsaEncrypt o b mem r cleartext bufferSize
  pure (.binary ciphertext)

/-- `rsa_get_pubkey_nif`: the status is not looked at. -/
def rsaGetPubkeyNif (r : PubkeyResults o) : Exec Enclave Term := do
  let (_ret, pubkey) ← myRsaGetPubkey o b mem r pubkeyBufferSize
  pure (.binary pubkey)

/-- `rsa_key_gen_nif`. -/
def rsaKeyGenNif (r : KeyGenResults o) : Exec Enclave Term := do
  let ret ← myRsaKeyGen o b r
  pure (.int ret)

/-- A call from Erlang, with the results of the OpenSSL calls it makes. -/
inductive NifCall where
  | increment
  | rtrn
  | rsaKeyGen (r : KeyGenResults o)
  | rsaSign (arg : Term) (r : o.Rand)
  | rsaEncrypt (arg : Term) (r : o.Rand)
  | rsaGetPubkey (r : PubkeyResults o)

/-- The NIF that a call runs, with the memory it finds. -/
def nif (call : NifCall o × Memory) : Exec Enclave Term :=
  match call with
  | (.increment, _) => incrementNif b
  | (.rtrn, _) => rtrnNif b
  | (.rsaKeyGen r, _) => rsaKeyGenNif o b r
  | (.rsaSign arg r, mem) => rsaSignNif o b mem r arg
  | (.rsaEncrypt arg r, mem) => rsaEncryptNif o b mem r arg
  | (.rsaGetPubkey r, mem) => rsaGetPubkeyNif o b mem r

/-! ## Run lemmas -/

/-- The loop of `enif_get_string` fills an array that fits the stack. -/
theorem readArgument_of_fits {arg : Term} {n : BitVec 32} (hlen : enifGetListLength arg = some n)
    (hpos : 1 ≤ (n + 1).toNat) (hroom : (n + 1).toNat ≤ o.stack.room) :
    readArgument o arg = if (enifGetStringLoop (n + 1).toNat arg []).1 < 1 then .undefined
      else .ret (enifGetStringLoop (n + 1).toNat arg []).2 := by
  have hint : (n + 1).toNat < 2 ^ 31 := hroom.trans_lt o.stack.upper
  simp only [readArgument, hlen, if_neg (Nat.not_lt.mpr hpos), if_neg (Nat.not_lt.mpr hroom),
    enifGetString_of_lt arg hpos hint]

theorem enifGetListLength_ofBytes (payload : List Byte) :
    enifGetListLength (.ofBytes payload) = some (BitVec.ofNat 32 payload.length) := by
  rw [enifGetListLength, properLength?_ofBytes, Option.map_some]

/-- The length with the terminator, as the NIFs count it. -/
theorem toNat_length_succ (payload : List Byte) :
    (BitVec.ofNat 32 payload.length + 1).toNat = (payload.length + 1) % 2 ^ 32 := by
  simp

/-- A list of bytes that fits the stack is read completely. -/
theorem readArgument_of_le {payload : List Byte} (hfits : payload.length + 1 ≤ o.stack.room) :
    readArgument o (.ofBytes payload) = .ret (payload ++ [0]) := by
  have hupper := o.stack.upper
  have hmod : (BitVec.ofNat 32 payload.length + 1).toNat = payload.length + 1 := by
    rw [toNat_length_succ]
    exact Nat.mod_eq_of_lt (by omega)
  have hloop : enifGetStringLoop (payload.length + 1) (.ofBytes payload) [] = _ :=
    enifGetStringLoop_ofBytes payload [] (by simp)
  have hret : ¬ (((([] : List Byte).length + payload.length + 1 : ℕ) : ℤ) < 1) := by omega
  rw [readArgument_of_fits o (enifGetListLength_ofBytes payload) (by omega) (by omega), hmod,
    hloop, if_neg hret, List.nil_append]

/-- One that does not fit overflows it, as long as its length can be counted. -/
theorem readArgument_of_lt {payload : List Byte} (hroom : o.stack.room < payload.length + 1)
    (hcount : payload.length + 1 < 2 ^ 32) : readArgument o (.ofBytes payload) = .crashed := by
  have hmod : (BitVec.ofNat 32 payload.length + 1).toNat = payload.length + 1 := by
    rw [toNat_length_succ]
    exact Nat.mod_eq_of_lt hcount
  have hpos : ¬ payload.length + 1 < 1 := by omega
  simp only [readArgument, enifGetListLength_ofBytes, hmod, if_neg hpos, if_pos hroom]

/-- Nothing but a list of bytes that fits the stack is read: if the length has wrapped around,
the array is too short. -/
theorem readArgument_eq_ret_iff {arg : Term} {cleartext : List Byte} :
    readArgument o arg = .ret cleartext ↔
      ∃ payload, arg = .ofBytes payload ∧ payload.length + 1 ≤ o.stack.room ∧
        cleartext = payload ++ [0] := by
  constructor
  · intro h
    cases hlen : enifGetListLength arg with
    | none => simp [readArgument, hlen] at h
    | some n =>
        have h₀ := h
        simp only [readArgument, hlen] at h
        split_ifs at h with hpos hroom hret
        have hint : (n + 1).toNat < 2 ^ 31 := (Nat.le_of_not_lt hroom).trans_lt o.stack.upper
        rw [enifGetString_of_lt arg (Nat.le_of_not_lt hpos) hint] at hret
        obtain ⟨payload, rfl⟩ := ofBytes_of_enifGetStringLoop (Int.not_lt.mp hret)
        have hn : n = BitVec.ofNat 32 payload.length :=
          Option.some.inj (hlen.symm.trans (enifGetListLength_ofBytes payload))
        rw [hn, toNat_length_succ] at hpos hroom hret hint
        have hfits : payload.length + 1 ≤ o.stack.room := by
          by_contra hlong
          have hempty : ([] : List Byte).length < (payload.length + 1) % 2 ^ 32 := by
            rw [List.length_nil]
            omega
          have hcut : (payload.length + 1) % 2 ^ 32 ≤ ([] : List Byte).length + payload.length := by
            rw [List.length_nil]
            omega
          have hneg := enifGetStringLoop_truncates payload [] hempty hcut
          omega
        exact ⟨payload, rfl, hfits, Outcome.ret.inj (h₀.symm.trans (readArgument_of_le o hfits))⟩
  · rintro ⟨payload, rfl, hfits, rfl⟩
    exact readArgument_of_le o hfits

theorem readArgument_ofBytes_eq_ret_iff {payload cleartext : List Byte} :
    readArgument o (.ofBytes payload) = .ret cleartext ↔
      payload.length + 1 ≤ o.stack.room ∧ cleartext = payload ++ [0] := by
  rw [readArgument_eq_ret_iff]
  constructor
  · rintro ⟨payload', hbytes, hread⟩
    rwa [ofBytes_injective hbytes]
  · exact fun hread => ⟨payload, rfl, hread⟩

variable {o b mem}

/-- A buffer that has been written completely. -/
theorem Build.contents_of_length {count : ℕ} {bytes : List Byte} (h : bytes.length = count) :
    b.contents mem count bytes = bytes := by
  rw [Build.contents, ← h, Ptr.read_length]

/-- The output buffer of a call that wrote nothing. -/
theorem Build.contents_sgx_nil (count : ℕ) :
    Build.sgx.contents mem count [] = List.replicate count 0 := by
  simp [Build.contents, Ptr.read, Build.outBuffer, List.map_const']

/-- A fault in the enclave code: behind the bridge it becomes an `abort()`. -/
def Build.fault : Build → Outcome (Term × Enclave)
  | .sgx => .aborted
  | .noSgx => .crashed

/-- A status other than 0 from the enclave code: the NIF of the SGX build returns the buffer
all the same, the other build aborts. -/
def Build.refusal (b : Build) (count : ℕ) (s : Enclave) : Outcome (Term × Enclave) :=
  match b with
  | .sgx => .ret (.binary (List.replicate count 0), s)
  | .noSgx => .aborted

/-- What a NIF that returns its output buffer makes of the enclave function's outcome. -/
def Build.returned (b : Build) (mem : Memory) (count : ℕ) (x : Outcome (Written × Enclave)) :
    Outcome (Term × Enclave) :=
  match x with
  | .ret (w, s) =>
      if w.bytes.length ≤ count then
        match b with
        | .sgx => .ret (.binary (b.contents mem count w.bytes), s)
        | .noSgx =>
            if w.status ≠ 0 then .aborted else .ret (.binary (b.contents mem count w.bytes), s)
      else .undefined
  | .aborted => .aborted
  | .crashed => b.fault
  | .undefined => .undefined

theorem run_callEnclave (count : ℕ) (ecall : Exec Enclave Written) (s : Enclave) :
    (do let (_ret, out) ← b.callEnclave mem count ecall; pure (Term.binary out)).run s =
      b.returned mem count (ecall.run s) := by
  cases b with
  | sgx =>
      simp only [Build.callEnclave, Build.filled, StateT.run_bind, Exec.run_abortOnCrash]
      cases ecall.run s with
      | ret p => by_cases hle : p.1.bytes.length ≤ count <;> simp [Build.returned, hle]
      | aborted => rfl
      | crashed => rfl
      | undefined => rfl
  | noSgx =>
      simp only [Build.callEnclave, Build.filled, StateT.run_bind]
      cases ecall.run s with
      | ret p =>
          by_cases hle : p.1.bytes.length ≤ count <;> by_cases hst : p.1.status = 0 <;>
            simp [Build.returned, hle, hst]
      | aborted => rfl
      | crashed => rfl
      | undefined => rfl

/-- The message that a call hands to the OpenSSL operation. -/
def Build.message (b : Build) (mem : Memory) (cleartext : List Byte) : List Byte :=
  (b.plaintext mem cleartext).read sizeofPtr

/-- What a NIF makes of an operation that writes its output. -/
def OpResult.returned (b : Build) (s : Enclave) : OpResult → Outcome (Term × Enclave)
  | .done out => .ret (.binary out, s)
  | .failed => b.refusal bufferSize s
  | .fault => b.fault

theorem returned_outcome {res : OpResult} (hlen : ∀ out, res = .done out → out.length = rsaSize)
    (s : Enclave) : b.returned mem bufferSize (res.outcome s) = res.returned b s := by
  cases res with
  | done out =>
      have hout : out.length = bufferSize := hlen out rfl
      cases b <;> simp [OpResult.outcome, OpResult.returned, Build.returned, hout,
        Build.contents_of_length]
  | failed =>
      cases b <;> simp [OpResult.outcome, OpResult.returned, Build.returned, Build.refusal,
        Build.contents_sgx_nil]
  | fault => rfl

/-- What a call of `rsa_sign` or `rsa_encrypt` comes to, by the operation it applies to the
key. -/
def Build.operation (b : Build) (s : Enclave) (r : o.Rand) (op : Option Key → OpResult) :
    Outcome (Term × Enclave) :=
  match s.keypairView with
  | .unset => b.fault
  | .dangling => .undefined
  | .live key => (op key).returned b (s.afterPrints r)

/-- What a NIF makes of an ecall that applies an operation to the key. -/
theorem returned_of_appliesTo {e : Exec Enclave Written} {r : o.Rand} {op : Option Key → OpResult}
    (he : AppliesTo e r op) (hlen : ∀ key out, op key = .done out → out.length = rsaSize)
    (s : Enclave) : b.returned mem bufferSize (e.run s) = b.operation s r op := by
  rw [he s]
  simp only [Build.operation]
  cases s.keypairView with
  | unset => rfl
  | dangling => rfl
  | live key => exact returned_outcome (hlen key) _

/-- A NIF goes on with the argument as it was read. -/
theorem run_getCleartext_bind {α : Type} (arg : Term) (f : List Byte → Exec Enclave α)
    (s : Enclave) : (getCleartext o arg >>= f).run s =
      readArgument o arg >>= fun cleartext => (f cleartext).run s := by
  rw [getCleartext, StateT.run_bind, StateT.run_monadLift]
  cases readArgument o arg <;> rfl

/-- What `rsa_sign_nif` does with the argument. -/
theorem run_myRsaSign (r : o.Rand) (cleartext : List Byte) (s : Enclave) :
    (do let (_ret, ciphertext) ← myRsaSign o b mem r cleartext bufferSize
        pure (Term.binary ciphertext)).run s =
      b.operation s r fun key => o.rsaSign r key (b.message mem cleartext) := by
  refine (run_callEnclave _ _ s).trans ?_
  apply returned_of_appliesTo (run_ecallRsaSign r _ _)
  exact fun _ _ hout => o.rsaSign_length hout

/-- What `rsa_encrypt_nif` does with the argument. -/
theorem run_myRsaEncrypt (r : o.Rand) (cleartext : List Byte) (s : Enclave) :
    (do let (_ret, ciphertext) ← myRsaEncrypt o b mem r cleartext bufferSize
        pure (Term.binary ciphertext)).run s =
      b.operation s r fun key =>
        o.rsaPublicEncrypt r (key.map Key.pub) (b.message mem cleartext) := by
  refine (run_callEnclave _ _ s).trans ?_
  apply returned_of_appliesTo (run_ecallRsaEncrypt r _ _)
  exact fun _ _ hout => o.rsaPublicEncrypt_length hout

theorem run_rsaSignNif (r : o.Rand) (arg : Term) (s : Enclave) :
    (rsaSignNif o b mem r arg).run s = readArgument o arg >>= fun cleartext =>
      b.operation s r fun key => o.rsaSign r key (b.message mem cleartext) := by
  rw [rsaSignNif, run_getCleartext_bind]
  simp only [run_myRsaSign]

theorem run_rsaEncryptNif (r : o.Rand) (arg : Term) (s : Enclave) :
    (rsaEncryptNif o b mem r arg).run s = readArgument o arg >>= fun cleartext =>
      b.operation s r fun key =>
        o.rsaPublicEncrypt r (key.map Key.pub) (b.message mem cleartext) := by
  rw [rsaEncryptNif, run_getCleartext_bind]
  simp only [run_myRsaEncrypt]

/-- What `rsa_get_pubkey_nif` comes to, by what the two calls of `i2d_PublicKey` yield. -/
def PubkeyResults.returned (r : PubkeyResults o) (b : Build) (mem : Memory)
    (der written : Option (List Byte)) (s : Enclave) : Outcome (Term × Enclave) :=
  if derLen der ≠ pubkeyBufferSize then
    b.refusal pubkeyBufferSize { s with
      bufs := s.bufs + if der.isSome && r.malloc || !(written.getD []).isEmpty then 1 else 0 }
  else if r.malloc then
    .ret (.binary (Ptr.read ⟨written.getD [], mem.beyond⟩ pubkeyBufferSize), s)
  else b.fault

/-- What a NIF makes of a status other than 0. -/
theorem returned_refusal {count : ℕ} {n : ℤ} (hn : n ≠ 0) (s : Enclave) :
    b.returned mem count (.ret (⟨n, []⟩, s)) = b.refusal count s := by
  cases b <;> simp [Build.returned, Build.refusal, Build.contents_sgx_nil, hn]

theorem returned_copied (r : PubkeyResults o) (der written : Option (List Byte)) (s : Enclave) :
    b.returned mem pubkeyBufferSize (r.copied mem.beyond pubkeyBufferSize der written s) =
      r.returned b mem der written s := by
  unfold PubkeyResults.copied PubkeyResults.returned
  by_cases hlen : derLen der = pubkeyBufferSize
  · have hsome : der.isSome = true := by
      cases der with
      | none => exact absurd hlen (by decide)
      | some der => rfl
    have hpos : ¬ pubkeyBufferSize = 0 := by decide
    cases r.malloc with
    | false => simp [hlen, hsome, hpos, Build.returned]
    | true => cases b <;> simp [hlen, hsome, Build.returned, Build.contents_of_length]
  · simp only [ne_eq, hlen, not_false_eq_true, if_true]
    exact returned_refusal (by decide) _

theorem run_rsaGetPubkeyNif (r : PubkeyResults o) (s : Enclave) :
    (rsaGetPubkeyNif o b mem r).run s =
      if s.pkeyView = .unset then b.refusal pubkeyBufferSize s
      else s.pkeyView.encoding r.lenRand >>= fun der =>
        s.pkeyView.encoding r.derRand >>= fun written => r.returned b mem der written s := by
  have hlen : (BitVec.ofNat 32 pubkeyBufferSize).toInt = pubkeyBufferSize := by decide
  refine (run_callEnclave _ _ s).trans ?_
  rw [run_ecallRsaGetPubkey, hlen]
  by_cases hunset : s.pkeyView = .unset
  · rw [if_pos hunset, if_pos hunset]
    exact returned_refusal (by decide) s
  · rw [if_neg hunset, if_neg hunset]
    rcases s.pkeyView.encoding_cases hunset with hundef | ⟨f, hret, -⟩
    · rw [hundef]
      rfl
    · rw [hret, hret]
      exact returned_copied r _ _ s

theorem run_rsaKeyGenNif (r : KeyGenResults o) (s : Enclave) :
    (rsaKeyGenNif o b r).run s = match b with
      | .sgx => .ret (.int (if r.initCrypto = 1 then 0 else 1), r.after { s with printCB := true })
      | .noSgx => if r.initCrypto = 1 then .ret (.int 0, r.after s) else .aborted := by
  cases b with
  | sgx =>
      simp [rsaKeyGenNif, myRsaKeyGen, Exec.run_abortOnCrash, run_ecallRsaKeyGen]
  | noSgx =>
      by_cases hinit : r.initCrypto = 1 <;>
        simp [rsaKeyGenNif, myRsaKeyGen, run_ecallRsaKeyGen, hinit]

@[simp] theorem run_incrementNif (s : Enclave) :
    (incrementNif b).run s = .ret (.int 0, { s with a := s.a + 1 }) := by
  cases b <;> rfl

@[simp] theorem run_rtrnNif (s : Enclave) :
    (rtrnNif b).run s = .ret (.int s.a.toInt, s) := by
  cases b <;> rfl

/-! ## What the calls leave behind -/

/-- The key globals and the objects they refer to are the same. -/
structure Enclave.SameKeys (s s' : Enclave) : Prop where
  keypair : s'.keypair = s.keypair
  evpPkey : s'.evpPkey = s.evpPkey
  rsas : s'.rsas = s.rsas
  pkeys : s'.pkeys = s.pkeys

namespace Enclave.SameKeys

variable {s s' : Enclave}

theorem keypairView (h : s.SameKeys s') : s'.keypairView = s.keypairView := by
  simp only [Enclave.keypairView, Enclave.viewRsa, h.keypair, h.rsas]

theorem pkeyView (h : s.SameKeys s') : s'.pkeyView = s.pkeyView := by
  simp only [Enclave.pkeyView, Enclave.viewRsa, h.evpPkey, h.pkeys, h.rsas]

theorem installed_iff (h : s.SameKeys s') (k : Key) : s'.Installed k ↔ s.Installed k := by
  rw [Enclave.Installed, Enclave.Installed, h.keypairView, h.pkeyView]

theorem trans {s'' : Enclave} (h : s.SameKeys s') (h' : s'.SameKeys s'') : s.SameKeys s'' where
  keypair := h'.keypair.trans h.keypair
  evpPkey := h'.evpPkey.trans h.evpPkey
  rsas := h'.rsas.trans h.rsas
  pkeys := h'.pkeys.trans h.pkeys

theorem wellFormed (h : s.SameKeys s') (hs : s.WellFormed) : s'.WellFormed where
  keypair_lt := by
    rw [h.keypair, h.rsas]
    exact hs.keypair_lt
  evpPkey_lt := by
    rw [h.evpPkey, h.pkeys]
    exact hs.evpPkey_lt
  pkeys_lt := by
    rw [h.pkeys, h.rsas]
    exact hs.pkeys_lt

end Enclave.SameKeys

/-- The state in which `rsa_key_gen` is entered: the SGX build has installed the callback. -/
def Build.keyGenStart (b : Build) (s : Enclave) : Enclave :=
  match b with
  | .sgx => { s with printCB := true }
  | .noSgx => s

theorem sameKeys_keyGenStart (b : Build) (s : Enclave) : s.SameKeys (b.keyGenStart s) := by
  cases b <;> exact ⟨rfl, rfl, rfl, rfl⟩

/-- A key generation that returns, in either build. -/
theorem run_rsaKeyGenNif_of_init {r : KeyGenResults o} (hinit : b = .noSgx → r.initCrypto = 1)
    (s : Enclave) : (rsaKeyGenNif o b r).run s =
      .ret (.int (if r.initCrypto = 1 then 0 else 1), r.after (b.keyGenStart s)) := by
  rw [run_rsaKeyGenNif]
  cases b with
  | sgx => rfl
  | noSgx => simp [Build.keyGenStart, hinit rfl]

/-- Without SGX the others abort. -/
theorem run_rsaKeyGenNif_noSgx {r : KeyGenResults o} (hinit : r.initCrypto ≠ 1) (s : Enclave) :
    (rsaKeyGenNif o .noSgx r).run s = .aborted := by
  simp [run_rsaKeyGenNif, hinit]

/-- The states that a call may leave when it returns. -/
def NifCall.Leaves (b : Build) (s s' : Enclave) : NifCall o → Prop
  | .increment => s' = { s with a := s.a + 1 }
  | .rtrn => s' = s
  | .rsaKeyGen r => (b = .noSgx → r.initCrypto = 1) ∧ s' = r.after (b.keyGenStart s)
  | .rsaSign _ r => s' = s.afterPrints r
  | .rsaEncrypt _ r => s' = s.afterPrints r
  | .rsaGetPubkey _ => s' = s ∨ s' = { s with bufs := s.bufs + 1 }

theorem state_of_refusal {count : ℕ} {s s' : Enclave} {t : Term}
    (hrun : b.refusal count s = .ret (t, s')) : s' = s := by
  cases b with
  | sgx => exact (Outcome.pair_inj hrun).2.symm
  | noSgx => cases hrun

theorem state_of_operation {s s' : Enclave} {r : o.Rand} {op : Option Key → OpResult} {t : Term}
    (hrun : b.operation s r op = .ret (t, s')) : s' = s.afterPrints r := by
  unfold Build.operation at hrun
  cases hview : s.keypairView with
  | unset => cases b <;> simp [hview, Build.fault] at hrun
  | dangling => simp [hview] at hrun
  | live key =>
      simp only [hview] at hrun
      cases hop : op key with
      | done out =>
          rw [hop] at hrun
          exact (Outcome.pair_inj hrun).2.symm
      | failed =>
          rw [hop] at hrun
          exact state_of_refusal hrun
      | fault => cases b <;> simp [hop, OpResult.returned, Build.fault] at hrun

/-- Reading the public key may leave a buffer behind, and nothing else. -/
theorem state_of_getPubkeyNif {r : PubkeyResults o} {s s' : Enclave} {t : Term}
    (hrun : (rsaGetPubkeyNif o b mem r).run s = .ret (t, s')) :
    s' = s ∨ s' = { s with bufs := s.bufs + 1 } := by
  rw [run_rsaGetPubkeyNif] at hrun
  by_cases hunset : s.pkeyView = .unset
  · rw [if_pos hunset] at hrun
    exact .inl (state_of_refusal hrun)
  rw [if_neg hunset] at hrun
  obtain ⟨der, -, hrun⟩ := Outcome.bind_eq_ret_iff.mp hrun
  obtain ⟨written, -, hrun⟩ := Outcome.bind_eq_ret_iff.mp hrun
  unfold PubkeyResults.returned at hrun
  by_cases hlen : derLen der = pubkeyBufferSize
  · rw [if_neg (not_not.mpr hlen)] at hrun
    cases hmalloc : r.malloc with
    | true =>
        rw [hmalloc] at hrun
        exact .inl (Outcome.pair_inj hrun).2.symm
    | false => cases b <;> simp [hmalloc, Build.fault] at hrun
  · rw [if_pos hlen] at hrun
    have hstate := state_of_refusal hrun
    split_ifs at hstate
    · exact .inr hstate
    · exact .inl hstate

/-- What a call that returns has done to the state. -/
theorem leaves_of_nif {call : NifCall o} {s s' : Enclave} {t : Term}
    (hrun : (nif o b (call, mem)).run s = .ret (t, s')) : call.Leaves b s s' := by
  cases call with
  | increment => exact (Outcome.pair_inj ((run_incrementNif s).symm.trans hrun)).2.symm
  | rtrn => exact (Outcome.pair_inj ((run_rtrnNif s).symm.trans hrun)).2.symm
  | rsaKeyGen r =>
      by_cases hinit : b = .noSgx → r.initCrypto = 1
      · have hgen := (run_rsaKeyGenNif_of_init hinit s).symm.trans hrun
        exact ⟨hinit, (Outcome.pair_inj hgen).2.symm⟩
      · obtain ⟨rfl, hne⟩ := Classical.not_imp.mp hinit
        cases (run_rsaKeyGenNif_noSgx hne s).symm.trans hrun
  | rsaSign arg r =>
      rw [nif, run_rsaSignNif] at hrun
      obtain ⟨cleartext, -, hop⟩ := Outcome.bind_eq_ret_iff.mp hrun
      exact state_of_operation hop
  | rsaEncrypt arg r =>
      rw [nif, run_rsaEncryptNif] at hrun
      obtain ⟨cleartext, -, hop⟩ := Outcome.bind_eq_ret_iff.mp hrun
      exact state_of_operation hop
  | rsaGetPubkey r => exact state_of_getPubkeyNif hrun

/-- No call but `rsa_key_gen` changes the keys. -/
theorem nif_sameKeys {call : NifCall o} (hcall : ∀ r, call ≠ .rsaKeyGen r) {s s' : Enclave}
    {t : Term} (hrun : (nif o b (call, mem)).run s = .ret (t, s')) : s.SameKeys s' := by
  have hleaves := leaves_of_nif hrun
  cases call with
  | rsaKeyGen r => exact absurd rfl (hcall r)
  | rsaGetPubkey r =>
      rcases hleaves with rfl | rfl
      · exact ⟨rfl, rfl, rfl, rfl⟩
      · exact ⟨rfl, rfl, rfl, rfl⟩
  | _ =>
      rw [show s' = _ from hleaves]
      exact ⟨rfl, rfl, rfl, rfl⟩

end SgxErlang.Rsa
