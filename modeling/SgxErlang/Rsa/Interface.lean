import SgxErlang.Lib.Run
import SgxErlang.Rsa.Bounds

/-!
# The enclave behind its bridge

The ecalls as a machine of its own: the untrusted host chooses the calls and their
arguments, and sees what comes back.  That is the return value, the `[out]` buffer and the
strings that are passed to `uprint`.

The host is assumed not to call `new_thread_func`, the ecall of the thread test.  It calls
through a pointer that nothing but that test sets, which no other ecall runs.

## Main definitions

* `Ecall`, `Output` — what goes in and what comes out.
* `enclave` — one call.

## Main results

* `valid_of_run` — what holds of every state an enclave can be in.
-/

namespace SgxErlang.Rsa

variable (o : OpenSSL)

/-! ## The interface -/

/-- A call from the host.  A string is given by the bytes before its terminator. -/
inductive Ecall where
  | tSgxsslCallApis (r : KeyGenResults o)
  | increment
  | returnA
  | rsaSign (cleartext : List Byte) (ciphertextLen : BitVec 32) (r : o.Rand)
  | rsaEncrypt (cleartext : List Byte) (ciphertextLen : BitVec 32) (r : o.Rand)
  | rsaGetPubkey (requestedLen : BitVec 32) (r : PubkeyResults o)
  | rsaKeyGen (r : KeyGenResults o)

/-- What the host sees of a call. -/
@[ext]
structure Output where
  /-- The return value; 0 if there is none. -/
  ret : ℤ
  /-- The `[out]` buffer of `ecall_rsa_sign`. -/
  signature : List Byte
  /-- The `[out]` buffer of the other ecalls. -/
  out : List Byte
  /-- What has been passed to `uprint`. -/
  uprints : List (List Byte)

/-- An ecall with its output buffer, which the bridge copies back. -/
def withBuffer (mem : Memory) (count : ℕ) (ecall : Exec Enclave Written) :
    Exec Enclave (ℤ × List Byte) := do
  let w ← ecall
  let out ← Build.sgx.filled mem count w.bytes
  pure (w.status, out)

variable {o}

/-- The ecall behind the bridge: its return value, the signature, and the other output. -/
def Ecall.body (mem : Memory) : Ecall o → Exec Enclave (ℤ × List Byte × List Byte)
  | .tSgxsslCallApis r => do
      Rsa.tSgxsslCallApis o r
      pure (0, [], [])
  | .increment => do
      ecallIncrement
      pure (0, [], [])
  | .returnA => do
      let ret ← ecallReturnA
      pure (ret.toInt, [], [])
  | .rsaSign cleartext len r => do
      let (ret, out) ← withBuffer mem len.toNat
        (ecallRsaSign o r (Build.sgx.plaintext mem (cleartext ++ [0])) len)
      pure (ret, out, [])
  | .rsaEncrypt cleartext len r => do
      let (ret, out) ← withBuffer mem (sizeT len)
        (ecallRsaEncrypt o r (Build.sgx.plaintext mem (cleartext ++ [0])) len)
      pure (ret, [], out)
  | .rsaGetPubkey len r => do
      let (ret, out) ← withBuffer mem (sizeT len) (ecallRsaGetPubkey o r mem.beyond len)
      pure (ret, [], out)
  | .rsaKeyGen r => do
      let ret ← ecallRsaKeyGen o .sgx r
      pure (ret, [], [])

/-- One call, as the host sees it. -/
def enclave (x : Ecall o × Memory) : Exec Enclave Output := do
  modify fun s => { s with uprints := [] }
  let (ret, signature, out) ← x.1.body x.2
  let s ← get
  pure ⟨ret, signature, out, s.uprints⟩

theorem run_enclave {c : Ecall o} {mem : Memory} {s s' : Enclave} {ret : ℤ}
    {signature out : List Byte}
    (h : (c.body mem).run { s with uprints := [] } = .ret ((ret, signature, out), s')) :
    (enclave (c, mem)).run s = .ret (⟨ret, signature, out, s'.uprints⟩, s') := by
  simp [enclave, h]

/-! ## Valid states -/

/-- What holds of the state of every enclave: the pointers are in range, and there is a key
only if the print callback has been installed before. -/
structure Enclave.Valid (s : Enclave) : Prop extends s.WellFormed where
  callback : s.keypair ≠ none → s.printCB = true

namespace Enclave.Valid

variable {s s' : Enclave}

theorem init : Enclave.init.Valid := ⟨wellFormed_init, fun h => absurd rfl h⟩

theorem of_sameKeys (hs : s.Valid) (h : s.SameKeys s') (hcb : s'.printCB = s.printCB) :
    s'.Valid where
  toWellFormed := h.wellFormed hs.toWellFormed
  callback := by
    rw [h.keypair, hcb]
    exact hs.callback

/-- Behind a live key, the callback is there. -/
theorem printCB_of_live (hs : s.Valid) {key : Option Key} (h : s.keypairView = .live key) :
    s.printCB = true := by
  apply hs.callback
  intro hnone
  rw [Enclave.keypairView, hnone] at h
  cases h

/-- Key generation starts with the callback. -/
theorem after (hs : s.Valid) (r : KeyGenResults o) :
    (r.after { s with printCB := true }).Valid where
  toWellFormed := by
    apply WellFormed.after
    exact ⟨hs.keypair_lt, hs.evpPkey_lt, hs.pkeys_lt⟩
  callback := by
    intro _
    unfold KeyGenResults.after
    split_ifs <;> rfl

end Enclave.Valid

/-- The bridge does not touch the enclave. -/
theorem exists_run_of_withBuffer {mem : Memory} {count : ℕ} {e : Exec Enclave Written}
    {s s' : Enclave} {p : ℤ × List Byte} (h : (withBuffer mem count e).run s = .ret (p, s')) :
    ∃ w, e.run s = .ret (w, s') := by
  rw [withBuffer, StateT.run_bind] at h
  obtain ⟨⟨w, s₁⟩, he, hrest⟩ := Outcome.bind_eq_ret_iff.mp h
  have hs : s₁ = s' := by
    by_cases hle : w.bytes.length ≤ count
    · simp only [Build.filled, if_pos hle] at hrest
      exact (Outcome.pair_inj hrest).2
    · simp [Build.filled, hle] at hrest
  exact ⟨w, hs ▸ he⟩

/-- Nor does what is made of the buffer. -/
theorem exists_run_of_buffered {mem : Memory} {count : ℕ} {e : Exec Enclave Written}
    {f : ℤ × List Byte → ℤ × List Byte × List Byte} {s s' : Enclave}
    {p : ℤ × List Byte × List Byte}
    (h : (withBuffer mem count e >>= fun q => pure (f q)).run s = .ret (p, s')) :
    ∃ w, e.run s = .ret (w, s') := by
  rw [StateT.run_bind] at h
  obtain ⟨⟨q, s₁⟩, hbuf, hrest⟩ := Outcome.bind_eq_ret_iff.mp h
  obtain ⟨-, rfl⟩ := Outcome.pair_inj hrest
  exact exists_run_of_withBuffer hbuf

theorem run_tSgxsslCallApis (r : KeyGenResults o) (s : Enclave) :
    (tSgxsslCallApis o r).run s = .ret ((), r.after { s with printCB := true }) := by
  simp [tSgxsslCallApis, run_rsaKeyGen]

/-- Reading the public key may leave a buffer behind, and nothing else. -/
theorem state_of_getPubkey {r : PubkeyResults o} {heap : ℕ → Byte} {len : BitVec 32}
    {s s' : Enclave} {w : Written} (h : (ecallRsaGetPubkey o r heap len).run s = .ret (w, s')) :
    s' = s ∨ s' = { s with bufs := s.bufs + 1 } := by
  rw [run_ecallRsaGetPubkey] at h
  by_cases hunset : s.pkeyView = .unset
  · rw [if_pos hunset] at h
    exact .inl (Outcome.pair_inj h).2.symm
  · rw [if_neg hunset] at h
    obtain ⟨der, -, h⟩ := Outcome.bind_eq_ret_iff.mp h
    obtain ⟨written, -, h⟩ := Outcome.bind_eq_ret_iff.mp h
    unfold PubkeyResults.copied at h
    split_ifs at h
    all_goals
      obtain ⟨-, rfl⟩ := Outcome.pair_inj h
      simp

/-- Every ecall keeps the state valid. -/
theorem valid_body {c : Ecall o} {mem : Memory} {s s' : Enclave} {p : ℤ × List Byte × List Byte}
    (hs : s.Valid) (hrun : (c.body mem).run s = .ret (p, s')) : s'.Valid := by
  cases c with
  | tSgxsslCallApis r =>
      rw [Ecall.body, StateT.run_bind, run_tSgxsslCallApis] at hrun
      obtain ⟨-, rfl⟩ := Outcome.pair_inj hrun
      exact hs.after r
  | rsaKeyGen r =>
      rw [Ecall.body, StateT.run_bind, run_ecallRsaKeyGen] at hrun
      obtain ⟨-, rfl⟩ := Outcome.pair_inj hrun
      exact hs.after r
  | increment =>
      obtain ⟨-, rfl⟩ := Outcome.pair_inj hrun
      exact hs.of_sameKeys ⟨rfl, rfl, rfl, rfl⟩ rfl
  | returnA =>
      obtain ⟨-, rfl⟩ := Outcome.pair_inj hrun
      exact hs
  | rsaSign cleartext len r =>
      obtain ⟨w, he⟩ := exists_run_of_buffered (f := fun q => (q.1, q.2, [])) hrun
      rw [AppliesTo.state_eq (run_ecallRsaSign r _ len) he]
      exact hs.of_sameKeys ⟨rfl, rfl, rfl, rfl⟩ rfl
  | rsaEncrypt cleartext len r =>
      obtain ⟨w, he⟩ := exists_run_of_buffered (f := fun q => (q.1, [], q.2)) hrun
      rw [AppliesTo.state_eq (run_ecallRsaEncrypt r _ len) he]
      exact hs.of_sameKeys ⟨rfl, rfl, rfl, rfl⟩ rfl
  | rsaGetPubkey len r =>
      obtain ⟨w, he⟩ := exists_run_of_buffered (f := fun q => (q.1, [], q.2)) hrun
      obtain rfl | rfl := state_of_getPubkey he
      · exact hs
      · exact hs.of_sameKeys ⟨rfl, rfl, rfl, rfl⟩ rfl

/-- The states an enclave can be in are valid. -/
theorem valid_of_run {calls : List (Ecall o × Memory)} {outs : List Output} {s : Enclave}
    (hrun : (runAll enclave calls).run .init = .ret (outs, s)) : s.Valid := by
  have hstep : ∀ (s : Enclave) (x : Ecall o × Memory) (out : Output) (s' : Enclave),
      s.Valid → True → (enclave x).run s = .ret (out, s') → s'.Valid := by
    intro s x out s' hs _ hx
    have hstart : Enclave.Valid { s with uprints := [] } :=
      hs.of_sameKeys ⟨rfl, rfl, rfl, rfl⟩ rfl
    obtain ⟨⟨q, s₁⟩, hbody, hrest⟩ := Outcome.bind_eq_ret_iff.mp hx
    obtain ⟨-, rfl⟩ := Outcome.pair_inj hrest
    exact valid_body hstart hbody
  exact Along.inv_of_run hstep Enclave.Valid.init (Along.of_forall (fun _ _ => trivial) _ _) hrun

end SgxErlang.Rsa
