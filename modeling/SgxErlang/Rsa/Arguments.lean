import SgxErlang.Rsa.Fidelity

/-!
# The arguments of the RSA NIFs

`rsa_sign` and `rsa_encrypt` take a list of bytes.  The NIFs ask for the length of the list,
add one for the terminator, and let `enif_get_string` fill an array of that size on the stack;
this gets every list of bytes across that the stack has room for.  A longer one ends the VM,
or is not read because its length has wrapped around.  Where one of the two calls fails the
NIFs say `return;`, although they are to return a term.

## Main definitions

* `DecodesArgument` — what the NIFs should do with an argument.

## Main results

* `decodesArgument_iff` — the arguments with which they do.
-/

namespace SgxErlang.Rsa

variable (stack : Stack) (b : Build) (arg : Term)

/-- `rsa_sign_nif` and `rsa_encrypt_nif`, from the point where the argument has been read. -/
structure HandsOn (cleartext : List Byte) : Prop where
  sign : ∀ (o : OpenSSL), o.stack = stack → ∀ (mem : Memory) (r : o.Rand) (s : Enclave),
    (rsaSignNif o b mem r arg).run s =
      (do let (_ret, ciphertext) ← myRsaSign o b mem r cleartext bufferSize
          pure (Term.binary ciphertext)).run s
  encrypt : ∀ (o : OpenSSL), o.stack = stack → ∀ (mem : Memory) (r : o.Rand) (s : Enclave),
    (rsaEncryptNif o b mem r arg).run s =
      (do let (_ret, ciphertext) ← myRsaEncrypt o b mem r cleartext bufferSize
          pure (Term.binary ciphertext)).run s

/-- The NIFs return a term, the same whatever there is in the enclave, and do not touch it. -/
structure Refuses : Prop where
  sign : ∃ err, ∀ (o : OpenSSL), o.stack = stack → ∀ (mem : Memory) (r : o.Rand) (s : Enclave),
    (rsaSignNif o b mem r arg).run s = .ret (err, s)
  encrypt : ∃ err, ∀ (o : OpenSSL), o.stack = stack → ∀ (mem : Memory) (r : o.Rand)
    (s : Enclave), (rsaEncryptNif o b mem r arg).run s = .ret (err, s)

/-- The argument is a list of bytes whose length and terminator can be counted. -/
def IsByteList : Prop :=
  ∃ payload, arg = .ofBytes payload ∧ payload.length + 1 < 2 ^ 32

/-- The argument is a list of bytes that the stack has room for, with its terminator. -/
def FitsStack : Prop :=
  ∃ payload, arg = .ofBytes payload ∧ payload.length + 1 ≤ stack.room

/-- What the NIFs should do with an argument: hand a list of bytes on, in order and with one
zero behind it, and refuse everything else. -/
structure DecodesArgument : Prop where
  accepts : ∀ payload, arg = .ofBytes payload → payload.length + 1 < 2 ^ 32 →
    HandsOn stack b arg (payload ++ [0])
  rejects : ¬ IsByteList arg → Refuses stack b arg

variable {stack b arg}

/-- What can be read is handed on as it has been read. -/
theorem handsOn_of_fits {payload : List Byte} (hfits : payload.length + 1 ≤ stack.room) :
    HandsOn stack b (.ofBytes payload) (payload ++ [0]) where
  sign := by
    rintro o rfl mem r s
    rw [rsaSignNif, run_getCleartext_bind, readArgument_of_le o hfits, Outcome.ret_bind]
  encrypt := by
    rintro o rfl mem r s
    rw [rsaEncryptNif, run_getCleartext_bind, readArgument_of_le o hfits, Outcome.ret_bind]

/-- The recording OpenSSL, on a given stack. -/
def recorderOn (stack : Stack) : OpenSSL := { recorder [] with stack := stack }

/-- An argument that does not fit the stack is not read. -/
theorem readArgument_ne_ret (hfits : ¬ FitsStack stack arg) {cleartext : List Byte} :
    readArgument (recorderOn stack) arg ≠ .ret cleartext := by
  intro hread
  obtain ⟨payload, hbytes, hle, -⟩ := (readArgument_eq_ret_iff _).mp hread
  exact hfits ⟨payload, hbytes, hle⟩

/-- Such an argument is not refused: no term is returned. -/
theorem not_refuses (hfits : ¬ FitsStack stack arg) : ¬ Refuses stack b arg := by
  rintro ⟨⟨err, hsign⟩, -⟩
  have hrun := hsign (recorderOn stack) rfl ⟨fun _ => 0, fun _ => 0⟩ () .init
  obtain ⟨cleartext, hread, -⟩ :=
    Outcome.bind_eq_ret_iff.mp ((run_rsaSignNif _ _ _).symm.trans hrun)
  exact readArgument_ne_ret hfits hread

/-- Nor is it handed on: with a key in place, that would return a signature. -/
theorem not_handsOn (hfits : ¬ FitsStack stack arg) (cleartext : List Byte) :
    ¬ HandsOn stack b arg cleartext := by
  intro h
  have hrun := h.sign (recorderOn stack) rfl ⟨fun _ => 0, fun _ => 0⟩ () (.withKey sampleKey)
  have hsigned := (run_rsaSignNif _ _ _).symm.trans (hrun.trans (run_myRsaSign _ _ _))
  simp only [Build.operation, (installed_withKey sampleKey).1] at hsigned
  obtain ⟨read, hread, -⟩ := Outcome.bind_eq_ret_iff.mp hsigned
  exact readArgument_ne_ret hfits hread

/-- **The NIFs do what they should with an argument exactly if it is a list of bytes that the
stack has room for.** -/
theorem decodesArgument_iff (stack : Stack) (b : Build) (arg : Term) :
    DecodesArgument stack b arg ↔ FitsStack stack arg := by
  have hupper := stack.upper
  constructor
  · intro h
    by_contra hfits
    by_cases hlist : IsByteList arg
    · obtain ⟨payload, hbytes, hcount⟩ := hlist
      exact not_handsOn hfits _ (h.accepts payload hbytes hcount)
    · exact not_refuses hfits (h.rejects hlist)
  · rintro ⟨payload, rfl, hfits⟩
    constructor
    · intro payload' hbytes _
      rw [← ofBytes_injective hbytes]
      exact handsOn_of_fits hfits
    · intro hnot
      exact absurd ⟨payload, rfl, by omega⟩ hnot

/-- An atom is read by neither build. -/
theorem not_decodesArgument_atom :
    let arg := Term.atom (literal ['h', 'i'])
    ¬ DecodesArgument defaultStack .sgx arg ∧ ¬ DecodesArgument defaultStack .noSgx arg := by
  intro arg
  have hnot : ¬ IsByteList arg := by
    rintro ⟨payload, hbytes, -⟩
    cases payload <;> exact nomatch hbytes
  have hfits : ¬ FitsStack defaultStack arg := by
    rintro ⟨payload, hbytes, -⟩
    cases payload <;> exact nomatch hbytes
  exact ⟨fun h => not_refuses hfits (h.rejects hnot), fun h => not_refuses hfits (h.rejects hnot)⟩

end SgxErlang.Rsa
