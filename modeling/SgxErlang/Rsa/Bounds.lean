import SgxErlang.Rsa.Fidelity

/-!
# The output buffers, and a host that chooses their length

The three ecalls with an `[out]` buffer take its length as an argument, and the untrusted
host may pass any value.  The bridge allocates as many bytes as that, converted to
`size_t`.  `ecall_rsa_get_pubkey` compares the length with what it is about to write, but does
not look at whether its buffer was allocated and filled; the other two never look at the
length.

## Main results

* `withinBounds_iff` — the calls that stay inside their buffer.
-/

namespace SgxErlang.Rsa

variable (o : OpenSSL)

/-- A call of an ecall that has an output buffer, with the length the host claims for it, and
with the memory that it reads without having written it. -/
inductive OutCall where
  | sign (plaintext : Ptr) (ciphertextLen : BitVec 32) (r : o.Rand)
  | encrypt (plaintext : Ptr) (ciphertextLen : BitVec 32) (r : o.Rand)
  | getPubkey (requestedLen : BitVec 32) (heap : ℕ → Byte) (r : PubkeyResults o)

variable {o}

/-- An `int` as a `size_t`. -/
def sizeT (len : BitVec 32) : ℕ := (len.signExtend 64).toNat

namespace OutCall

/-- The number of bytes of the buffer. -/
def count : OutCall o → ℕ
  | .sign _ len _ => len.toNat
  | .encrypt _ len _ => sizeT len
  | .getPubkey len _ _ => sizeT len

/-- The ecall. -/
def ecall : OutCall o → Exec Enclave Written
  | .sign p len r => ecallRsaSign o r p len
  | .encrypt p len r => ecallRsaEncrypt o r p len
  | .getPubkey len heap r => ecallRsaGetPubkey o r heap len

/-- The complete result of the operation, if that succeeds. -/
def result (k : Key) : OutCall o → Option (List Byte)
  | .sign p _ r => (o.rsaSign r (some k) (p.read sizeofPtr)).output
  | .encrypt p _ r => (o.rsaPublicEncrypt r (some k.pub) (p.read sizeofPtr)).output
  | .getPubkey _ _ r => o.i2dPublicKey r.derRand (some k.pub)

/-- The call returns, it has not written beyond its buffer, and with status 0 it has
written the complete result. -/
def WithinBounds (k : Key) (call : OutCall o) (s : Enclave) : Prop :=
  ∃ w s', call.ecall.run s = .ret (w, s') ∧ w.bytes.length ≤ call.count ∧
    (w.status = 0 → call.result k = some w.bytes)

/-- The operation fails, or the buffer has room for what it writes.  With the length of the
encoding, `ecall_rsa_get_pubkey` gets to `memcpy`: its own buffer has been filled. -/
def HasRoom (k : Key) : OutCall o → Prop
  | .sign p len r => (OutCall.sign p len r).result k = none ∨ rsaSize ≤ len.toNat
  | .encrypt p len r => (OutCall.encrypt p len r).result k = none ∨ rsaSize ≤ sizeT len
  | .getPubkey len _ r =>
      match o.i2dPublicKey r.lenRand (some k.pub) with
      | none => len.toInt ≠ -1
      | some der => der.length = len.toInt →
          o.i2dPublicKey r.derRand (some k.pub) ≠ none ∧ (der ≠ [] → r.malloc = true)

/-- An operation that writes its output, in terms of its result. -/
theorem exists_outcome_iff {res : OpResult} {s : Enclave} {count : ℕ} (hfault : res ≠ .fault)
    (hlen : ∀ out, res = .done out → out.length = rsaSize) :
    (∃ w s', res.outcome s = .ret (w, s') ∧ w.bytes.length ≤ count ∧
      (w.status = 0 → res.output = some w.bytes)) ↔ (res.output = none ∨ rsaSize ≤ count) := by
  cases res with
  | fault => exact absurd rfl hfault
  | failed =>
      refine ⟨fun _ => .inl rfl, fun _ => ⟨_, _, rfl, Nat.zero_le _, ?_⟩⟩
      exact fun h => absurd h (by decide)
  | done out =>
      have hout := hlen out rfl
      constructor
      · rintro ⟨w, s', heq, hle, -⟩
        obtain ⟨rfl, rfl⟩ := Outcome.pair_inj heq
        exact .inr (hout ▸ hle)
      · rintro (hnone | hroom)
        · exact nomatch hnone
        · exact ⟨_, _, rfl, hout.trans_le hroom, fun _ => rfl⟩

/-- A length that `memcpy` has been checked against is not beyond the buffer. -/
theorem le_sizeT {n : ℕ} {len : BitVec 32} (h : (n : ℤ) = len.toInt) : n ≤ sizeT len := by
  have hint : (len.signExtend 64).toInt = len.toInt :=
    BitVec.toInt_signExtend_of_le (by decide)
  rw [BitVec.toInt_eq_toNat_cond] at hint
  have hlt := (len.signExtend 64).isLt
  rw [sizeT]
  split_ifs at hint <;> omega

/-- With the length of the encoding, the complete encoding is copied if it has been written,
to a buffer that there is. -/
theorem exists_copied_iff (r : PubkeyResults o) (heap : ℕ → Byte) (s : Enclave) {der : List Byte}
    {written : Option (List Byte)} {len : BitVec 32} (hlen : (der.length : ℤ) = len.toInt)
    (hwritten : ∀ out, written = some out → out = der) :
    (∃ w s', r.copied heap len.toInt (some der) written s = .ret (w, s') ∧
      w.bytes.length ≤ sizeT len ∧ (w.status = 0 → written = some w.bytes)) ↔
        (written ≠ none ∧ (der ≠ [] → r.malloc = true)) := by
  rw [r.copied_of_length heap hlen]
  constructor
  · rintro ⟨w, s', hrun, -, hcomplete⟩
    cases hmalloc : r.malloc with
    | true =>
        rw [hmalloc] at hrun
        obtain ⟨rfl, -⟩ := Outcome.pair_inj hrun
        have hsome := hcomplete rfl
        exact ⟨fun hnone => absurd (hnone.symm.trans hsome) nofun, fun _ => rfl⟩
    | false =>
        rw [hmalloc, if_neg Bool.false_ne_true] at hrun
        by_cases hempty : der = []
        · rw [if_pos hempty] at hrun
          obtain ⟨rfl, -⟩ := Outcome.pair_inj hrun
          have hsome := hcomplete rfl
          exact ⟨fun hnone => absurd (hnone.symm.trans hsome) nofun, fun hne => absurd hempty hne⟩
        · rw [if_neg hempty] at hrun
          exact nomatch hrun
  · rintro ⟨hsome, hmalloc⟩
    obtain ⟨out, rfl⟩ := Option.ne_none_iff_exists'.mp hsome
    obtain rfl := hwritten out rfl
    by_cases hbuf : r.malloc = true
    · rw [if_pos hbuf, Option.getD_some, Ptr.read_length]
      exact ⟨_, _, rfl, le_sizeT hlen, fun _ => rfl⟩
    · have hempty : out = [] := by_contra fun hne => hbuf (hmalloc hne)
      rw [if_neg hbuf, if_pos hempty]
      exact ⟨_, _, rfl, Nat.zero_le _, fun _ => congrArg some hempty⟩

/-- With an installed key, the calls that stay within bounds. -/
theorem withinBounds_iff {k : Key} {s : Enclave} (hk : s.Installed k) (call : OutCall o) :
    call.WithinBounds k s ↔ call.HasRoom k := by
  obtain ⟨hkeypair, hpkey⟩ := hk
  cases call with
  | sign p len r =>
      simp only [WithinBounds, ecall, run_ecallRsaSign, hkeypair]
      exact exists_outcome_iff o.rsaSign_complete (fun _ h => o.rsaSign_length h)
  | encrypt p len r =>
      simp only [WithinBounds, ecall, run_ecallRsaEncrypt, hkeypair]
      exact exists_outcome_iff o.rsaPublicEncrypt_complete
        (fun _ h => o.rsaPublicEncrypt_length h)
  | getPubkey len heap r =>
      have hset : s.pkeyView ≠ .unset := by simp [hpkey]
      have henc : ∀ rand : o.Rand,
          s.pkeyView.encoding rand = .ret (o.i2dPublicKey rand (some k.pub)) := by
        intro rand
        rw [hpkey]
        rfl
      simp only [WithinBounds, ecall, run_ecallRsaGetPubkey, if_neg hset, henc, Outcome.ret_bind,
        HasRoom, result, count]
      cases hder : o.i2dPublicKey r.lenRand (some k.pub) with
      | none =>
          by_cases hlen : -1 = len.toInt
          · simp [PubkeyResults.copied, derLen, ← hlen]
          · simp [PubkeyResults.copied, derLen, hlen, Ne.symm hlen]
      | some der =>
          by_cases hlen : (der.length : ℤ) = len.toInt
          · have hcopied := exists_copied_iff r heap s hlen
              fun out (h : o.i2dPublicKey r.derRand (some k.pub) = some out) =>
                o.i2dPublicKey_unique h hder
            simpa [hlen] using hcopied
          · simp [PubkeyResults.copied, derLen, hlen]

/-- With the length that the repository's own callers pass, `ecall_rsa_sign` stays within
bounds. -/
theorem withinBounds_sample :
    (OutCall.sign ⟨[1, 2, 3, 4, 5, 6, 7, 8, 0], fun _ => 0⟩ 512 sampleRand).WithinBounds
      sampleKey (.withKey sampleKey) :=
  (withinBounds_iff (installed_withKey sampleKey) _).mpr (.inr (by decide))

/-- With a length of 16 it writes 496 bytes beyond the buffer. -/
theorem not_withinBounds_short :
    ¬ (OutCall.sign ⟨[1, 2, 3, 4, 5, 6, 7, 8, 0], fun _ => 0⟩ 16 sampleRand).WithinBounds
      sampleKey (.withKey sampleKey) := by
  rintro ⟨w, s', hrun, hle, -⟩
  let p : Ptr := ⟨[1, 2, 3, 4, 5, 6, 7, 8, 0], fun _ => 0⟩
  obtain ⟨out, hout⟩ := exists_referenceSign sampleKey (m := p.read sizeofPtr) (Ptr.length_read _ _)
  have hop : reference.rsaSign sampleRand (some sampleKey) (p.read sizeofPtr) = .done out :=
    (reference_rsaSign _ _ _).trans hout
  have hwrite := hrun.symm.trans (run_ecallRsaSign sampleRand p 16 (.withKey sampleKey))
  simp only [(installed_withKey sampleKey).1, hop, OpResult.outcome] at hwrite
  obtain ⟨rfl, -⟩ := Outcome.pair_inj hwrite
  rw [reference.rsaSign_length hop] at hle
  exact absurd hle (by decide)

end OutCall

end SgxErlang.Rsa
