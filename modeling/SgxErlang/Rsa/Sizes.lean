import SgxErlang.Rsa.Atomicity

/-!
# The three fixed sizes

The NIFs have the sizes of the results written into them: 512 bytes for a signature and for
a ciphertext, 526 for the encoded public key.  `ecall_rsa_get_pubkey` and
`ecall_rsa_encrypt` compare what they are about to hand over with these numbers.  For a
modulus of 4096 bits, whichever it is, the numbers are right.

## Main definitions

* `readPublicKey` — the decoder of an encoded public key.
* `ExactSizes` — what the sizes have to be right for.

## Main results

* `readPublicKey_derPublicKey` — decoding gives back modulus and exponent.
* `exactSizes` — the sizes are exact for every key.
-/

namespace SgxErlang.Rsa

/-- Modulus and exponent of an encoded public key; nothing may follow them. -/
def readPublicKey (bs : List Byte) : Option (ℕ × ℕ) := do
  let (content, rest) ← readValue 0x30 bs
  let (n, tail) ← readInteger content
  let (e, tail') ← readInteger tail
  if rest = [] ∧ tail' = [] then pure (n, e) else none

/-- `BN_num_bits`. -/
def bnNumBits (n : ℕ) : ℕ := if n = 0 then 0 else n.log2 + 1

/-- `BN_num_bytes`, which `RSA_size` applies to the modulus. -/
def bnNumBytes (n : ℕ) : ℕ := (bnNumBits n + 7) / 8

/-- `i2d_PublicKey` emits the DER encoding of a completely generated key. -/
def EmitsDer (o : OpenSSL) : Prop := ∀ r k, o.i2dPublicKey r (some k) = some (derPublicKey k)

/-- The sizes are exact. -/
structure ExactSizes (o : OpenSSL) (b : Build) : Prop where
  /-- The encoding of every key has the requested size. -/
  encoded : ∀ k : PublicKey, (derPublicKey k).length = pubkeyBufferSize
  /-- Decoding it gives back the key. -/
  decoded : ∀ k : PublicKey, readPublicKey (derPublicKey k) = some (k.n, rsaF4)
  /-- Different keys have different encodings. -/
  distinct : Function.Injective derPublicKey
  /-- The modulus occupies exactly the fixed buffers. -/
  modulus : ∀ k : PublicKey, bnNumBytes k.n = bufferSize
  /-- A successful generation installs its key, and it stays until the next generation. -/
  installed : ∀ (r : KeyGenResults o) (k : Key) (mem : Memory) (s s₁ s₂ : Enclave) (t : Term)
    (later : List (NifCall o × Memory)) (ts : List Term), r.Completes → r.generate = some k →
    (nif o b (.rsaKeyGen r, mem)).run s = .ret (t, s₁) →
    (∀ x ∈ later, ∀ r', x.1 ≠ .rsaKeyGen r') →
    (runAll (nif o b) later).run s₁ = .ret (ts, s₂) → s₂.Installed k
  /-- With an installed key, the size is the requested one: a buffer that `malloc` has not
  allocated is all that can keep the encoding back. -/
  accepted : ∀ (k : Key) (s : Enclave) (r : PubkeyResults o) (heap : ℕ → Byte), s.Installed k →
    (ecallRsaGetPubkey o r heap (BitVec.ofNat 32 pubkeyBufferSize)).run s =
      if r.malloc then .ret (⟨0, derPublicKey k.pub⟩, s) else .crashed
  /-- With an installed key, `rsa_get_pubkey` returns exactly its encoding. -/
  pubkey : ∀ (k : Key) (s : Enclave) (mem : Memory) (r : PubkeyResults o), s.Installed k →
    (nif o b (.rsaGetPubkey r, mem)).run s =
      if r.malloc then .ret (.binary (derPublicKey k.pub), s) else b.fault
  /-- A signature is complete. -/
  sign : ∀ (k : Key) (s : Enclave) (mem : Memory) (r : o.Rand) (arg : Term)
    (cleartext out : List Byte), s.Installed k → readArgument o arg = .ret cleartext →
    o.rsaSign r (some k) (b.message mem cleartext) = .done out →
    (nif o b (.rsaSign arg r, mem)).run s = .ret (.binary out, s.afterPrints r) ∧
      out.length = bnNumBytes k.pub.n
  /-- A ciphertext is complete. -/
  encrypt : ∀ (k : Key) (s : Enclave) (mem : Memory) (r : o.Rand) (arg : Term)
    (cleartext out : List Byte), s.Installed k → readArgument o arg = .ret cleartext →
    o.rsaPublicEncrypt r (some k.pub) (b.message mem cleartext) = .done out →
    (nif o b (.rsaEncrypt arg r, mem)).run s = .ret (.binary out, s.afterPrints r) ∧
      out.length = bnNumBytes k.pub.n
  /-- `ecall_rsa_encrypt` accepts every successful encryption. -/
  check : ∀ (k : Key) (s : Enclave) (r : o.Rand) (p : Ptr) (len : BitVec 32) (out : List Byte),
    s.Installed k → o.rsaPublicEncrypt r (some k.pub) (p.read sizeofPtr) = .done out →
    (ecallRsaEncrypt o r p len).run s = .ret (⟨0, out⟩, s.afterPrints r)

/-! ## The encoding -/

/-- Decoding gives back modulus and exponent. -/
theorem readPublicKey_derPublicKey (k : PublicKey) :
    readPublicKey (derPublicKey k) = some (k.n, rsaF4) := by
  have hwidth : derWidth k.n = 513 := derWidth_eq (l := 4096) (k := 4095) rfl k.lower k.upper
  have hn : ∀ rest, readInteger (derInteger k.n ++ rest) = some (k.n, rest) :=
    readInteger_derInteger (by rw [hwidth]; decide)
  have he : ∀ rest, readInteger (derInteger rsaF4 ++ rest) = some (rsaF4, rest) :=
    readInteger_derInteger (by decide)
  have hcontent : [derInteger k.n, derInteger rsaF4].flatten =
      derInteger k.n ++ (derInteger rsaF4 ++ []) := by simp
  have hlen : ([derInteger k.n, derInteger rsaF4].flatten).length.log2 < 1008 := by
    have htotal := length_derPublicKey k
    rw [derPublicKey, derSequence, length_derValue] at htotal
    have hpos : [derInteger k.n, derInteger rsaF4].flatten.length ≠ 0 := by
      rw [hcontent, List.length_append, length_derInteger]
      omega
    exact lt_trans ((Nat.log2_lt hpos).mpr (by omega : _ < 2 ^ 10)) (by decide)
  have hvalue := readValue_derValue hlen 0x30 []
  rw [List.append_nil] at hvalue
  rw [readPublicKey, derPublicKey, derSequence, hvalue, hcontent]
  simp only [Option.bind_eq_bind, Option.bind_some, hn, he]
  rfl

theorem derPublicKey_injective : Function.Injective derPublicKey := by
  intro k k' h
  have hread := readPublicKey_derPublicKey k
  rw [h, readPublicKey_derPublicKey] at hread
  have hn : k'.n = k.n := congrArg Prod.fst (Option.some.inj hread)
  obtain ⟨n, lower, upper⟩ := k
  obtain ⟨n', lower', upper'⟩ := k'
  obtain rfl : n' = n := hn
  rfl

theorem bnNumBits_eq {n k l : ℕ} (hl : l = k + 1) (hlo : 2 ^ k ≤ n) (hhi : n < 2 ^ l) :
    bnNumBits n = l := by
  subst hl
  have hn : n ≠ 0 := (Nat.lt_of_lt_of_le (Nat.two_pow_pos k) hlo).ne'
  rw [bnNumBits, if_neg hn, (Nat.log2_eq_iff hn).mpr ⟨hlo, hhi⟩]

/-- A modulus of 4096 bits has 512 bytes. -/
theorem bnNumBytes_modulus (k : PublicKey) : bnNumBytes k.n = rsaSize := by
  have hbits : bnNumBits k.n = 4096 := bnNumBits_eq (l := 4096) (k := 4095) rfl k.lower k.upper
  rw [bnNumBytes, hbits]
  rfl

/-! ## The calls -/

variable {o : OpenSSL} {b : Build} {k : Key} {s : Enclave}

/-- No call but `rsa_key_gen` changes the keys, and so no run of them does. -/
theorem sameKeys_of_run {calls : List (NifCall o × Memory)} {s s' : Enclave} {ts : List Term}
    (hcalls : ∀ x ∈ calls, ∀ r, x.1 ≠ .rsaKeyGen r)
    (hrun : (runAll (nif o b) calls).run s = .ret (ts, s')) : s.SameKeys s' := by
  induction calls generalizing s ts with
  | nil =>
      obtain ⟨-, rfl⟩ := Outcome.pair_inj hrun
      exact ⟨rfl, rfl, rfl, rfl⟩
  | cons x calls ih =>
      obtain ⟨t, s₁, rest, hx, hrest, -⟩ := runAll_cons_eq_ret_iff.mp hrun
      obtain ⟨hfirst, hothers⟩ := List.forall_mem_cons.mp hcalls
      exact (nif_sameKeys hfirst hx).trans (ih hothers hrest)

theorem encoding_of_installed (hder : EmitsDer o) (hk : s.Installed k) (r : o.Rand) :
    s.pkeyView.encoding r = .ret (some (derPublicKey k.pub)) := by
  rw [hk.2, PkeyView.encoding, Option.map_some, hder]

theorem run_ecallRsaGetPubkey_of_installed (hder : EmitsDer o) (hk : s.Installed k)
    (r : PubkeyResults o) (heap : ℕ → Byte) :
    (ecallRsaGetPubkey o r heap (BitVec.ofNat 32 pubkeyBufferSize)).run s =
      if r.malloc then .ret (⟨0, derPublicKey k.pub⟩, s) else .crashed := by
  have hset : s.pkeyView ≠ .unset := by simp [hk.2]
  have hlen : ((derPublicKey k.pub).length : ℤ) = (BitVec.ofNat 32 pubkeyBufferSize).toInt := by
    rw [length_derPublicKey]
    decide
  have hne : derPublicKey k.pub ≠ [] := List.ne_nil_of_length_pos (by
    rw [length_derPublicKey]
    decide)
  rw [run_ecallRsaGetPubkey, if_neg hset, encoding_of_installed hder hk,
    encoding_of_installed hder hk, Outcome.ret_bind, Outcome.ret_bind, r.copied_of_length heap hlen,
    Option.getD_some, Ptr.read_length, if_neg hne]

theorem run_rsaGetPubkeyNif_of_installed (hder : EmitsDer o) (hk : s.Installed k) (mem : Memory)
    (r : PubkeyResults o) : (rsaGetPubkeyNif o b mem r).run s =
      if r.malloc then .ret (.binary (derPublicKey k.pub), s) else b.fault := by
  have hset : s.pkeyView ≠ .unset := by simp [hk.2]
  have hlen : (derPublicKey k.pub).length = pubkeyBufferSize := length_derPublicKey k.pub
  have hsize : derLen (some (derPublicKey k.pub)) = pubkeyBufferSize := congrArg _ hlen
  rw [run_rsaGetPubkeyNif, if_neg hset, encoding_of_installed hder hk,
    encoding_of_installed hder hk, Outcome.ret_bind, Outcome.ret_bind, PubkeyResults.returned,
    if_neg (not_not.mpr hsize), Option.getD_some, ← hlen, Ptr.read_length]

/-- An operation that succeeds on the installed key delivers its output. -/
theorem operation_of_done (hk : s.Installed k) {r : o.Rand} {op : Option Key → OpResult}
    {out : List Byte} (hout : op (some k) = .done out) :
    b.operation s r op = .ret (.binary out, s.afterPrints r) := by
  simp only [Build.operation, hk.1, hout]
  rfl

/-- **The fixed sizes are exact for every key.** -/
theorem exactSizes (hder : EmitsDer o) (b : Build) : ExactSizes o b where
  encoded := length_derPublicKey
  decoded := readPublicKey_derPublicKey
  distinct := derPublicKey_injective
  modulus := bnNumBytes_modulus
  installed := by
    intro r k mem s s₁ s₂ t later ts hdone hk hgen hlater hrun
    obtain ⟨-, rfl⟩ := leaves_of_nif hgen
    have hnew := KeyGenResults.after_of_completes hdone hk (b.keyGenStart s)
    exact ((sameKeys_of_run hlater hrun).installed_iff k).mpr hnew.installed
  accepted := fun k s r heap hk => run_ecallRsaGetPubkey_of_installed hder hk r heap
  pubkey := fun k s mem r hk => run_rsaGetPubkeyNif_of_installed hder hk mem r
  sign := by
    intro k s mem r arg cleartext out hk hclear hout
    refine ⟨?_, (o.rsaSign_length hout).trans (bnNumBytes_modulus k.pub).symm⟩
    rw [nif, run_rsaSignNif, hclear, Outcome.ret_bind]
    exact operation_of_done hk hout
  encrypt := by
    intro k s mem r arg cleartext out hk hclear hout
    refine ⟨?_, (o.rsaPublicEncrypt_length hout).trans (bnNumBytes_modulus k.pub).symm⟩
    rw [nif, run_rsaEncryptNif, hclear, Outcome.ret_bind]
    exact operation_of_done hk hout
  check := by
    intro k s r p len out hk hout
    rw [run_ecallRsaEncrypt, hk.1]
    simp only [Option.map_some, hout]
    rfl

theorem exactSizes_reference : ExactSizes reference .sgx ∧ ExactSizes reference .noSgx :=
  ⟨exactSizes (fun _ _ => rfl) .sgx, exactSizes (fun _ _ => rfl) .noSgx⟩

end SgxErlang.Rsa
