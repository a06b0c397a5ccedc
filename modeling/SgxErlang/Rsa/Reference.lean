import Mathlib.Data.Int.GCD
import SgxErlang.Lib.Pkcs1
import SgxErlang.Rsa.OpenSSL

/-!
# OpenSSL as it is

An instance of `OpenSSL` that computes what the library computes: RSA with PKCS #1 v1.5
padding and DER encodings, over a source of random bytes.  An RSA object without a key
has null pointers where the numbers belong, so that using it is a fault.

`sampleKey` is a key of 4096 bits.  Its primes have a short form.
-/

namespace SgxErlang.Rsa

/-- The encoding of a public key: SEQUENCE of modulus and exponent. -/
def derPublicKey (k : PublicKey) : List Byte := derSequence [derInteger k.n, derInteger rsaF4]

/-- The encoding of a private key. -/
def derPrivateKey (k : Key) : List Byte :=
  derSequence ([0, k.pub.n, rsaF4, k.d, k.p, k.q, k.d % (k.p - 1), k.d % (k.q - 1),
    powMod k.p k.q (k.p - 2)].map derInteger)

/-- The public key of any key is encoded in 526 bytes. -/
theorem length_derPublicKey (k : PublicKey) : (derPublicKey k).length = 526 := by
  have hwidth : derWidth k.n = 513 := derWidth_eq (l := 4096) (k := 4095) rfl k.lower k.upper
  have hn : (derInteger k.n).length = 517 := by
    rw [length_derInteger, hwidth, length_derLength_of_lt (by decide) (by decide)]
  have he : (derInteger rsaF4).length = 5 := by decide
  have hcontent : ([derInteger k.n, derInteger rsaF4].flatten).length = 522 := by
    simp [hn, he]
  rw [derPublicKey, derSequence, length_derValue, hcontent,
    length_derLength_of_lt (by decide) (by decide)]

/-- `RSA_public_encrypt`. -/
def referenceEncrypt (source : ℕ → Byte) (k : PublicKey) (m : List Byte) : OpResult :=
  match encryptionBlock rsaSize source m with
  | some block => .done (i2osp rsaSize (powMod k.n (os2ip block) rsaF4))
  | none => .failed

/-- `RSA_sign` with `NID_sha1`. -/
def referenceSign (k : Key) (m : List Byte) : OpResult :=
  match signatureBlock rsaSize m with
  | some block => .done (i2osp rsaSize (powMod k.pub.n (os2ip block) k.d))
  | none => .failed

theorem length_digestInfoSha1 {m : List Byte} (h : m.length = 8) :
    (digestInfoSha1 m).length = 23 := by
  simp [digestInfoSha1, derSequence, derValue, derLength, h]

/-- Eight bytes can be signed. -/
theorem exists_referenceSign (k : Key) {m : List Byte} (h : m.length = 8) :
    ∃ out, referenceSign k m = .done out := by
  have hroom : (digestInfoSha1 m).length + 11 ≤ rsaSize := by
    rw [length_digestInfoSha1 h]
    decide
  simp [referenceSign, signatureBlock, hroom]

/-- Eight bytes can be encrypted. -/
theorem exists_referenceEncrypt (source : ℕ → Byte) (k : PublicKey) {m : List Byte}
    (h : m.length = 8) : ∃ out, referenceEncrypt source k m = .done out := by
  have hroom : m.length + 11 ≤ rsaSize := by
    rw [h]
    decide
  simp [referenceEncrypt, encryptionBlock, hroom]

theorem referenceEncrypt_length {source : ℕ → Byte} {k : PublicKey} {m out : List Byte}
    (h : referenceEncrypt source k m = .done out) : out.length = rsaSize := by
  unfold referenceEncrypt at h
  split at h
  · rw [← OpResult.done.inj h, length_i2osp]
  · exact nomatch h

theorem referenceSign_length {k : Key} {m out : List Byte}
    (h : referenceSign k m = .done out) : out.length = rsaSize := by
  unfold referenceSign at h
  split at h
  · rw [← OpResult.done.inj h, length_i2osp]
  · exact nomatch h

/-- Whether a message can be signed depends on its length alone. -/
theorem referenceSign_alike (k k' : Key) (m : List Byte) :
    (referenceSign k m).Alike (referenceSign k' m) := by
  unfold referenceSign
  split <;> trivial

/-- Most of the 128 kilowords that a scheduler has by default. -/
def defaultStack : Stack where
  room := 10 ^ 6
  lower := by decide
  upper := by decide

/-- OpenSSL 1.1.1, as far as the RSA code uses it. -/
def reference : OpenSSL where
  Rand := ℕ → Byte
  rsaSign := fun _ k m => k.elim .fault fun k => referenceSign k m
  rsaPublicEncrypt := fun source k m => k.elim .fault fun k => referenceEncrypt source k m
  i2dPublicKey := fun _ k => k.map derPublicKey
  i2dPrivateKey := fun _ k => k.map derPrivateKey
  prints := fun _ => []
  bufsiz := 8192
  stack := defaultStack
  declaredLayout := false
  rsaSign_length := by
    intro r k m out h
    cases k with
    | none => cases h
    | some k =>
      rw [Option.elim_some] at h
      exact referenceSign_length h
  rsaSign_complete := by
    intro r k m h
    simp only [Option.elim, referenceSign] at h
    split at h <;> exact nomatch h
  rsaSign_public := by
    intro r k k' m h
    cases k with
    | none => cases k' with
      | none => trivial
      | some k' => exact nomatch h
    | some k => cases k' with
      | none => exact nomatch h
      | some k' =>
        rw [Option.elim_some, Option.elim_some]
        exact referenceSign_alike k k' m
  rsaPublicEncrypt_length := by
    intro r k m out h
    cases k with
    | none => cases h
    | some k =>
      rw [Option.elim_some] at h
      exact referenceEncrypt_length h
  rsaPublicEncrypt_complete := by
    intro r k m h
    simp only [Option.elim, referenceEncrypt] at h
    split at h <;> exact nomatch h
  i2dPublicKey_unique := by
    intro r r' k der der' h h'
    exact Option.some.inj (h.symm.trans h')

theorem reference_rsaSign (r : reference.Rand) (k : Key) (m : List Byte) :
    reference.rsaSign r (some k) m = referenceSign k m := by
  simp only [reference, Option.elim_some]

theorem reference_rsaPublicEncrypt (r : reference.Rand) (k : PublicKey) (m : List Byte) :
    reference.rsaPublicEncrypt r (some k) m = referenceEncrypt r k m := by
  simp only [reference, Option.elim_some]

/-- A source that always yields the same byte. -/
def sampleRand : reference.Rand := fun _ => (1 : Byte)

/-- The calls of one `ecall_rsa_get_pubkey` that all succeed. -/
def samplePubkey : PubkeyResults reference := ⟨sampleRand, true, sampleRand⟩

/-- The first prime of the sample key. -/
def sampleP : ℕ := 3261 * 2 ^ 2036 + 1

/-- The second prime of the sample key. -/
def sampleQ : ℕ := 3991 * 2 ^ 2036 + 1

/-- A key of 4096 bits. -/
def sampleKey : Key where
  pub :=
    { n := sampleP * sampleQ
      lower := by decide +kernel
      upper := by decide +kernel }
  p := sampleP
  q := sampleQ
  d := ((Nat.gcdA rsaF4 ((sampleP - 1) * (sampleQ - 1))) %
    ((sampleP - 1) * (sampleQ - 1) : ℕ)).toNat

end SgxErlang.Rsa
