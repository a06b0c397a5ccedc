import SgxErlang.Attestation.Messages

/-!
# Keys from the shared secret

`ecp.cpp`: the two sides of an attestation compute a shared secret by Diffie-Hellman, and
`derive_key` makes the four session keys out of it.  There are two of it, and a macro
decides at build time.  The standard one extracts a key from the secret by CMAC and expands
it once for each label; the supplied one hashes the secret and cuts the digest in two.

The crypto library is not part of the repository.  `Libcrypto` is what its calls compute,
and every call that may fail is asked for before it is made.

## Main results

* `derivationBuffer_prefix_free` — no two of the standard keys are expanded from one input.
* `hashInput_injective` — the supplied derivation hashes different inputs for different
  secrets or key ids.
* `deriveKey_eq_some_iff`, `deriveKeys_eq_some_iff` — when keys are derived, and which.
-/

namespace SgxErlang.Attestation

/-- What the calls of the crypto library compute when they do not fail. -/
structure Libcrypto where
  /-- `sample_rijndael128_cmac_msg`. -/
  cmac : Key128 → List Byte → Key128
  /-- `sample_sha256_*` over a whole input. -/
  sha256 : List Byte → Vector Byte 32
  /-- The public key that goes with a private one. -/
  publicOf : EcPriv → EcPub
  /-- `sample_ecc256_compute_shared_dhkey`. -/
  sharedDhkey : EcPriv → EcPub → EcDhShared
  /-- `sample_ecdsa_sign`, with the random number it draws. -/
  ecdsaSign : EcPriv → Vector Byte 32 → List Byte → EcSign256
  /-- `sample_rijndael128GCM_encrypt` without additional data: the ciphertext and its tag. -/
  gcmEncrypt : {n : ℕ} → Key128 → Vector Byte 12 → Vector Byte n → Vector Byte n × Key128
  /-- `sgx_rijndael128GCM_decrypt` without additional data: nothing if the tag is wrong. -/
  gcmDecrypt : {n : ℕ} → Key128 → Vector Byte 12 → Vector Byte n → Key128 → Option (Vector Byte n)

/-- Which `derive_key` a program has been built with: `SUPPLIED_KEY_DERIVATION` or not. -/
inductive Kdf where
  | standard
  | supplied
  deriving DecidableEq

/-- The keys of a session. -/
structure SessionKeys where
  smkKey : Key128
  skKey : Key128
  mkKey : Key128
  vkKey : Key128

/-! ## The standard derivation -/

/-- The calls of the standard `derive_key` that can fail. -/
inductive KdfStep where
  | extract | malloc | expand
  deriving DecidableEq

/-- `sample_derive_key_type_t`, and the label of each. -/
def label (keyId : Byte) : Option (List Byte) :=
  match keyId with
  | 0 => some [0x53, 0x4d, 0x4b] -- SMK
  | 1 => some [0x53, 0x4b] -- SK
  | 2 => some [0x4d, 0x4b] -- MK
  | 3 => some [0x56, 0x4b] -- VK
  | _ => none

/-- `counter(0x01) || label || 0x00 || output_key_len(0x0080)`. -/
def derivationBuffer (label : List Byte) : List Byte :=
  0x01 :: (label ++ 0x00 :: Layout.uint16.put 0x0080)

/-- The key that a label gives, as `derive_key` computes it. -/
def expandKey (L : Libcrypto) (shared : EcDhShared) (label : List Byte) : Key128 :=
  L.cmac (L.cmac (Vector.replicate 16 0) shared.toList) (derivationBuffer label)

/-- `derive_key`, without `SUPPLIED_KEY_DERIVATION`. -/
def deriveKey (L : Libcrypto) (ok : KdfStep → Bool) (shared : EcDhShared) (keyId : Byte) :
    Option Key128 :=
  if !ok .extract then none else
    match label keyId with
    | none => none
    | some label =>
      if !ok .malloc then none
      else if !ok .expand then none
      else some (expandKey L shared label)

theorem deriveKey_eq_some_iff {L : Libcrypto} {ok : KdfStep → Bool} {shared : EcDhShared}
    {keyId : Byte} {key : Key128} :
    deriveKey L ok shared keyId = some key ↔
      (∀ s, ok s) ∧ ∃ l, label keyId = some l ∧ key = expandKey L shared l := by
  have hall : (∀ s, ok s) ↔ ok .extract ∧ ok .malloc ∧ ok .expand := by
    constructor
    · exact fun h => ⟨h _, h _, h _⟩
    · rintro ⟨hx, hm, he⟩ s
      cases s <;> assumption
  rw [hall]
  cases hl : label keyId with
  | none => simp [deriveKey, hl]
  | some l =>
      cases hx : ok .extract <;> cases hm : ok .malloc <;> cases he : ok .expand <;>
        simp [deriveKey, hl, hx, hm, he, eq_comm]

/-- The labels give different inputs, of which none continues another. -/
theorem derivationBuffer_prefix_free {i j : Byte} {l m : List Byte} (hl : label i = some l)
    (hm : label j = some m) (h : derivationBuffer l <+: derivationBuffer m) : i = j := by
  have hcase : ∀ {i : Byte} {l : List Byte}, label i = some l →
      (i = 0 ∧ l = [0x53, 0x4d, 0x4b]) ∨ (i = 1 ∧ l = [0x53, 0x4b]) ∨
        (i = 2 ∧ l = [0x4d, 0x4b]) ∨ (i = 3 ∧ l = [0x56, 0x4b]) := by
    intro i l hl
    unfold label at hl
    split at hl <;> simp_all
  rcases hcase hl with ⟨rfl, rfl⟩ | ⟨rfl, rfl⟩ | ⟨rfl, rfl⟩ | ⟨rfl, rfl⟩ <;>
    rcases hcase hm with ⟨rfl, rfl⟩ | ⟨rfl, rfl⟩ | ⟨rfl, rfl⟩ | ⟨rfl, rfl⟩ <;>
      first | rfl | exact absurd h (by decide)

/-! ## The supplied derivation -/

/-- The calls of the supplied `derive_key` whose result is looked at. -/
inductive HashStep where
  | init | buffer | idU | idV | getHash
  deriving DecidableEq

/-- `ID_U`, with its terminating zero. -/
def idU : List Byte :=
  [0x53, 0x47, 0x58, 0x52, 0x41, 0x45, 0x4e, 0x43, 0x4c, 0x41, 0x56, 0x45, 0x00]

/-- `ID_V`, with its terminating zero. -/
def idV : List Byte :=
  [0x53, 0x47, 0x58, 0x52, 0x41, 0x53, 0x45, 0x52, 0x56, 0x45, 0x52, 0x00]

/-- What is hashed: the counter, the secret in big-endian order, `algorithm_id`, and the
names of the two parties. -/
def hashInput (shared : EcDhShared) (keyId : Byte) : List Byte :=
  ([0, 0, 0, keyId] ++ shared.toList.reverse ++ [0, 0, 0, 0]) ++ idU ++ idV

/-- The two halves of a digest. -/
def digestKeys (digest : Vector Byte 32) : Key128 × Key128 :=
  ((Layout.array 16).prod (Layout.array 16)).get digest.toList

/-- `derive_key`, with `SUPPLIED_KEY_DERIVATION`. -/
def deriveKeys (L : Libcrypto) (ok : HashStep → Bool) (shared : EcDhShared) (keyId : Byte) :
    Option (Key128 × Key128) :=
  if !ok .init then none
  else if !ok .buffer then none
  else if !ok .idU then none
  else if !ok .idV then none
  else if !ok .getHash then none
  else some (digestKeys (L.sha256 (hashInput shared keyId)))

theorem deriveKeys_eq_some_iff {L : Libcrypto} {ok : HashStep → Bool} {shared : EcDhShared}
    {keyId : Byte} {keys : Key128 × Key128} :
    deriveKeys L ok shared keyId = some keys ↔
      (∀ s, ok s) ∧ keys = digestKeys (L.sha256 (hashInput shared keyId)) := by
  have hall : (∀ s, ok s) ↔
      ok .init ∧ ok .buffer ∧ ok .idU ∧ ok .idV ∧ ok .getHash := by
    constructor
    · exact fun h => ⟨h _, h _, h _, h _, h _⟩
    · rintro ⟨hi, hb, hu, hv, hg⟩ s
      cases s <;> assumption
  rw [hall, deriveKeys, eq_comm (a := keys)]
  split_ifs <;> simp_all

theorem deriveKeys_eq_none {L : Libcrypto} {ok : HashStep → Bool} {shared : EcDhShared}
    {keyId : Byte} (h : ¬∀ s, ok s) : deriveKeys L ok shared keyId = none := by
  rw [Option.eq_none_iff_forall_ne_some]
  exact fun keys hkeys => h (deriveKeys_eq_some_iff.mp hkeys).1

/-- The supplied derivation never hashes one input for two secrets or two key ids. -/
theorem hashInput_injective {shared shared' : EcDhShared} {keyId keyId' : Byte}
    (h : hashInput shared keyId = hashInput shared' keyId') :
    shared = shared' ∧ keyId = keyId' := by
  simp only [hashInput, List.append_cancel_right_eq, List.cons_append, List.nil_append,
    List.cons.injEq, true_and, List.reverse_inj] at h
  exact ⟨Vector.toList_inj.mp h.2, h.1⟩

/-! ## All keys of a session -/

/-- The keys that a shared secret gives when nothing fails. -/
def sessionKeys (L : Libcrypto) (shared : EcDhShared) : Kdf → SessionKeys
  | .standard =>
    { smkKey := expandKey L shared [0x53, 0x4d, 0x4b]
      skKey := expandKey L shared [0x53, 0x4b]
      mkKey := expandKey L shared [0x4d, 0x4b]
      vkKey := expandKey L shared [0x56, 0x4b] }
  | .supplied =>
    let first := digestKeys (L.sha256 (hashInput shared 0))
    let second := digestKeys (L.sha256 (hashInput shared 1))
    { smkKey := first.1, skKey := first.2, mkKey := second.1, vkKey := second.2 }

end SgxErlang.Attestation
