import SgxErlang.Lib.Der

/-!
# RSA with PKCS #1 v1.5 padding

The textbook operations: a message is padded to the size of the modulus, read as an
integer, and raised to a power.  Encryption pads with nonzero bytes that are chosen anew
each time, signing with a fixed pattern around the encoded digest.
-/

namespace SgxErlang

/-- `m ^ e` modulo `n`, by repeated squaring; `fuel` bounds the number of bits of `e`. -/
def powModAux (n : ℕ) : ℕ → ℕ → ℕ → ℕ
  | 0, _, _ => 1 % n
  | fuel + 1, m, e =>
      let rest := powModAux n fuel (m * m % n) (e / 2)
      if e % 2 = 1 then m * rest % n else rest

/-- `m ^ e` modulo `n`. -/
def powMod (n m e : ℕ) : ℕ := powModAux n (e.log2 + 1) m e

/-- The padding of an encryption block: bytes from a source of randomness, zeros
replaced. -/
def paddingBytes (source : ℕ → Byte) (k : ℕ) : List Byte :=
  (List.range k).map fun i => if source i = 0 then 1 else source i

/-- The encryption block of `size` bytes, if the message leaves room for the padding. -/
def encryptionBlock (size : ℕ) (source : ℕ → Byte) (m : List Byte) : Option (List Byte) :=
  if m.length + 11 ≤ size then
    some ([0, 2] ++ paddingBytes source (size - m.length - 3) ++ [0] ++ m)
  else none

/-- The `DigestInfo` of a SHA-1 digest. -/
def digestInfoSha1 (m : List Byte) : List Byte :=
  derSequence [derSequence [derValue 0x06 [0x2b, 0x0e, 0x03, 0x02, 0x1a], derValue 0x05 []],
    derValue 0x04 m]

/-- The signature block of `size` bytes, if the digest leaves room for the padding. -/
def signatureBlock (size : ℕ) (m : List Byte) : Option (List Byte) :=
  let info := digestInfoSha1 m
  if info.length + 11 ≤ size then
    some ([0, 1] ++ List.replicate (size - info.length - 3) 0xff ++ [0] ++ info)
  else none

end SgxErlang
