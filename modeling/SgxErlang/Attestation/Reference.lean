import SgxErlang.Attestation.Ecp
import SgxErlang.Lib.Der
import SgxErlang.Lib.Pkcs1

/-!
# A crypto library

The primitives that the attestation calls, as programs: SHA-256, AES-128 with CMAC and GCM,
and Diffie-Hellman and ECDSA over P-256.  Numbers are little-endian in memory, as the headers
say.

## Main results

* `reference` — the library.
* `reference_gcm` — what has been encrypted is decrypted.
-/

namespace SgxErlang.Attestation

/-! ## SHA-256 -/

/-- The round constants. -/
def shaK : List UInt32 :=
  [0x428a2f98, 0x71374491, 0xb5c0fbcf, 0xe9b5dba5, 0x3956c25b, 0x59f111f1, 0x923f82a4,
    0xab1c5ed5, 0xd807aa98, 0x12835b01, 0x243185be, 0x550c7dc3, 0x72be5d74, 0x80deb1fe,
    0x9bdc06a7, 0xc19bf174, 0xe49b69c1, 0xefbe4786, 0x0fc19dc6, 0x240ca1cc, 0x2de92c6f,
    0x4a7484aa, 0x5cb0a9dc, 0x76f988da, 0x983e5152, 0xa831c66d, 0xb00327c8, 0xbf597fc7,
    0xc6e00bf3, 0xd5a79147, 0x06ca6351, 0x14292967, 0x27b70a85, 0x2e1b2138, 0x4d2c6dfc,
    0x53380d13, 0x650a7354, 0x766a0abb, 0x81c2c92e, 0x92722c85, 0xa2bfe8a1, 0xa81a664b,
    0xc24b8b70, 0xc76c51a3, 0xd192e819, 0xd6990624, 0xf40e3585, 0x106aa070, 0x19a4c116,
    0x1e376c08, 0x2748774c, 0x34b0bcb5, 0x391c0cb3, 0x4ed8aa4a, 0x5b9cca4f, 0x682e6ff3,
    0x748f82ee, 0x78a5636f, 0x84c87814, 0x8cc70208, 0x90befffa, 0xa4506ceb, 0xbef9a3f7,
    0xc67178f2]

/-- The initial hash value. -/
def shaInit : List UInt32 :=
  [0x6a09e667, 0xbb67ae85, 0x3c6ef372, 0xa54ff53a, 0x510e527f, 0x9b05688c, 0x1f83d9ab,
    0x5be0cd19]

def rotr (n x : UInt32) : UInt32 := (x >>> n) ||| (x <<< (32 - n))

/-- The next word of the message schedule, from the sixteen before it. -/
def shaNextWord (w : List UInt32) : UInt32 :=
  let s₀ := fun x => rotr 7 x ^^^ rotr 18 x ^^^ (x >>> 3)
  let s₁ := fun x => rotr 17 x ^^^ rotr 19 x ^^^ (x >>> 10)
  s₁ (w.getD 14 0) + w.getD 9 0 + s₀ (w.getD 1 0) + w.getD 0 0

/-- One round. -/
def shaRound (v : List UInt32) (kw : UInt32) : List UInt32 :=
  match v with
  | [a, b, c, d, e, f, g, h] =>
      let t₁ := h + (rotr 6 e ^^^ rotr 11 e ^^^ rotr 25 e) + ((e &&& f) ^^^ (~~~e &&& g)) + kw
      let t₂ := (rotr 2 a ^^^ rotr 13 a ^^^ rotr 22 a) +
        ((a &&& b) ^^^ (a &&& c) ^^^ (b &&& c))
      [t₁ + t₂, a, b, c, d + t₁, e, f, g]
  | _ => v

/-- All rounds over one block; `w` is the window of the message schedule. -/
def shaRounds : List UInt32 → List UInt32 → List UInt32 → List UInt32
  | [], _, v => v
  | k :: ks, w, v => shaRounds ks (w.tail ++ [shaNextWord w]) (shaRound v (k + w.headD 0))

/-- The pieces of `n` bytes that a string consists of. -/
def blocks (n : ℕ) (bs : List Byte) : List (List Byte) :=
  (List.range ((bs.length + n - 1) / n)).map fun i => (bs.drop (n * i)).take n

/-- The message with a one bit, zeros, and its length in bits. -/
def shaPad (m : List Byte) : List Byte :=
  m ++ [0x80] ++ List.replicate ((119 - m.length % 64) % 64) 0 ++ i2osp 8 (8 * m.length)

def shaBlock (v : List UInt32) (block : List Byte) : List UInt32 :=
  let w := (blocks 4 block).map fun bs => UInt32.ofNat (os2ip bs)
  List.zipWith (· + ·) v (shaRounds shaK w v)

def sha256 (m : List Byte) : Vector Byte 32 :=
  let v := (blocks 64 (shaPad m)).foldl shaBlock shaInit
  (Layout.array 32).get (v.flatMap fun w => i2osp 4 w.toNat)

/-! ## AES-128 -/

def xtime (b : Byte) : Byte := (b <<< 1) ^^^ (if b < 0x80 then 0 else 0x1b)

/-- Multiplication in the field of AES; `n` is the number of bits of `b` to look at. -/
def aesMul : ℕ → Byte → Byte → Byte
  | 0, _, _ => 0
  | n + 1, a, b => (if b &&& 1 = 1 then a else 0) ^^^ aesMul n (xtime a) (b >>> 1)

/-- The 254th power, which is the inverse. -/
def aesInv (b : Byte) : Byte :=
  (List.range 6).foldl (fun acc _ => aesMul 8 (aesMul 8 acc acc) b) b |> fun acc =>
    aesMul 8 acc acc

def subByte (b : Byte) : Byte :=
  let x := aesInv b
  let rotl := fun n : Byte => (x <<< n) ||| (x >>> (8 - n))
  x ^^^ rotl 1 ^^^ rotl 2 ^^^ rotl 3 ^^^ rotl 4 ^^^ 0x63

def xorBytes (as bs : List Byte) : List Byte := List.zipWith (· ^^^ ·) as bs

def shiftRows (s : List Byte) : List Byte :=
  (List.range 16).map fun i => s.getD ((i + 4 * (i % 4)) % 16) 0

def mixColumn (col : List Byte) : List Byte :=
  (List.range 4).map fun i =>
    let a := fun j => col.getD ((i + j) % 4) 0
    xtime (a 0) ^^^ (xtime (a 1) ^^^ a 1) ^^^ a 2 ^^^ a 3

/-- The next round key. -/
def nextRoundKey (rcon : Byte) (key : List Byte) : List Byte :=
  match blocks 4 key with
  | [w₀, w₁, w₂, w₃] =>
      let t := (w₃.tail ++ w₃.take 1).map subByte
      let v₀ := xorBytes (xorBytes w₀ t) [rcon, 0, 0, 0]
      let v₁ := xorBytes w₁ v₀
      let v₂ := xorBytes w₂ v₁
      v₀ ++ v₁ ++ v₂ ++ xorBytes w₃ v₂
  | _ => key

/-- The rounds that are left, with the key and the constant of the last one before them. -/
def aesRounds : ℕ → Byte → List Byte → List Byte → List Byte
  | 0, _, _, s => s
  | n + 1, rcon, key, s =>
      let key' := nextRoundKey rcon key
      let shifted := shiftRows (s.map subByte)
      let mixed := if n = 0 then shifted else (blocks 4 shifted).flatMap mixColumn
      aesRounds n (xtime rcon) key' (xorBytes mixed key')

def aes (key : Key128) (block : List Byte) : List Byte :=
  aesRounds 10 1 key.toList (xorBytes block key.toList)

/-! ## CMAC -/

/-- Doubling in the field of CMAC. -/
def cmacDouble (bs : List Byte) : List Byte :=
  let n := os2ip bs
  i2osp 16 ((2 * n) % 2 ^ 128 ^^^ (if n < 2 ^ 127 then 0 else 0x87))

def cmac (key : Key128) (m : List Byte) : Key128 :=
  let k₁ := cmacDouble (aes key (List.replicate 16 0))
  let k₂ := cmacDouble k₁
  let bs := blocks 16 m
  let last := bs.getLastD []
  let last' :=
    if last.length = 16 then xorBytes last k₁
    else xorBytes (last ++ [0x80] ++ List.replicate (15 - last.length) 0) k₂
  let chain := (bs.dropLast ++ [last']).foldl (fun c b => aes key (xorBytes c b))
    (List.replicate 16 0)
  (Layout.array 16).get chain

/-! ## GCM -/

/-- Multiplication in the field of GCM, where the first bit is the lowest coefficient. -/
def ghashMul : ℕ → ℕ → ℕ → ℕ
  | 0, _, _ => 0
  | n + 1, x, v =>
      (if x.testBit n then v else 0) ^^^
        ghashMul n x ((v >>> 1) ^^^ (if v % 2 = 1 then 0xe1 <<< 120 else 0))

/-- The key stream for the blocks after the first. -/
def gcmStream (key : Key128) (iv : Vector Byte 12) (n : ℕ) : List Byte :=
  ((List.range ((n + 15) / 16)).flatMap fun i => aes key (iv.toList ++ i2osp 4 (i + 2))).take n

/-- Encryption, which is decryption as well. -/
def gcmCrypt {n : ℕ} (key : Key128) (iv : Vector Byte 12) (text : Vector Byte n) :
    Vector Byte n :=
  Vector.ofFn fun i => text[i] ^^^ (gcmStream key iv n).getD i 0

def gcmTag {n : ℕ} (key : Key128) (iv : Vector Byte 12) (cipher : Vector Byte n) : Key128 :=
  let h := os2ip (aes key (List.replicate 16 0))
  let padded := (blocks 16 cipher.toList).map fun b =>
    os2ip (b ++ List.replicate (16 - b.length) 0)
  let hash := (padded ++ [8 * n]).foldl (fun y b => ghashMul 128 (y ^^^ b) h) 0
  (Layout.array 16).get (xorBytes (i2osp 16 hash) (aes key (iv.toList ++ [0, 0, 0, 1])))

/-! ## P-256 -/

def p256P : ℕ := 2 ^ 256 - 2 ^ 224 + 2 ^ 192 + 2 ^ 96 - 1

/-- The order of the base point. -/
def p256N : ℕ := 0xffffffff00000000ffffffffffffffffbce6faada7179e84f3b9cac2fc632551

/-- The base point. -/
def p256G : Option (ℕ × ℕ) :=
  some (0x6b17d1f2e12c4247f8bce6e563a440f277037d812deb33a0f4a13945d898c296,
    0x4fe342e2fe1a7f9b8ee7eb4a7c0f9e162bce33576b315ececbb6406837bf51f5)

/-- Addition of points; `none` is the point at infinity. -/
def p256Add : Option (ℕ × ℕ) → Option (ℕ × ℕ) → Option (ℕ × ℕ)
  | none, q => q
  | p, none => p
  | some (x₁, y₁), some (x₂, y₂) =>
      if x₁ = x₂ ∧ (y₁ + y₂) % p256P = 0 then none
      else
        let slope :=
          if x₁ = x₂ then (3 * x₁ * x₁ + (p256P - 3)) * powMod p256P (2 * y₁) (p256P - 2)
          else (y₂ + (p256P - y₁)) * powMod p256P (x₂ + (p256P - x₁)) (p256P - 2)
        let x₃ := (slope * slope + (p256P - x₁) + (p256P - x₂)) % p256P
        some (x₃, (slope * (x₁ + (p256P - x₃)) + (p256P - y₁)) % p256P)

/-- A multiple of a point; `n` is the number of bits of the factor to look at. -/
def p256Mul : ℕ → ℕ → Option (ℕ × ℕ) → Option (ℕ × ℕ)
  | 0, _, _ => none
  | n + 1, m, q =>
      let rest := if m < 2 then none else p256Mul n (m / 2) (p256Add q q)
      if m % 2 = 1 then p256Add q rest else rest

/-- A number in memory. -/
def numBytes (n : ℕ) : Vector Byte 32 := (Layout.array 32).get (Layout.toLe 32 n)

def p256PublicOf (priv : EcPriv) : EcPub :=
  let q := (p256Mul 256 (Layout.ofLe priv.toList) p256G).getD (0, 0)
  ⟨numBytes q.1, numBytes q.2⟩

def p256SharedDhkey (priv : EcPriv) (pub : EcPub) : EcDhShared :=
  let q := some (Layout.ofLe pub.gx.toList, Layout.ofLe pub.gy.toList)
  numBytes ((p256Mul 256 (Layout.ofLe priv.toList) q).getD (0, 0)).1

def p256Sign (priv : EcPriv) (nonce : Vector Byte 32) (m : List Byte) : EcSign256 :=
  let t := Layout.ofLe nonce.toList
  let r := ((p256Mul 256 t p256G).getD (0, 0)).1 % p256N
  let z := os2ip (sha256 m).toList
  let s := powMod p256N t (p256N - 2) * (z + r * Layout.ofLe priv.toList) % p256N
  ⟨numBytes r, numBytes s⟩

/-! ## The library -/

def reference : Libcrypto where
  cmac := cmac
  sha256 := sha256
  publicOf := p256PublicOf
  sharedDhkey := p256SharedDhkey
  ecdsaSign := p256Sign
  gcmEncrypt key iv plain :=
    let cipher := gcmCrypt key iv plain
    (cipher, gcmTag key iv cipher)
  gcmDecrypt key iv cipher tag :=
    if gcmTag key iv cipher = tag then some (gcmCrypt key iv cipher) else none

/-- Decryption gives back what has been encrypted. -/
theorem reference_gcm {n : ℕ} (key : Key128) (iv : Vector Byte 12) (plain : Vector Byte n) :
    reference.gcmDecrypt key iv (reference.gcmEncrypt key iv plain).1
      (reference.gcmEncrypt key iv plain).2 = some plain := by
  have hcancel : gcmCrypt key iv (gcmCrypt key iv plain) = plain := by
    apply Vector.ext
    intro i hi
    simp only [gcmCrypt, Vector.getElem_ofFn, Fin.getElem_fin]
    rw [UInt8.xor_assoc, UInt8.xor_self, UInt8.xor_zero]
  simp only [reference, if_true, hcancel]

end SgxErlang.Attestation
