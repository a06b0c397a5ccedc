import Mathlib.Tactic.Common
import SgxErlang.Lib.CMemory

/-!
# Integers as bytes, and their DER encoding

`i2osp` and `os2ip` are the conversions between integers and big-endian byte strings.  On
top of them stands as much of DER as an RSA key needs: lengths, nonnegative integers and
sequences.  A reader takes what it reads off the front of its input.

## Main results

* `length_derLength_of_lt`, `length_derInteger` — the exact size of an encoding.
* `os2ip_i2osp` — an integer that fits its byte string is read back.
* `readLength_derLength`, `readValue_derValue`, `readInteger_derInteger` — what has been
  written is read back, whatever follows it.
-/

namespace SgxErlang

/-- The `k` low bytes of `n`, the most significant one first. -/
def i2osp : ℕ → ℕ → List Byte
  | 0, _ => []
  | k + 1, n => i2osp k (n / 256) ++ [UInt8.ofNat (n % 256)]

/-- The integer that a byte string stands for. -/
def os2ip (bs : List Byte) : ℕ := bs.foldl (fun acc b => acc * 256 + b.toNat) 0

@[simp] theorem length_i2osp (k n : ℕ) : (i2osp k n).length = k := by
  induction k generalizing n with
  | zero => rfl
  | succ k ih => rw [i2osp, List.length_append, ih, List.length_singleton]

/-- The number of bytes of the shortest two's-complement form of `n`. -/
def derWidth (n : ℕ) : ℕ := (n.log2 + 1) / 8 + 1

/-- The length octets: one byte below 128, and otherwise the number of bytes of the length
before the length. -/
def derLength (len : ℕ) : List Byte :=
  if len < 128 then [UInt8.ofNat len]
  else UInt8.ofNat (128 + (len.log2 / 8 + 1)) :: i2osp (len.log2 / 8 + 1) len

/-- A value with its tag and its length. -/
def derValue (tag : Byte) (content : List Byte) : List Byte :=
  tag :: (derLength content.length ++ content)

/-- An INTEGER. -/
def derInteger (n : ℕ) : List Byte := derValue 0x02 (i2osp (derWidth n) n)

/-- A SEQUENCE. -/
def derSequence (elems : List (List Byte)) : List Byte := derValue 0x30 elems.flatten

theorem derWidth_eq {n k l : ℕ} (hl : l = k + 1) (hlo : 2 ^ k ≤ n) (hhi : n < 2 ^ l) :
    derWidth n = l / 8 + 1 := by
  subst hl
  have hn : n ≠ 0 := (Nat.lt_of_lt_of_le (Nat.two_pow_pos k) hlo).ne'
  rw [derWidth, (Nat.log2_eq_iff hn).mpr ⟨hlo, hhi⟩]

/-- A length between 256 and 65535 takes three bytes. -/
theorem length_derLength_of_lt {len : ℕ} (hlo : 256 ≤ len) (hhi : len < 65536) :
    (derLength len).length = 3 := by
  have hn : len ≠ 0 := by omega
  have hlog : len.log2 / 8 + 1 = 2 := by
    have hge : 8 ≤ len.log2 := (Nat.le_log2 hn).mpr hlo
    have hlt : len.log2 < 16 := (Nat.log2_lt hn).mpr hhi
    omega
  rw [derLength, if_neg (by omega), hlog, List.length_cons, length_i2osp]

theorem length_derValue (tag : Byte) (content : List Byte) :
    (derValue tag content).length = (derLength content.length).length + content.length + 1 := by
  rw [derValue, List.length_cons, List.length_append]

theorem length_derInteger (n : ℕ) :
    (derInteger n).length = (derLength (derWidth n)).length + derWidth n + 1 := by
  rw [derInteger, length_derValue, length_i2osp]

/-! ## Reading integers back -/

theorem os2ip_append_singleton (bs : List Byte) (b : Byte) :
    os2ip (bs ++ [b]) = os2ip bs * 256 + b.toNat := by
  rw [os2ip, List.foldl_append]
  rfl

/-- An integer that fits its byte string is read back. -/
theorem os2ip_i2osp {k n : ℕ} (h : n < 256 ^ k) : os2ip (i2osp k n) = n := by
  induction k generalizing n with
  | zero =>
      have hzero : n = 0 := by simpa using h
      rw [hzero]
      rfl
  | succ k ih =>
      have hquot : n / 256 < 256 ^ k := by
        rw [Nat.pow_succ] at h
        omega
      have hbyte : (UInt8.ofNat (n % 256)).toNat = n % 256 := by
        rw [UInt8.toNat_ofNat']
        omega
      rw [i2osp, os2ip_append_singleton, ih hquot, hbyte]
      omega

/-- The first byte is the most significant one. -/
theorem i2osp_succ_eq_cons (k n : ℕ) :
    i2osp (k + 1) n = UInt8.ofNat (n / 256 ^ k % 256) :: i2osp k n := by
  induction k generalizing n with
  | zero => simp [i2osp]
  | succ k ih =>
      have hdiv : n / 256 / 256 ^ k = n / 256 ^ (k + 1) := by
        rw [Nat.div_div_eq_div_mul, Nat.pow_succ, Nat.mul_comm]
      rw [i2osp, ih, hdiv, List.cons_append]
      rfl

/-- The bytes of a number suffice for it. -/
theorem lt_pow_of_log2_div (n : ℕ) : n < 256 ^ (n.log2 / 8 + 1) := by
  have hbits : n.log2 + 1 ≤ 8 * (n.log2 / 8 + 1) := by omega
  calc n < 2 ^ (n.log2 + 1) := Nat.lt_log2_self
    _ ≤ 2 ^ (8 * (n.log2 / 8 + 1)) := Nat.pow_le_pow_right (by decide) hbits
    _ = 256 ^ (n.log2 / 8 + 1) := by rw [Nat.pow_mul]

/-- In its two's-complement form a number has room for the sign bit. -/
theorem lt_pow_of_derWidth (n : ℕ) : n < 128 * 256 ^ ((n.log2 + 1) / 8) := by
  have hbits : n.log2 + 1 ≤ 7 + 8 * ((n.log2 + 1) / 8) := by omega
  calc n < 2 ^ (n.log2 + 1) := Nat.lt_log2_self
    _ ≤ 2 ^ (7 + 8 * ((n.log2 + 1) / 8)) := Nat.pow_le_pow_right (by decide) hbits
    _ = 128 * 256 ^ ((n.log2 + 1) / 8) := by rw [Nat.pow_add, Nat.pow_mul]

/-! ## Readers -/

/-- The first `count` bytes, if there are as many. -/
def readBytes (count : ℕ) (bs : List Byte) : Option (List Byte × List Byte) :=
  if count ≤ bs.length then some (bs.take count, bs.drop count) else none

/-- The length octets. -/
def readLength : List Byte → Option (ℕ × List Byte)
  | [] => none
  | b :: bs =>
      if b.toNat < 128 then some (b.toNat, bs)
      else do
        let (octets, rest) ← readBytes (b.toNat - 128) bs
        pure (os2ip octets, rest)

/-- A value with the given tag: its content. -/
def readValue (tag : Byte) : List Byte → Option (List Byte × List Byte)
  | [] => none
  | b :: bs => do
      if b = tag then
        let (len, rest) ← readLength bs
        readBytes len rest
      else none

/-- An INTEGER that is not negative. -/
def readInteger (bs : List Byte) : Option (ℕ × List Byte) := do
  let (content, rest) ← readValue 0x02 bs
  match content with
  | [] => none
  | b :: _ => if b.toNat < 128 then pure (os2ip content, rest) else none

theorem readBytes_append (bs rest : List Byte) :
    readBytes bs.length (bs ++ rest) = some (bs, rest) := by
  simp [readBytes]

/-- A length that takes no more octets than the first one can announce is read back. -/
theorem readLength_derLength {len : ℕ} (h : len.log2 < 1008) (rest : List Byte) :
    readLength (derLength len ++ rest) = some (len, rest) := by
  unfold derLength
  by_cases hshort : len < 128
  · have hbyte : (UInt8.ofNat len).toNat = len := by
      rw [UInt8.toNat_ofNat']
      omega
    rw [if_pos hshort, List.singleton_append, readLength, hbyte, if_pos hshort]
  · have hbyte : (UInt8.ofNat (128 + (len.log2 / 8 + 1))).toNat = 128 + (len.log2 / 8 + 1) := by
      rw [UInt8.toNat_ofNat']
      omega
    have hread := readBytes_append (i2osp (len.log2 / 8 + 1) len) rest
    rw [length_i2osp] at hread
    rw [if_neg hshort, List.cons_append, readLength, hbyte, if_neg (by omega),
      Nat.add_sub_cancel_left, hread]
    exact congrArg (fun n => some (n, rest)) (os2ip_i2osp (lt_pow_of_log2_div len))

theorem readValue_derValue {content : List Byte} (h : content.length.log2 < 1008) (tag : Byte)
    (rest : List Byte) : readValue tag (derValue tag content ++ rest) = some (content, rest) := by
  rw [derValue, List.cons_append, List.append_assoc, readValue, if_pos rfl,
    readLength_derLength h]
  exact readBytes_append content rest

/-- The sign bit of an INTEGER is clear. -/
theorem toNat_head_lt (n : ℕ) :
    (UInt8.ofNat (n / 256 ^ ((n.log2 + 1) / 8) % 256)).toNat < 128 := by
  have hquot : n / 256 ^ ((n.log2 + 1) / 8) < 128 :=
    Nat.div_lt_of_lt_mul (Nat.mul_comm _ _ ▸ lt_pow_of_derWidth n)
  rw [UInt8.toNat_ofNat']
  generalize n / 256 ^ ((n.log2 + 1) / 8) = q at hquot ⊢
  omega

/-- A number is read back from its INTEGER. -/
theorem readInteger_derInteger {n : ℕ} (h : (derWidth n).log2 < 1008) (rest : List Byte) :
    readInteger (derInteger n ++ rest) = some (n, rest) := by
  have hlen : (i2osp (derWidth n) n).length.log2 < 1008 := by
    rw [length_i2osp]
    exact h
  have hfits : n < 256 ^ derWidth n := by
    have hroom := lt_pow_of_derWidth n
    rw [derWidth, Nat.pow_succ]
    omega
  have hvalue : os2ip (i2osp (derWidth n) n) = n := os2ip_i2osp hfits
  rw [readInteger, derInteger, readValue_derValue hlen]
  rw [derWidth, i2osp_succ_eq_cons] at hvalue ⊢
  simp only [Option.bind_eq_bind, Option.bind_some, if_pos (toNat_head_lt n), hvalue]
  rfl

end SgxErlang
