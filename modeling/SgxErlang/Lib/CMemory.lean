import Mathlib.Algebra.Group.Nat.Defs
import Mathlib.Data.List.Infix
import Mathlib.Data.List.TakeWhile
import Mathlib.Tactic.Common

/-!
# Pointers into memory, and C strings

A pointer is modelled by what a program can read through it: the bytes of the object it
points to, and then whatever happens to lie behind that object.  Reading past the object
is not an error here; it is what the hardware does, and the bytes it yields are arbitrary.
This is the point of the model: an over-read shows up as a result that depends on
`beyond`.

A C string held in a buffer ends at its first zero byte.  `cstr` is the string proper,
`strlen` its length, and `strncmp` compares two of them up to a length.
-/

namespace SgxErlang

/-- A byte of memory. -/
abbrev Byte := UInt8

/-- What can be read through a pointer: the object, then the memory behind it. -/
structure Ptr where
  /-- The bytes of the object pointed to. -/
  buf : List Byte
  /-- The bytes that lie behind the object. -/
  beyond : ℕ → Byte

namespace Ptr

/-- The first `n` bytes from the pointer on. -/
def read (p : Ptr) (n : ℕ) : List Byte :=
  (p.buf ++ (List.range (n - p.buf.length)).map p.beyond).take n

@[simp] theorem length_read (p : Ptr) (n : ℕ) : (p.read n).length = n := by
  simp only [read, List.length_take, List.length_append, List.length_map, List.length_range]
  omega

/-- A read that stays inside the object does not see what lies behind it. -/
theorem read_of_le {p : Ptr} {n : ℕ} (h : n ≤ p.buf.length) : p.read n = p.buf.take n := by
  rw [read, List.take_append_of_le_length h]

/-- A read of the whole object. -/
@[simp] theorem read_length (bs : List Byte) (beyond : ℕ → Byte) :
    Ptr.read ⟨bs, beyond⟩ bs.length = bs := by
  rw [read_of_le le_rfl, List.take_length]

/-- A read past the object returns foreign bytes. -/
theorem getElem?_read_of_ge {p : Ptr} {n i : ℕ} (hi : i < n) (hb : p.buf.length ≤ i) :
    (p.read n)[i]? = some (p.beyond (i - p.buf.length)) := by
  rw [read, List.getElem?_take_of_lt hi, List.getElem?_append_right hb, List.getElem?_map,
    List.getElem?_range (by omega)]
  rfl

end Ptr

/-! ## C strings -/

/-- The bytes of a buffer up to its first zero byte. -/
def cstr (buf : List Byte) : List Byte := buf.takeWhile (· != 0)

/-- The length of the C string in a buffer. -/
def strlen (buf : List Byte) : ℕ := (cstr buf).length

@[simp] theorem cstr_nil : cstr [] = [] := rfl

theorem cstr_isPrefixOf (buf : List Byte) : cstr buf <+: buf := List.takeWhile_prefix _

theorem zero_notMem_cstr (buf : List Byte) : (0 : Byte) ∉ cstr buf := by
  intro h
  simpa using List.mem_takeWhile_imp h

/-- The terminator that is put behind a buffer does not change the string in it. -/
@[simp] theorem cstr_append_zero (buf : List Byte) : cstr (buf ++ [0]) = cstr buf := by
  induction buf with
  | nil => rfl
  | cons b bs ih =>
      by_cases hb : b = 0
      · simp [cstr, hb]
      · simpa [cstr, hb] using ih

@[simp] theorem strlen_append_zero (buf : List Byte) : strlen (buf ++ [0]) = strlen buf := by
  rw [strlen, cstr_append_zero, strlen]

theorem strlen_le (buf : List Byte) : strlen buf ≤ buf.length := (cstr_isPrefixOf buf).length_le

/-- A string is as long as its buffer exactly when the buffer holds no zero byte. -/
theorem strlen_eq_length_iff {buf : List Byte} : strlen buf = buf.length ↔ (0 : Byte) ∉ buf := by
  constructor
  · intro h
    have heq : cstr buf = buf := (cstr_isPrefixOf buf).eq_of_length h
    rw [← heq]
    exact zero_notMem_cstr buf
  · intro h
    have heq : cstr buf = buf := by
      rw [cstr, List.takeWhile_eq_self_iff]
      intro b hb
      simpa using fun hb0 : b = 0 => h (hb0 ▸ hb)
    rw [strlen, heq]

theorem strlen_take (buf : List Byte) (n : ℕ) : strlen (buf.take n) = min n (strlen buf) := by
  rw [strlen, strlen, cstr, cstr, ← List.take_takeWhile, List.length_take]

/-- A copy of a string with its terminator is what the buffer starts with, if there is a
zero behind the buffer. -/
theorem cstr_append_zero_isPrefixOf (buf : List Byte) : cstr buf ++ [0] <+: buf ++ [0] := by
  induction buf with
  | nil => exact List.prefix_rfl
  | cons b bs ih =>
      by_cases hb : b = 0
      · simp [cstr, hb]
      · have hcons : cstr (b :: bs) = b :: cstr bs := by simp [cstr, hb]
        rw [hcons, List.cons_append, List.cons_append]
        exact List.cons_prefix_cons.mpr ⟨rfl, ih⟩

/-- Compare two strings up to `n` characters; the end of a list stands for the
terminating zero. -/
def strncmp : ℕ → List Byte → List Byte → ℤ
  | 0, _, _ => 0
  | n + 1, s, t =>
      if s.headD 0 = t.headD 0 then
        if s.headD 0 = 0 then 0 else strncmp n s.tail t.tail
      else (s.headD 0).toNat - (t.headD 0).toNat

/-- With the length of a literal as its limit, `strncmp` tests for a prefix, not for
equality. -/
theorem strncmp_eq_zero_iff {t : List Byte} (ht : (0 : Byte) ∉ t) (s : List Byte) :
    strncmp t.length s t = 0 ↔ t <+: s := by
  induction t generalizing s with
  | nil => simp [strncmp]
  | cons c t ih =>
      have hc : c ≠ 0 := fun h => ht (h ▸ List.mem_cons_self)
      have htail : (0 : Byte) ∉ t := fun h => ht (List.mem_cons_of_mem _ h)
      cases s with
      | nil =>
          have hne : (c.toNat : ℤ) ≠ 0 := by
            intro h
            exact hc (UInt8.toNat_inj.mp (by simpa using h))
          simpa [strncmp, Ne.symm hc] using hne
      | cons b s =>
          by_cases hb : b = c
          · subst hb
            simp [strncmp, hc, ih htail, List.cons_prefix_cons]
          · have hne : (b.toNat : ℤ) - c.toNat ≠ 0 := by
              intro h
              exact hb (UInt8.toNat_inj.mp (by omega))
            simpa [strncmp, hb, List.cons_prefix_cons, Ne.symm hb] using hne

end SgxErlang
