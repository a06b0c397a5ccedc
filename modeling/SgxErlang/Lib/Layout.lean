import Mathlib.Data.List.TakeDrop
import Mathlib.Logic.Equiv.Defs
import Mathlib.Tactic.Common
import SgxErlang.Lib.CMemory

/-!
# Records laid out in memory

A C program that casts a buffer to a pointer to a record reads the fields at fixed offsets,
and one that fills in a record and sends its bytes writes them there.  A `Layout α` is both
directions for records of type `α`: every value has one form of `size` bytes, and every
string of that many bytes is the form of a value.  Layouts are built from the field types
up, so the laws of a record's layout are never proved for the record itself.

`get` may be given more bytes than the record has; what lies behind it is not looked at.

## Main definitions

* `Layout` — a layout with its laws.
* `Layout.byte`, `Layout.array`, `Layout.uint16`, `Layout.uint32`, `Layout.uint64` — fields.
* `Layout.prod`, `Layout.iso` — a record from its fields.

## Main results

* `Layout.put_injective` — two records with the same bytes are equal.
* `Layout.put_get_append_drop` — a buffer is the record at its front and the rest.
-/

namespace SgxErlang

universe u v

/-- A way to lay out the values of a type in a fixed number of bytes. -/
structure Layout (α : Type u) where
  /-- `sizeof`. -/
  size : ℕ
  /-- The bytes of a value. -/
  put : α → List Byte
  /-- The value at the front of a buffer. -/
  get : List Byte → α
  length_put : ∀ a, (put a).length = size
  get_put_append : ∀ a rest, get (put a ++ rest) = a
  put_get : ∀ bs, size ≤ bs.length → put (get bs) = bs.take size

namespace Layout

variable {α : Type u} {β : Type v} (l : Layout α)

attribute [simp] length_put get_put_append

@[simp] theorem get_put (a : α) : l.get (l.put a) = a := by
  simpa using l.get_put_append a []

theorem put_injective : Function.Injective l.put := by
  intro a b h
  rw [← l.get_put a, h, l.get_put]

/-- A buffer is the record at its front, and then what lies behind it. -/
theorem put_get_append_drop {bs : List Byte} (h : l.size ≤ bs.length) :
    l.put (l.get bs) ++ bs.drop l.size = bs := by
  rw [l.put_get bs h, List.take_append_drop]

@[simp] theorem drop_put_append (a : α) (rest : List Byte) :
    (l.put a ++ rest).drop l.size = rest := by
  rw [← l.length_put a, List.drop_left]

@[simp] theorem take_put_append (a : α) (rest : List Byte) :
    (l.put a ++ rest).take l.size = l.put a := by
  rw [← l.length_put a, List.take_left]

/-! ## Fields -/

/-- A single byte. -/
def byte : Layout Byte where
  size := 1
  put b := [b]
  get bs := bs.headD 0
  length_put _ := rfl
  get_put_append _ _ := rfl
  put_get bs h := by
    cases bs with
    | nil => simp at h
    | cons b bs => simp

/-- An array of bytes. -/
def array (n : ℕ) : Layout (Vector Byte n) where
  size := n
  put v := v.toList
  get bs := Vector.ofFn fun i => bs.getD i 0
  length_put v := by simp
  get_put_append v rest := by
    apply Vector.ext
    intro i hi
    have hlt : i < v.toList.length := by simpa using hi
    rw [Vector.getElem_ofFn, List.getD_eq_getElem?_getD, List.getElem?_append_left hlt,
      List.getElem?_eq_getElem hlt, Option.getD_some, Vector.getElem_toList]
  put_get bs h := by
    apply List.ext_getElem
    · rw [Vector.length_toList, List.length_take_of_le h]
    · intro i hi _
      have hlt : i < bs.length := by
        have hn : i < n := by simpa using hi
        omega
      simp [hlt]

/-- The `k` low bytes of `n`, the least significant one first. -/
def toLe : ℕ → ℕ → List Byte
  | 0, _ => []
  | k + 1, n => UInt8.ofNat (n % 256) :: toLe k (n / 256)

/-- The number that a little-endian byte string stands for. -/
def ofLe : List Byte → ℕ
  | [] => 0
  | b :: bs => b.toNat + 256 * ofLe bs

@[simp] theorem length_toLe (k n : ℕ) : (toLe k n).length = k := by
  induction k generalizing n with
  | zero => rfl
  | succ k ih => rw [toLe, List.length_cons, ih]

theorem ofLe_toLe {k n : ℕ} (h : n < 256 ^ k) : ofLe (toLe k n) = n := by
  induction k generalizing n with
  | zero =>
      have hzero : n = 0 := by simpa using h
      rw [hzero]
      rfl
  | succ k ih =>
      have hquot : n / 256 < 256 ^ k := by
        rw [Nat.pow_succ] at h
        omega
      have hbyte : (UInt8.ofNat (n % 256)).toNat = n % 256 := by
        rw [UInt8.toNat_ofNat']
        omega
      rw [toLe, ofLe, ih hquot, hbyte]
      omega

theorem ofLe_lt (bs : List Byte) : ofLe bs < 256 ^ bs.length := by
  induction bs with
  | nil => simp [ofLe]
  | cons b bs ih =>
      have hb : b.toNat < 256 := b.toNat_lt
      rw [ofLe, List.length_cons, Nat.pow_succ]
      omega

theorem toLe_ofLe (bs : List Byte) : toLe bs.length (ofLe bs) = bs := by
  induction bs with
  | nil => rfl
  | cons b bs ih =>
      have hb : b.toNat < 256 := b.toNat_lt
      have hmod : (b.toNat + 256 * ofLe bs) % 256 = b.toNat := by omega
      have hdiv : (b.toNat + 256 * ofLe bs) / 256 = ofLe bs := by omega
      rw [List.length_cons, ofLe, toLe, hmod, hdiv, ih, UInt8.ofNat_toNat]

/-- A little-endian `uint16_t`. -/
def uint16 : Layout UInt16 where
  size := 2
  put w := toLe 2 w.toNat
  get bs := UInt16.ofNat (ofLe (bs.take 2))
  length_put _ := length_toLe _ _
  get_put_append w rest := by
    rw [List.take_left' (length_toLe _ _), ofLe_toLe w.toNat_lt, UInt16.ofNat_toNat]
  put_get bs h := by
    have hlen : (bs.take 2).length = 2 := by rw [List.length_take]; omega
    have hlt : ofLe (bs.take 2) < 2 ^ 16 := by
      have := ofLe_lt (bs.take 2)
      rwa [hlen] at this
    rw [UInt16.toNat_ofNat_of_lt' hlt]
    nth_rewrite 1 [← hlen]
    exact toLe_ofLe _

/-- A little-endian `uint32_t`. -/
def uint32 : Layout UInt32 where
  size := 4
  put w := toLe 4 w.toNat
  get bs := UInt32.ofNat (ofLe (bs.take 4))
  length_put _ := length_toLe _ _
  get_put_append w rest := by
    rw [List.take_left' (length_toLe _ _), ofLe_toLe w.toNat_lt, UInt32.ofNat_toNat]
  put_get bs h := by
    have hlen : (bs.take 4).length = 4 := by rw [List.length_take]; omega
    have hlt : ofLe (bs.take 4) < 2 ^ 32 := by
      have := ofLe_lt (bs.take 4)
      rwa [hlen] at this
    rw [UInt32.toNat_ofNat_of_lt' hlt]
    nth_rewrite 1 [← hlen]
    exact toLe_ofLe _

/-- A little-endian `uint64_t`. -/
def uint64 : Layout UInt64 where
  size := 8
  put w := toLe 8 w.toNat
  get bs := UInt64.ofNat (ofLe (bs.take 8))
  length_put _ := length_toLe _ _
  get_put_append w rest := by
    rw [List.take_left' (length_toLe _ _), ofLe_toLe w.toNat_lt, UInt64.ofNat_toNat]
  put_get bs h := by
    have hlen : (bs.take 8).length = 8 := by rw [List.length_take]; omega
    have hlt : ofLe (bs.take 8) < 2 ^ 64 := by
      have := ofLe_lt (bs.take 8)
      rwa [hlen] at this
    rw [UInt64.toNat_ofNat_of_lt' hlt]
    nth_rewrite 1 [← hlen]
    exact toLe_ofLe _

/-! ## Records -/

/-- One field after the other, without padding. -/
def prod (m : Layout β) : Layout (α × β) where
  size := l.size + m.size
  put p := l.put p.1 ++ m.put p.2
  get bs := (l.get bs, m.get (bs.drop l.size))
  length_put p := by rw [List.length_append, l.length_put, m.length_put]
  get_put_append p rest := by
    rw [List.append_assoc, l.get_put_append, l.drop_put_append, m.get_put_append]
  put_get bs h := by
    have hm : m.size ≤ (bs.drop l.size).length := by
      rw [List.length_drop]
      omega
    rw [l.put_get bs (by omega), m.put_get _ hm, List.take_add]

/-- A record by another name for its fields. -/
def iso (e : α ≃ β) : Layout β where
  size := l.size
  put b := l.put (e.symm b)
  get bs := e (l.get bs)
  length_put b := l.length_put _
  get_put_append b rest := by rw [l.get_put_append, e.apply_symm_apply]
  put_get bs h := by rw [e.symm_apply_apply, l.put_get bs h]

end Layout

end SgxErlang
