import SgxErlang.Erlang.Term

/-!
# The functions of `erl_nif` that read an argument

`enif_get_list_length` and `enif_get_string`, as `erl_nif` documents them: the first
succeeds on proper lists, the second writes the bytes of a list and a terminator, and
returns how many bytes that were, `0` if the term is not a list of bytes, and the negated
size of the buffer if the list does not fit.  The result is an `int`, the size an `unsigned`.
-/

namespace SgxErlang

/-- The number of elements of a proper list. -/
def Term.properLength? : Term → Option ℕ
  | .nil => some 0
  | .cons _ tl => tl.properLength?.map (· + 1)
  | _ => none

/-- `enif_get_list_length`; the length is stored in an `unsigned`. -/
def enifGetListLength (t : Term) : Option (BitVec 32) := t.properLength?.map (BitVec.ofNat 32)

/-- The loop of `enif_get_string`; `acc` is what has been written so far. -/
def enifGetStringLoop (len : ℕ) : Term → List Byte → ℤ × List Byte
  | .nil, acc => (acc.length + 1, acc ++ [0])
  | .cons (.int z) tl, acc =>
      if 0 ≤ z ∧ z < 256 then
        if acc.length + 1 < len then enifGetStringLoop len tl (acc ++ [UInt8.ofNat z.toNat])
        else (-len, acc ++ [0])
      else (0, acc ++ [0])
  | _, acc => (0, acc ++ [0])

/-- `enif_get_string` with a buffer of `len` bytes: its result, an `int`, and what it
wrote. -/
def enifGetString (t : Term) (len : ℕ) : ℤ × List Byte :=
  if len < 1 then (0, [])
  else
    let (ret, written) := enifGetStringLoop len t []
    ((BitVec.ofInt 32 ret).toInt, written)

theorem properLength?_ofBytes (bs : List Byte) :
    (Term.ofBytes bs).properLength? = some bs.length := by
  induction bs with
  | nil => rfl
  | cons b bs ih => simp [Term.ofBytes, Term.properLength?, ih]

/-- A list of bytes is the list of one string of bytes. -/
theorem ofBytes_injective : Function.Injective Term.ofBytes := by
  intro bs
  induction bs with
  | nil =>
      intro bs' h
      cases bs' with
      | nil => rfl
      | cons b' bs' => exact nomatch h
  | cons b bs ih =>
      intro bs' h
      cases bs' with
      | nil => exact nomatch h
      | cons b' bs' =>
          obtain ⟨hhead, htail⟩ := Term.cons.inj h
          have hbyte : b = b' := UInt8.toNat_inj.mp (Int.ofNat.inj (Term.int.inj hhead))
          rw [hbyte, ih htail]

/-- A byte of a list is copied if the terminator still fits behind it. -/
theorem enifGetStringLoop_cons (len : ℕ) (b : Byte) (bs acc : List Byte) :
    enifGetStringLoop len (.ofBytes (b :: bs)) acc =
      if acc.length + 1 < len then enifGetStringLoop len (.ofBytes bs) (acc ++ [b])
      else (-len, acc ++ [0]) := by
  have hb : (0 : ℤ) ≤ b.toNat ∧ (b.toNat : ℤ) < 256 := by
    have := b.toNat_lt
    omega
  rw [Term.ofBytes, enifGetStringLoop, if_pos hb, Int.toNat_natCast, UInt8.ofNat_toNat]

theorem enifGetStringLoop_ofBytes {len : ℕ} (bs acc : List Byte)
    (h : acc.length + bs.length < len) :
    enifGetStringLoop len (.ofBytes bs) acc =
      (((acc.length + bs.length + 1 : ℕ) : ℤ), acc ++ bs ++ [0]) := by
  induction bs generalizing acc with
  | nil => simp [Term.ofBytes, enifGetStringLoop]
  | cons b bs ih =>
      rw [List.length_cons] at h
      have hroom : acc.length + 1 < len := by omega
      have hlen : (acc ++ [b]).length = acc.length + 1 := by simp
      rw [enifGetStringLoop_cons, if_pos hroom, ih (acc ++ [b]) (by omega), hlen]
      simp
      omega

theorem enifGetStringLoop_truncates {len : ℕ} (bs acc : List Byte) (hacc : acc.length < len)
    (h : len ≤ acc.length + bs.length) :
    (enifGetStringLoop len (.ofBytes bs) acc).1 = -len := by
  induction bs generalizing acc with
  | nil =>
      rw [List.length_nil] at h
      omega
  | cons b bs ih =>
      rw [List.length_cons] at h
      have hlen : (acc ++ [b]).length = acc.length + 1 := by simp
      rw [enifGetStringLoop_cons]
      split_ifs with hroom
      · exact ih (acc ++ [b]) (by omega) (by omega)
      · rfl

/-- Only the bytes of a list that fits yield a positive result. -/
theorem ofBytes_of_enifGetStringLoop {len : ℕ} {t : Term} {acc : List Byte}
    (h : 1 ≤ (enifGetStringLoop len t acc).1) : ∃ bs, t = .ofBytes bs := by
  fun_induction enifGetStringLoop len t acc with
  | case1 acc => exact ⟨[], rfl⟩
  | case2 z tl acc hz hroom ih =>
      obtain ⟨bs, rfl⟩ := ih h
      have hbyte : ((UInt8.ofNat z.toNat).toNat : ℤ) = z := by
        rw [UInt8.toNat_ofNat']
        omega
      exact ⟨UInt8.ofNat z.toNat :: bs, by rw [Term.ofBytes, hbyte]⟩
  | case3 z tl acc hz hroom => omega
  | case4 z tl acc hz => omega
  | case5 t acc hnil hcons => omega

/-- The result is within the size of the buffer. -/
theorem enifGetStringLoop_bounds (len : ℕ) (t : Term) (acc : List Byte)
    (hacc : acc.length < len) :
    -(len : ℤ) ≤ (enifGetStringLoop len t acc).1 ∧ (enifGetStringLoop len t acc).1 ≤ len := by
  fun_induction enifGetStringLoop len t acc with
  | case1 acc =>
      dsimp only
      omega
  | case2 z tl acc hz hroom ih =>
      rw [List.length_append, List.length_singleton] at ih
      exact ih hroom
  | case3 z tl acc hz hroom =>
      dsimp only
      omega
  | case4 z tl acc hz =>
      dsimp only
      omega
  | case5 t acc hnil hcons =>
      dsimp only
      omega

/-- The size of a buffer that is not too large fits the result. -/
theorem enifGetString_of_lt (t : Term) {len : ℕ} (hpos : 1 ≤ len) (hlt : len < 2 ^ 31) :
    enifGetString t len = enifGetStringLoop len t [] := by
  have hbounds := enifGetStringLoop_bounds len t [] hpos
  have hint : (BitVec.ofInt 32 (enifGetStringLoop len t []).1).toInt =
      (enifGetStringLoop len t []).1 := by
    rw [BitVec.toInt_ofInt]
    exact Int.bmod_eq_of_le (by omega) (by omega)
  rw [enifGetString, if_neg (by omega)]
  dsimp only
  rw [hint]

end SgxErlang
