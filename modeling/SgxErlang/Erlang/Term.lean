import SgxErlang.Lib.CMemory
import SgxErlang.Lib.Exec

/-!
# Erlang terms, and the accessors the C side takes them apart with

`Term` has the shapes the C code can tell apart; floats, references, ports and funs are
one constructor, since nothing here looks inside them.  The names of atoms are byte
strings, because the C side compares them as such.

The accessors are those of `erl_interface`.  An `ETERM *` is an `Option Term`: `none` is
the null pointer.  Passing a null pointer to an accessor dereferences it, and asking for
the name of a term that is not an atom reads the wrong member of a union.
-/

namespace SgxErlang

/-- An Erlang term. -/
inductive Term where
  | int (z : ℤ)
  | atom (name : List Byte)
  | pid (p : ℕ)
  | nil
  | cons (hd tl : Term)
  | tuple (elems : List Term)
  | binary (bytes : List Byte)
  /-- A float, a reference, a port or a fun. -/
  | other (kind : ℕ)
  deriving Repr

/-- The bytes of a C string literal. -/
def literal (s : List Char) : List Byte := s.map fun c => UInt8.ofNat c.toNat

namespace Term

/-- The list of integers that Erlang writes for a byte string. -/
def ofBytes : List Byte → Term
  | [] => .nil
  | b :: bs => .cons (.int b.toNat) (ofBytes bs)

/-- The term is a process identifier. -/
def IsPid : Term → Prop
  | .pid _ => True
  | _ => False

theorem isPid_iff {t : Term} : t.IsPid ↔ ∃ p, t = .pid p := by
  cases t <;> simp [IsPid]

end Term

/-! ## `erl_interface` -/

variable {σ : Type}

/-- `erl_element(position, term)`: the element at a position counted from 1, and the null
pointer for a term that is not a tuple or a position it does not have. -/
def erlElement (position : ℕ) : Option Term → Exec σ (Option Term)
  | none => Exec.crash
  | some (.tuple elems) => pure (if position = 0 then none else elems[position - 1]?)
  | some _ => pure none

/-- `ERL_ATOM_PTR(term)`: the name of an atom. -/
def erlAtomPtr : Option Term → Exec σ (List Byte)
  | none => Exec.crash
  | some (.atom name) => pure name
  | some _ => Exec.undefinedBehaviour

section
variable (s : σ)

@[simp] theorem run_erlElement_none (n : ℕ) :
    (erlElement n none : Exec σ _).run s = .crashed := rfl
@[simp] theorem run_erlElement_tuple (n : ℕ) (elems : List Term) :
    (erlElement (n + 1) (some (.tuple elems)) : Exec σ _).run s = .ret (elems[n]?, s) := rfl
@[simp] theorem run_erlAtomPtr_none : (erlAtomPtr none : Exec σ _).run s = .crashed := rfl
@[simp] theorem run_erlAtomPtr_atom (name : List Byte) :
    (erlAtomPtr (some (.atom name)) : Exec σ _).run s = .ret (name, s) := rfl

end

variable {s : σ}

/-- An element that is there and is used means the term was a tuple that has it. -/
theorem run_erlElement_eq_ret_some {n : ℕ} {t : Option Term} {u : Term} {s' : σ}
    (h : (erlElement (n + 1) t).run s = .ret (some u, s')) :
    ∃ elems, t = some (.tuple elems) ∧ elems[n]? = some u ∧ s' = s := by
  cases t with
  | none => simp at h
  | some t =>
      cases t with
      | tuple elems =>
          rw [run_erlElement_tuple] at h
          obtain ⟨helem, hs⟩ := Outcome.pair_inj h
          exact ⟨elems, rfl, helem, hs.symm⟩
      | _ => exact absurd (congrArg Prod.fst (Outcome.ret.inj h)) (by simp)

/-- `ERL_ATOM_PTR` returns on atoms only. -/
theorem run_erlAtomPtr_eq_ret {t : Option Term} {name : List Byte} {s' : σ}
    (h : (erlAtomPtr t).run s = .ret (name, s')) : t = some (.atom name) ∧ s' = s := by
  cases t with
  | none => simp at h
  | some t =>
      cases t with
      | atom n =>
          rw [run_erlAtomPtr_atom] at h
          obtain ⟨rfl, rfl⟩ := Outcome.pair_inj h
          exact ⟨rfl, rfl⟩
      | _ => exact absurd h (by simp [erlAtomPtr])

end SgxErlang
