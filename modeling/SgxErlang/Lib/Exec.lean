import Mathlib.Logic.Basic
import Mathlib.Tactic.Common

/-!
# Outcomes of C code, and stateful programs over them

A C function that is called from a long-running host either returns a value, stops
the host through `abort()`, stops it through a memory fault, or leaves the defined
behaviour of the language altogether.  `Outcome` keeps the four apart: a host that is
stopped cannot be compared with one that goes on, and nothing at all can be said
after undefined behaviour.

`Exec σ α` threads a state through such a computation.  It is the standard state
transformer over `Outcome`, so every rule about sequencing is the library's own; only
the outcome monad is new.
-/

namespace SgxErlang

universe u v

/-- What one run of a piece of C code comes to. -/
inductive Outcome (α : Type u) where
  /-- It returned a value. -/
  | ret (a : α)
  /-- It called `abort()`. -/
  | aborted
  /-- It ran into memory that is not mapped: behind a null pointer, or past the stack. -/
  | crashed
  /-- It left the defined behaviour of C: anything may follow. -/
  | undefined
  deriving DecidableEq, Repr

namespace Outcome

variable {α β γ : Type u}

/-- Go on with the value if there is one; otherwise the host has already stopped. -/
def bind (x : Outcome α) (f : α → Outcome β) : Outcome β :=
  match x with
  | .ret a => f a
  | .aborted => .aborted
  | .crashed => .crashed
  | .undefined => .undefined

instance : Monad Outcome where
  pure := .ret
  bind := bind

@[simp] theorem pure_eq (a : α) : (pure a : Outcome α) = .ret a := rfl
@[simp] theorem ret_bind (a : α) (f : α → Outcome β) : (Outcome.ret a >>= f) = f a := rfl
@[simp] theorem map_ret (f : α → β) (a : α) : f <$> Outcome.ret a = .ret (f a) := rfl
@[simp] theorem map_aborted (f : α → β) : f <$> (Outcome.aborted : Outcome α) = .aborted := rfl
@[simp] theorem map_crashed (f : α → β) : f <$> (Outcome.crashed : Outcome α) = .crashed := rfl
@[simp] theorem map_undefined (f : α → β) :
    f <$> (Outcome.undefined : Outcome α) = .undefined := rfl
@[simp] theorem aborted_bind (f : α → Outcome β) : (Outcome.aborted >>= f) = .aborted := rfl
@[simp] theorem crashed_bind (f : α → Outcome β) : (Outcome.crashed >>= f) = .crashed := rfl
@[simp] theorem undefined_bind (f : α → Outcome β) :
    (Outcome.undefined >>= f) = .undefined := rfl

instance : LawfulMonad Outcome := LawfulMonad.mk' Outcome
  (by intro α x; cases x <;> rfl)
  (by intro α β a f; rfl)
  (by intro α β γ x f g; cases x <;> rfl)

/-- A computation ends in one way only. -/
theorem pair_inj {a a' : α} {b b' : β} (h : Outcome.ret (a, b) = .ret (a', b')) :
    a = a' ∧ b = b' :=
  Prod.mk.inj (Outcome.ret.inj h)

/-- The host is stopped, in a defined way. -/
def Stopped : Outcome α → Prop
  | .aborted => True
  | .crashed => True
  | _ => False

/-- Two outcomes agree up to `R`: both return, related values, or both stop the host.
Undefined behaviour agrees with nothing, itself included. -/
def Rel (R : α → β → Prop) : Outcome α → Outcome β → Prop
  | .ret a, .ret b => R a b
  | x, y => x.Stopped ∧ y.Stopped

@[simp] theorem rel_ret (R : α → β → Prop) (a : α) (b : β) :
    Rel R (.ret a) (.ret b) ↔ R a b := Iff.rfl
@[simp] theorem rel_aborted_self (R : α → β → Prop) :
    Rel R (Outcome.aborted) (Outcome.aborted) := ⟨trivial, trivial⟩
@[simp] theorem rel_crashed_self (R : α → β → Prop) :
    Rel R (Outcome.crashed) (Outcome.crashed) := ⟨trivial, trivial⟩
@[simp] theorem rel_aborted_crashed (R : α → β → Prop) :
    Rel R (Outcome.aborted) (Outcome.crashed) := ⟨trivial, trivial⟩

theorem Rel.cases {R : α → β → Prop} {x : Outcome α} {y : Outcome β} (h : Rel R x y) :
    (∃ a b, x = .ret a ∧ y = .ret b ∧ R a b) ∨ (x.Stopped ∧ y.Stopped) := by
  cases x with
  | ret a =>
      cases y with
      | ret b => exact .inl ⟨a, b, rfl, rfl, h⟩
      | aborted => exact .inr h
      | crashed => exact .inr h
      | undefined => exact .inr h
  | aborted => exact .inr h
  | crashed => exact .inr h
  | undefined => exact .inr h

theorem rel_of_stopped {R : α → β → Prop} {x : Outcome α} {y : Outcome β}
    (hx : x.Stopped) (hy : y.Stopped) : Rel R x y := by
  cases x with
  | ret a => exact hx.elim
  | aborted => exact ⟨hx, hy⟩
  | crashed => exact ⟨hx, hy⟩
  | undefined => exact ⟨hx, hy⟩

theorem Rel.imp {R S : α → β → Prop} {x : Outcome α} {y : Outcome β} (h : Rel R x y)
    (hRS : ∀ a b, R a b → S a b) : Rel S x y := by
  rcases h.cases with ⟨a, b, rfl, rfl, hab⟩ | ⟨hx, hy⟩
  · exact hRS a b hab
  · exact rel_of_stopped hx hy

/-- The rule for sequences. -/
theorem Rel.bind {δ : Type u} {R : α → β → Prop} {S : γ → δ → Prop} {x : Outcome α}
    {y : Outcome β} {f : α → Outcome γ} {g : β → Outcome δ} (h : Rel R x y)
    (hfg : ∀ a b, R a b → Rel S (f a) (g b)) : Rel S (x >>= f) (y >>= g) := by
  rcases h.cases with ⟨a, b, rfl, rfl, hab⟩ | ⟨hx, hy⟩
  · exact hfg a b hab
  · apply rel_of_stopped
    · cases x <;> first | exact hx.elim | trivial
    · cases y <;> first | exact hy.elim | trivial

/-- A sequence returns exactly when both of its parts do. -/
theorem bind_eq_ret_iff {x : Outcome α} {f : α → Outcome β} {b : β} :
    (x >>= f) = .ret b ↔ ∃ a, x = .ret a ∧ f a = .ret b := by
  cases x <;> simp

end Outcome

/-- A stateful computation that ends in an `Outcome`. -/
abbrev Exec (σ : Type u) (α : Type u) := StateT σ Outcome α

namespace Exec

variable {σ α : Type u}

/-- Stop the host through `abort()`. -/
def abort : Exec σ α := fun _ => .aborted

/-- Stop the host through a null dereference. -/
def crash : Exec σ α := fun _ => .crashed

/-- Leave the defined behaviour of C. -/
def undefinedBehaviour : Exec σ α := fun _ => .undefined

/-- Run `p` behind a boundary that reports a fault as an error, and abort on that error. -/
def abortOnCrash (p : Exec σ α) : Exec σ α := fun s =>
  match p.run s with
  | .crashed => .aborted
  | x => x

@[simp] theorem run_abort (s : σ) : (abort : Exec σ α).run s = .aborted := rfl
@[simp] theorem run_crash (s : σ) : (crash : Exec σ α).run s = .crashed := rfl
@[simp] theorem run_undefinedBehaviour (s : σ) :
    (undefinedBehaviour : Exec σ α).run s = .undefined := rfl

theorem run_abortOnCrash (p : Exec σ α) (s : σ) :
    (abortOnCrash p).run s = match p.run s with
      | .crashed => .aborted
      | x => x := rfl

@[simp] theorem run_abortOnCrash_eq_ret_iff {p : Exec σ α} {s : σ} {r : α × σ} :
    (abortOnCrash p).run s = .ret r ↔ p.run s = .ret r := by
  rw [run_abortOnCrash]
  cases p.run s <;> simp

end Exec

end SgxErlang
