import Mathlib.Data.List.Induction
import Mathlib.Tactic.Common

/-!
# Records that are written in stages

A record with several fields is often filled in one group of fields after the other, by an
operation that may break off in between.  What it has stored by then stays, so the record
may end up with fields of different writes: it is torn.

Fields have a `rank`, the stage in which they are written.  A write has a `reach`, the
number of stages it got through, and the values it would store if it got through all of
them.  Each field then holds what the last write that reached it has stored.

## Main results

* `writeAll_apply` — what a field holds after any sequence of writes.
* `writeAll_eq_of_whole` — after a write that got through, all fields are its own, whatever
  is torn before it.
-/

namespace SgxErlang

universe u v

variable {ι : Type u} {V : Type v}

/-- A write of a record with fields `ι`. -/
structure StagedWrite (ι : Type u) (V : Type v) where
  /-- The number of stages it gets through. -/
  reach : ℕ
  /-- What it stores. -/
  fresh : ι → V

namespace StagedWrite

variable (rank : ι → ℕ)

/-- The record after a write. -/
def apply (w : StagedWrite ι V) (old : ι → V) : ι → V := fun i =>
  if rank i < w.reach then w.fresh i else old i

/-- The write stores every field. -/
def Whole (w : StagedWrite ι V) : Prop := ∀ i, rank i < w.reach

/-- The record after a sequence of writes. -/
def writeAll (ws : List (StagedWrite ι V)) (init : ι → V) : ι → V :=
  ws.foldl (fun s w => w.apply rank s) init

/-- The last write that reaches a field. -/
def lastReaching (i : ι) (ws : List (StagedWrite ι V)) : Option (StagedWrite ι V) :=
  (ws.filter fun w => rank i < w.reach).getLast?

variable {rank} {w : StagedWrite ι V} {ws : List (StagedWrite ι V)} {init : ι → V}

@[simp] theorem writeAll_nil : writeAll rank [] init = init := rfl

theorem writeAll_snoc : writeAll rank (ws ++ [w]) init = w.apply rank (writeAll rank ws init) := by
  simp only [writeAll, List.foldl_append, List.foldl_cons, List.foldl_nil]

theorem lastReaching_snoc (i : ι) : lastReaching rank i (ws ++ [w]) =
    if rank i < w.reach then some w else lastReaching rank i ws := by
  by_cases h : rank i < w.reach
  · simp [lastReaching, List.filter_append, h]
  · simp [lastReaching, List.filter_append, h]

/-- Each field holds what the last write that reached it has stored. -/
theorem writeAll_apply (i : ι) : writeAll rank ws init i =
    match lastReaching rank i ws with
    | some w => w.fresh i
    | none => init i := by
  induction ws using List.reverseRecOn with
  | nil => rfl
  | append_singleton ws w ih =>
      rw [writeAll_snoc, lastReaching_snoc, apply, ih]
      by_cases h : rank i < w.reach
      · rw [if_pos h, if_pos h]
      · rw [if_neg h, if_neg h]

/-- After a write that got through, all fields are its own. -/
theorem writeAll_eq_of_whole (h : w.Whole rank) : writeAll rank (ws ++ [w]) init = w.fresh := by
  rw [writeAll_snoc]
  funext i
  exact if_pos (h i)

end StagedWrite

end SgxErlang
