import SgxErlang.Lib.Exec

/-!
# Handlers that break off with an error code

A C function that serves a request often runs through a list of steps and breaks off at the
first one that fails, with an error code.  What the steps before have stored stays stored:
nothing is rolled back.  `Handler ε σ α` is such a computation over a state `σ`, and `exec`
runs it; after an error the state is the one that the steps before it have left.

## Main results

* `exec_bind_ok`, `exec_bind_error` — the rules for sequences.
-/

namespace SgxErlang

universe u

/-- A computation over `σ` that may break off with an error code. -/
abbrev Handler (ε σ α : Type u) := ExceptT ε (Exec σ) α

namespace Handler

variable {ε σ α β : Type u}

/-- Run a handler. -/
def exec (p : Handler ε σ α) (s : σ) : Outcome (Except ε α × σ) := (ExceptT.run p).run s

/-- Go on if `c` holds, and otherwise break off with `e`. -/
def require (c : Bool) (e : ε) : Handler ε σ PUnit := if c then pure ⟨⟩ else throw e

/-- Stop the host through a null dereference. -/
def crash : Handler ε σ α := ExceptT.lift Exec.crash

/-- Leave the defined behaviour of C. -/
def undefinedBehaviour : Handler ε σ α := ExceptT.lift Exec.undefinedBehaviour

variable {p : Handler ε σ α} {f : α → Handler ε σ β} {s t : σ}

@[simp] theorem exec_pure (a : α) (s : σ) : exec (pure a : Handler ε σ α) s = .ret (.ok a, s) := rfl
@[simp] theorem exec_throw (e : ε) (s : σ) :
    exec (throw e : Handler ε σ α) s = .ret (.error e, s) := rfl
@[simp] theorem exec_get (s : σ) : exec (get : Handler ε σ σ) s = .ret (.ok s, s) := rfl
@[simp] theorem exec_modify (g : σ → σ) (s : σ) :
    exec (modify g : Handler ε σ PUnit) s = .ret (.ok ⟨⟩, g s) := rfl
@[simp] theorem exec_crash (s : σ) : exec (crash : Handler ε σ α) s = .crashed := rfl
@[simp] theorem exec_undefinedBehaviour (s : σ) :
    exec (undefinedBehaviour : Handler ε σ α) s = .undefined := rfl

@[simp] theorem exec_require_true (e : ε) (s : σ) :
    exec (require true e : Handler ε σ PUnit) s = .ret (.ok ⟨⟩, s) := rfl
@[simp] theorem exec_require_false (e : ε) (s : σ) :
    exec (require false e : Handler ε σ PUnit) s = .ret (.error e, s) := rfl

theorem exec_require (c : Bool) (e : ε) (s : σ) :
    exec (require c e : Handler ε σ PUnit) s =
      if c then .ret (.ok ⟨⟩, s) else .ret (.error e, s) := by
  cases c <;> rfl

theorem exec_ite (c : Prop) [Decidable c] (p q : Handler ε σ α) (s : σ) :
    exec (if c then p else q) s = if c then exec p s else exec q s := by
  split_ifs <;> rfl

theorem exec_bind (p : Handler ε σ α) (f : α → Handler ε σ β) (s : σ) :
    exec (p >>= f) s = exec p s >>= fun
      | (.ok a, t) => exec (f a) t
      | (.error e, t) => .ret (.error e, t) := by
  simp only [exec, ExceptT.run_bind, StateT.run_bind]
  congr 1
  funext ⟨r, t⟩
  cases r <;> rfl

/-- After a step that succeeds the rest runs. -/
theorem exec_bind_ok {a : α} (h : exec p s = .ret (.ok a, t)) (f : α → Handler ε σ β) :
    exec (p >>= f) s = exec (f a) t := by
  rw [exec_bind, h, Outcome.ret_bind]

/-- After a step that fails nothing runs. -/
theorem exec_bind_error {e : ε} (h : exec p s = .ret (.error e, t)) (f : α → Handler ε σ β) :
    exec (p >>= f) s = .ret (.error e, t) := by
  rw [exec_bind, h, Outcome.ret_bind]

/-- A step that either succeeds or fails lets the rest run or ends the handler. -/
theorem exec_bind_of_ite {a : α} {e : ε} {c : Bool} {t' : σ}
    (h : exec p s = if c then .ret (.ok a, t) else .ret (.error e, t'))
    (f : α → Handler ε σ β) :
    exec (p >>= f) s = if c then exec (f a) t else .ret (.error e, t') := by
  cases c with
  | true => exact exec_bind_ok h f
  | false => exact exec_bind_error h f

end Handler

end SgxErlang
