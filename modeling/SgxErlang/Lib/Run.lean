import SgxErlang.Lib.Exec

/-!
# Runs of a machine that is fed a list of inputs

A machine is a function `step : ι → Exec σ ο`: it takes an input in a state, and either
answers and moves on or ends the run.  `runAll` is a complete run, `trace` is what an
observer sees of it (the answers up to the step that ended it, that step included), and
`Along step P s is` says that `P` holds at every step the run takes.

## Main definitions

* `runAll step is` — run all inputs; fails as a whole if one step does not return.
* `trace step s is` — the outcomes an observer sees.
* `Along step P s is` — `P` holds of the state and the input at every step taken.

## Main results

* `along_iff_forall_split` — `Along` in terms of the states reached by the prefixes.
* `Along.invariant`, `along_congr` — the invariant rules.
* `trace_rel_of_simulation` — the simulation rule for two machines.
* `runAll_alike_iff` — the lockstep rule: when two machines give the same answers.
-/

namespace SgxErlang

universe u

variable {σ τ ι κ ο ρ : Type u}

/-- Run all inputs in order and collect the answers. -/
def runAll (step : ι → Exec σ ο) : List ι → Exec σ (List ο)
  | [] => pure []
  | i :: is => do
      let o ← step i
      let os ← runAll step is
      pure (o :: os)

/-- What an observer sees of a run: the outcome of every step that is taken. -/
def trace (step : ι → Exec σ ο) : σ → List ι → List (Outcome ο)
  | _, [] => []
  | s, i :: is =>
      match (step i).run s with
      | .ret (o, s') => .ret o :: trace step s' is
      | .aborted => [.aborted]
      | .crashed => [.crashed]
      | .undefined => [.undefined]

/-- `P` holds of the state and the input at every step that is taken. -/
def Along (step : ι → Exec σ ο) (P : σ → ι → Prop) : σ → List ι → Prop
  | _, [] => True
  | s, i :: is => P s i ∧ ∀ o s', (step i).run s = .ret (o, s') → Along step P s' is

variable {step : ι → Exec σ ο} {P Q : σ → ι → Prop}

@[simp] theorem runAll_nil : runAll step [] = pure [] := rfl

theorem runAll_cons_eq_ret_iff {i : ι} {is : List ι} {s s'' : σ} {os : List ο} :
    (runAll step (i :: is)).run s = .ret (os, s'') ↔
      ∃ o s' os', (step i).run s = .ret (o, s') ∧
        (runAll step is).run s' = .ret (os', s'') ∧ os = o :: os' := by
  simp only [runAll, StateT.run_bind, StateT.run_pure, Outcome.bind_eq_ret_iff,
    Outcome.pure_eq, Outcome.ret.injEq, Prod.mk.injEq, Prod.exists]
  constructor
  · rintro ⟨o, s', hs, os', t, hr, rfl, rfl⟩
    exact ⟨o, s', os', hs, hr, rfl⟩
  · rintro ⟨o, s', os', hs, hr, rfl⟩
    exact ⟨o, s', hs, os', s'', hr, rfl, rfl⟩

/-- A run followed by one more step. -/
theorem runAll_append_singleton_ret {is : List ι} {i : ι} {s s' s'' : σ} {os : List ο} {o : ο}
    (hrun : (runAll step is).run s = .ret (os, s')) (hstep : (step i).run s' = .ret (o, s'')) :
    (runAll step (is ++ [i])).run s = .ret (os ++ [o], s'') := by
  induction is generalizing s os with
  | nil =>
      obtain ⟨rfl, rfl⟩ := Outcome.pair_inj hrun
      exact runAll_cons_eq_ret_iff.mpr ⟨o, s'', [], hstep, rfl, rfl⟩
  | cons j js ih =>
      obtain ⟨p, t, ps, hj, hjs, rfl⟩ := runAll_cons_eq_ret_iff.mp hrun
      exact runAll_cons_eq_ret_iff.mpr ⟨p, t, ps ++ [o], hj, ih hjs, rfl⟩

/-- The last step of a run, apart from the others. -/
theorem runAll_append_singleton_eq_ret_iff {is : List ι} {i : ι} {s s'' : σ} {os : List ο} :
    (runAll step (is ++ [i])).run s = .ret (os, s'') ↔
      ∃ os' s' o, (runAll step is).run s = .ret (os', s') ∧
        (step i).run s' = .ret (o, s'') ∧ os = os' ++ [o] := by
  constructor
  · intro h
    induction is generalizing s os with
    | nil =>
        obtain ⟨o, s', os', hstep, hnil, rfl⟩ := runAll_cons_eq_ret_iff.mp h
        obtain ⟨rfl, rfl⟩ := Outcome.pair_inj hnil
        exact ⟨[], s, o, rfl, hstep, rfl⟩
    | cons j js ih =>
        obtain ⟨p, t, ps, hj, hrest, rfl⟩ := runAll_cons_eq_ret_iff.mp h
        obtain ⟨os', s', o, hjs, hstep, rfl⟩ := ih hrest
        exact ⟨p :: os', s', o, runAll_cons_eq_ret_iff.mpr ⟨p, t, os', hj, hjs, rfl⟩, hstep, rfl⟩
  · rintro ⟨os', s', o, hrun, hstep, rfl⟩
    exact runAll_append_singleton_ret hrun hstep

/-- What holds of each entry and those before it, with one more entry. -/
theorem forall_split_append_singleton {γ : Type*} {P : List γ → γ → Prop} {log : List γ} {x : γ}
    (h : ∀ pre c post, log = pre ++ c :: post → P pre c) (hx : P log x) :
    ∀ pre c post, log ++ [x] = pre ++ c :: post → P pre c := by
  intro pre c post hlog
  rcases List.eq_nil_or_concat post with rfl | ⟨post, c', rfl⟩
  · obtain ⟨rfl, hc⟩ := List.append_inj' hlog rfl
    rwa [← List.singleton_inj.mp hc]
  · rw [List.concat_eq_append, ← List.cons_append, ← List.append_assoc] at hlog
    obtain ⟨hpre, -⟩ := List.append_inj' hlog rfl
    exact h pre c post hpre

@[simp] theorem trace_nil (s : σ) : trace step s [] = [] := rfl

theorem trace_cons_ret {i : ι} {is : List ι} {s s' : σ} {o : ο}
    (h : (step i).run s = .ret (o, s')) :
    trace step s (i :: is) = .ret o :: trace step s' is := by
  simp [trace, h]

/-- A step that stops the host is the last one that is seen. -/
theorem trace_cons_stopped {i : ι} {s : σ} (h : ((step i).run s).Stopped) (is : List ι) :
    ∃ x : Outcome ο, x.Stopped ∧ trace step s (i :: is) = [x] := by
  cases hs : (step i).run s with
  | ret p => rw [hs] at h; exact h.elim
  | aborted => exact ⟨.aborted, trivial, by simp [trace, hs]⟩
  | crashed => exact ⟨.crashed, trivial, by simp [trace, hs]⟩
  | undefined => rw [hs] at h; exact h.elim

@[simp] theorem along_nil (s : σ) : Along step P s [] := trivial

theorem along_cons_iff {i : ι} {is : List ι} {s : σ} :
    Along step P s (i :: is) ↔
      P s i ∧ ∀ o s', (step i).run s = .ret (o, s') → Along step P s' is := Iff.rfl

theorem along_cons_of_ret {i : ι} {is : List ι} {s s' : σ} {o : ο}
    (h : (step i).run s = .ret (o, s')) :
    Along step P s (i :: is) ↔ P s i ∧ Along step P s' is := by
  rw [along_cons_iff]
  refine and_congr_right fun _ => ⟨fun hall => hall o s' h, fun his p t hp => ?_⟩
  obtain ⟨-, rfl⟩ := Outcome.pair_inj (h.symm.trans hp)
  exact his

/-- `Along`, said of the prefixes: `P` holds of every state that a prefix of the inputs
leads to and of the input that comes next. -/
theorem along_iff_forall_split {is : List ι} {s : σ} :
    Along step P s is ↔
      ∀ pre i post, is = pre ++ i :: post →
        ∀ os s', (runAll step pre).run s = .ret (os, s') → P s' i := by
  induction is generalizing s with
  | nil => simp
  | cons j js ih =>
      constructor
      · rintro ⟨hj, hjs⟩ pre i post heq os s' hrun
        cases pre with
        | nil =>
            obtain ⟨rfl, -⟩ := List.cons.inj heq
            obtain ⟨-, rfl⟩ := Outcome.pair_inj hrun
            exact hj
        | cons k pre =>
            obtain ⟨rfl, htail⟩ := List.cons.inj heq
            obtain ⟨o, t, os', hstep, hrest, -⟩ := runAll_cons_eq_ret_iff.mp hrun
            exact ih.mp (hjs o t hstep) pre i post htail os' s' hrest
      · intro h
        refine ⟨h [] j js rfl [] s rfl, ?_⟩
        intro o s' hstep
        refine ih.mpr ?_
        rintro pre i post rfl os t hrun
        exact h (j :: pre) i post rfl (o :: os) t
          (runAll_cons_eq_ret_iff.mpr ⟨o, s', os, hstep, hrun, rfl⟩)

theorem Along.mono {is : List ι} {s : σ} (h : Along step P s is)
    (hPQ : ∀ s i, P s i → Q s i) : Along step Q s is := by
  induction is generalizing s with
  | nil => trivial
  | cons i is ih => exact ⟨hPQ s i h.1, fun o s' hs => ih (h.2 o s' hs)⟩

/-- What holds of every state and input holds along every run. -/
theorem Along.of_forall (h : ∀ s i, P s i) (is : List ι) (s : σ) : Along step P s is := by
  induction is generalizing s with
  | nil => trivial
  | cons i is ih => exact ⟨h s i, fun _ s' _ => ih s'⟩

/-- The part of a run that comes first. -/
theorem Along.of_append {pre post : List ι} {s : σ} (h : Along step P s (pre ++ post)) :
    Along step P s pre := by
  induction pre generalizing s with
  | nil => trivial
  | cons i pre ih => exact ⟨h.1, fun o s' hs => ih (h.2 o s' hs)⟩

/-- The invariant rule, for the state at the end of the run. -/
theorem Along.inv_of_run {Inv : σ → Prop}
    (hstep : ∀ s i o s', Inv s → P s i → (step i).run s = .ret (o, s') → Inv s')
    {is : List ι} {s s' : σ} {os : List ο} (hs : Inv s) (h : Along step P s is)
    (hrun : (runAll step is).run s = .ret (os, s')) : Inv s' := by
  induction is generalizing s os with
  | nil =>
      obtain ⟨-, rfl⟩ := Outcome.pair_inj hrun
      exact hs
  | cons i is ih =>
      obtain ⟨o, s₁, rest, hi, his, -⟩ := runAll_cons_eq_ret_iff.mp hrun
      exact ih (hstep s i o s₁ hs h.1 hi) (h.2 o s₁ hi) his

/-- Two step conditions that agree in every state with the invariant agree along every run
whose steps all meet `A`, as long as the steps that meet one of them keep the invariant. -/
theorem along_congr_of {A : σ → ι → Prop} {Inv : σ → Prop}
    (hstep : ∀ s i o s', Inv s → A s i → Q s i → (step i).run s = .ret (o, s') → Inv s')
    (hiff : ∀ s i, Inv s → A s i → (P s i ↔ Q s i)) {is : List ι} {s : σ} (hs : Inv s)
    (hA : Along step A s is) : Along step P s is ↔ Along step Q s is := by
  induction is generalizing s with
  | nil => exact Iff.rfl
  | cons i is ih =>
      simp only [along_cons_iff, hiff s i hs hA.1]
      refine and_congr_right fun hQ => forall_congr' fun o => forall_congr' fun s' => ?_
      exact imp_congr_right fun hr => ih (hstep s i o s' hs hA.1 hQ hr) (hA.2 o s' hr)

/-- Two step conditions that agree in every state with the invariant agree along every
run from such a state. -/
theorem along_congr {Inv : σ → Prop}
    (hstep : ∀ s i o s', Inv s → (step i).run s = .ret (o, s') → Inv s')
    (hiff : ∀ s i, Inv s → (P s i ↔ Q s i)) {is : List ι} {s : σ} (hs : Inv s) :
    Along step P s is ↔ Along step Q s is :=
  along_congr_of (A := fun _ _ => True) (fun s i o s' hs _ _ hr => hstep s i o s' hs hr)
    (fun s i hs _ => hiff s i hs) hs (Along.of_forall (fun _ _ => trivial) is s)

/-- A run gets through exactly when every step of it returns. -/
theorem exists_runAll_iff_along {Inv : σ → Prop}
    (hret : ∀ s i, Inv s → (P s i ↔ ∃ o s', (step i).run s = .ret (o, s')))
    (hstep : ∀ s i o s', Inv s → (step i).run s = .ret (o, s') → Inv s') {is : List ι} {s : σ}
    (hs : Inv s) : (∃ os s', (runAll step is).run s = .ret (os, s')) ↔ Along step P s is := by
  induction is generalizing s with
  | nil => exact ⟨fun _ => trivial, fun _ => ⟨[], s, rfl⟩⟩
  | cons i is ih =>
      constructor
      · rintro ⟨os, s', h⟩
        obtain ⟨o, t, os', hi, his, -⟩ := runAll_cons_eq_ret_iff.mp h
        refine (along_cons_of_ret hi).mpr ⟨(hret s i hs).mpr ⟨o, t, hi⟩, ?_⟩
        exact (ih (hstep s i o t hs hi)).mp ⟨os', s', his⟩
      · intro h
        obtain ⟨o, t, hi⟩ := (hret s i hs).mp h.1
        obtain ⟨os, s', his⟩ := (ih (hstep s i o t hs hi)).mpr (h.2 o t hi)
        exact ⟨o :: os, s', runAll_cons_eq_ret_iff.mpr ⟨o, t, os, hi, his, rfl⟩⟩

/-- The simulation rule.  If related states answer related inputs alike and stay related,
at every step that meets `C`, then the two observers see related runs. -/
theorem trace_rel_of_simulation {step' : κ → Exec τ ρ} (R : σ → τ → Prop)
    (I : ι → κ → Prop) (O : ο → ρ → Prop) (C : σ → ι → Prop)
    (hsim : ∀ s t i j, R s t → I i j → C s i →
      Outcome.Rel (fun p q => O p.1 q.1 ∧ R p.2 q.2) ((step i).run s) ((step' j).run t))
    {is : List ι} {js : List κ} (hI : List.Forall₂ I is js) {s : σ} {t : τ} (hR : R s t)
    (hC : Along step C s is) :
    List.Forall₂ (Outcome.Rel O) (trace step s is) (trace step' t js) := by
  induction hI generalizing s t with
  | nil => exact .nil
  | @cons i j is js hij _ ih =>
      rcases (hsim s t i j hR hij hC.1).cases with ⟨p, q, hs, ht, ho, hst⟩ | ⟨hs, ht⟩
      · rw [trace_cons_ret hs, trace_cons_ret ht]
        exact .cons ho (ih hst (hC.2 p.1 p.2 hs))
      · obtain ⟨x, hx, htr⟩ := trace_cons_stopped hs is
        obtain ⟨y, hy, htr'⟩ := trace_cons_stopped ht js
        rw [htr, htr']
        exact .cons (Outcome.rel_of_stopped hx hy) .nil

/-- The lockstep rule.  If from related states both machines always return, stay related,
and give the same answer exactly when `C` holds, then they run alike exactly when `C` holds
at every step. -/
theorem runAll_alike_iff {step' : ι → Exec τ ο} (R E : σ → τ → Prop) (C : σ → ι → Prop)
    (hE : ∀ s t, R s t → E s t)
    (hstep : ∀ s t i, R s t → ∃ o s' o' t', (step i).run s = .ret (o, s') ∧
      (step' i).run t = .ret (o', t') ∧ R s' t' ∧ (o = o' ↔ C s i))
    (is : List ι) {s : σ} {t : τ} (hR : R s t) :
    (∃ os s' t', (runAll step is).run s = .ret (os, s') ∧
        (runAll step' is).run t = .ret (os, t') ∧ E s' t') ↔ Along step C s is := by
  induction is generalizing s t with
  | nil => exact ⟨fun _ => trivial, fun _ => ⟨[], s, t, rfl, rfl, hE s t hR⟩⟩
  | cons i is ih =>
      obtain ⟨o, s₁, o', t₁, hs, ht, hR₁, hC⟩ := hstep s t i hR
      simp only [along_cons_iff, ← hC, runAll_cons_eq_ret_iff, hs, ht, Outcome.ret.injEq,
        Prod.mk.injEq]
      constructor
      · rintro ⟨_, s', t', ⟨_, _, os, ⟨rfl, rfl⟩, hrs, rfl⟩,
          ⟨_, _, os', ⟨rfl, rfl⟩, hrt, heq⟩, hend⟩
        obtain ⟨rfl, rfl⟩ := List.cons.inj heq
        refine ⟨rfl, ?_⟩
        rintro _ _ ⟨rfl, rfl⟩
        exact (ih hR₁).mp ⟨os, s', t', hrs, hrt, hend⟩
      · rintro ⟨rfl, hrest⟩
        obtain ⟨os, s', t', hrs, hrt, hend⟩ := (ih hR₁).mpr (hrest o s₁ ⟨rfl, rfl⟩)
        exact ⟨o :: os, s', t', ⟨o, s₁, os, ⟨rfl, rfl⟩, hrs, rfl⟩,
          ⟨o, t₁, os, ⟨rfl, rfl⟩, hrt, rfl⟩, hend⟩

end SgxErlang
