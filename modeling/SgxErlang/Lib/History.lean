import Mathlib.Algebra.Order.Group.Nat
import Mathlib.Data.List.Induction
import Mathlib.Data.List.Nodup
import Mathlib.Data.List.Perm.Subperm
import Mathlib.Tactic.Common

/-!
# Concurrent histories and their linearization

A history is the list of events of a concurrent object in the order of real time.  Every
call is invoked, takes effect at one moment, and responds; the moment of the effect is the
linearization point, and the calls in the order of their effects are the sequential
history that is compared with the specification.

`Admits h e` says that `e` may come next after `h`.  A history that was built one admitted
event after the other is `WellPaced`, and for those the order of the effects respects real
time: a call that responded before another was invoked comes first.  What is left to prove
for a concrete system is then only that each of its steps appends admitted events, and that
each effect is what the specification says.

## Main results

* `WellPaced.effects_before` — the order of the effects respects real time.
* `WellPaced.linearizes` — a well-paced history with lawful effects is linearizable, by the
  order of its effects.
* `WellPaced.returned_le_countBefore`, `WellPaced.countBefore_le_started` — what a call can
  see of the others, between the calls that returned before it and those started by its end.
-/

namespace SgxErlang

universe u

variable {ι α β σ : Type u}

/-- An event in the life of a call `c`. -/
inductive Event (ι α β : Type u) where
  | invoke (c : ι) (op : α)
  | effect (c : ι) (op : α) (r : β)
  | respond (c : ι) (r : β)

namespace Event

/-- The call an event belongs to. -/
def call : Event ι α β → ι
  | .invoke c _ => c
  | .effect c _ _ => c
  | .respond c _ => c

/-- The call that responds, if the event is a response. -/
def respond? : Event ι α β → Option ι
  | .respond c _ => some c
  | _ => none

/-- The call and its operation, if the event is an invocation. -/
def invoke? : Event ι α β → Option (ι × α)
  | .invoke c op => some (c, op)
  | _ => none

/-- The completed operation an effect stands for. -/
def effect? : Event ι α β → Option (ι × α × β)
  | .effect c op r => some (c, op, r)
  | _ => none

end Event

/-- `a` comes before `b` in `l`. -/
def Before {γ : Type u} (a b : γ) (l : List γ) : Prop :=
  ∃ l₁ l₂, l = l₁ ++ l₂ ∧ a ∈ l₁ ∧ b ∈ l₂

theorem Before.append_right {γ : Type u} {a b : γ} {l : List γ} (h : Before a b l)
    (l' : List γ) : Before a b (l ++ l') := by
  obtain ⟨l₁, l₂, rfl, ha, hb⟩ := h
  exact ⟨l₁, l₂ ++ l', by simp, ha, List.mem_append_left _ hb⟩

/-- Adding one element at the end adds only pairs that end in it. -/
theorem before_append_singleton_iff {γ : Type u} {a b e : γ} {l : List γ} :
    Before a b (l ++ [e]) ↔ Before a b l ∨ (a ∈ l ∧ b = e) := by
  constructor
  · rintro ⟨l₁, l₂, heq, ha, hb⟩
    rcases List.eq_nil_or_concat l₂ with rfl | ⟨l₂, e', rfl⟩
    · exact absurd hb (by simp)
    · rw [List.concat_eq_append, ← List.append_assoc] at heq
      obtain ⟨rfl, he⟩ := List.append_inj' heq rfl
      obtain rfl : e = e' := by simpa using he
      rw [List.concat_eq_append, List.mem_append, List.mem_singleton] at hb
      rcases hb with hb | rfl
      · exact .inl ⟨l₁, l₂, rfl, ha, hb⟩
      · exact .inr ⟨List.mem_append_left _ ha, rfl⟩
  · rintro (h | ⟨ha, rfl⟩)
    · exact h.append_right [e]
    · exact ⟨l, [b], rfl, ha, by simp⟩

/-- The completed operations of a history, in the order in which they took effect. -/
def effects (h : List (Event ι α β)) : List (ι × α × β) := h.filterMap Event.effect?

theorem mem_effects_iff {h : List (Event ι α β)} {c : ι} {op : α} {r : β} :
    (c, op, r) ∈ effects h ↔ Event.effect c op r ∈ h := by
  simp only [effects, List.mem_filterMap]
  constructor
  · rintro ⟨e, he, heff⟩
    cases e <;> simp_all [Event.effect?]
  · exact fun he => ⟨_, he, rfl⟩

@[simp] theorem effects_append (h h' : List (Event ι α β)) :
    effects (h ++ h') = effects h ++ effects h' := List.filterMap_append

@[simp] theorem effects_invoke (c : ι) (op : α) :
    effects ([.invoke c op] : List (Event ι α β)) = [] := rfl
@[simp] theorem effects_effect (c : ι) (op : α) (r : β) :
    effects [Event.effect c op r] = [(c, op, r)] := rfl
@[simp] theorem effects_respond (c : ι) (r : β) :
    effects ([.respond c r] : List (Event ι α β)) = [] := rfl

/-- The calls that have responded, in order. -/
def responds (h : List (Event ι α β)) : List ι := h.filterMap Event.respond?

theorem mem_responds_iff {h : List (Event ι α β)} {c : ι} :
    c ∈ responds h ↔ ∃ r, Event.respond c r ∈ h := by
  simp only [responds, List.mem_filterMap]
  constructor
  · rintro ⟨e, he, hresp⟩
    cases e with
    | respond c' r =>
        obtain rfl : c' = c := by simpa [Event.respond?] using hresp
        exact ⟨r, he⟩
    | invoke c' op => simp [Event.respond?] at hresp
    | effect c' op r => simp [Event.respond?] at hresp
  · rintro ⟨r, he⟩
    exact ⟨_, he, rfl⟩

@[simp] theorem responds_append (h h' : List (Event ι α β)) :
    responds (h ++ h') = responds h ++ responds h' := List.filterMap_append

@[simp] theorem responds_invoke (c : ι) (op : α) :
    responds ([.invoke c op] : List (Event ι α β)) = [] := rfl
@[simp] theorem responds_effect (c : ι) (op : α) (r : β) :
    responds [Event.effect c op r] = [] := rfl
@[simp] theorem responds_respond (c : ι) (r : β) :
    responds ([.respond c r] : List (Event ι α β)) = [c] := rfl

/-- The event may come next: an invocation is a new call, an effect belongs to a call that
was invoked with that operation and has had none yet, and a response reports the effect of
its call, once. -/
def Admits (h : List (Event ι α β)) : Event ι α β → Prop
  | .invoke c _ => ∀ e ∈ h, e.call ≠ c
  | .effect c op _ => .invoke c op ∈ h ∧ (∀ op' r, .effect c op' r ∉ h) ∧ ∀ r, .respond c r ∉ h
  | .respond c r => (∃ op, .effect c op r ∈ h) ∧ ∀ r', .respond c r' ∉ h

/-- A history that was built one admitted event after the other. -/
inductive WellPaced : List (Event ι α β) → Prop where
  | nil : WellPaced []
  | snoc {h : List (Event ι α β)} {e : Event ι α β} :
      WellPaced h → Admits h e → WellPaced (h ++ [e])

namespace WellPaced

variable {h : List (Event ι α β)}

/-- Every effect was invoked. -/
theorem invoke_mem (hw : WellPaced h) {c : ι} {op : α} {r : β}
    (he : Event.effect c op r ∈ h) : Event.invoke c op ∈ h := by
  induction hw with
  | nil => simp at he
  | @snoc h e _ hadm ih =>
      rcases List.mem_append.mp he with he | he
      · exact List.mem_append_left _ (ih he)
      · obtain rfl := List.mem_singleton.mp he
        exact List.mem_append_left _ hadm.1

/-- No call takes effect twice. -/
theorem nodup_effects (hw : WellPaced h) : ((effects h).map Prod.fst).Nodup := by
  induction hw with
  | nil => exact List.nodup_nil
  | @snoc h e _ hadm ih =>
      cases e with
      | invoke c op => simpa using ih
      | respond c r => simpa using ih
      | effect c op r =>
          rw [effects_append, List.map_append, List.nodup_append]
          refine ⟨ih, by simp, ?_⟩
          rintro c' hc' _ hc rfl
          obtain rfl : c' = c := by simpa using hc
          obtain ⟨⟨c₀, op', r'⟩, hmem, rfl⟩ := List.mem_map.mp hc'
          exact hadm.2.1 op' r' (mem_effects_iff.mp hmem)

/-- Every response reports the effect of its call. -/
theorem effect_mem (hw : WellPaced h) {c : ι} {r : β} (he : Event.respond c r ∈ h) :
    ∃ op, Event.effect c op r ∈ h := by
  induction hw with
  | nil => simp at he
  | @snoc h e _ hadm ih =>
      rcases List.mem_append.mp he with he | he
      · obtain ⟨op, hop⟩ := ih he
        exact ⟨op, List.mem_append_left _ hop⟩
      · obtain rfl := List.mem_singleton.mp he
        obtain ⟨op, hop⟩ := hadm.1
        exact ⟨op, List.mem_append_left _ hop⟩

/-- No call responds twice. -/
theorem nodup_responds (hw : WellPaced h) : (responds h).Nodup := by
  induction hw with
  | nil => exact List.nodup_nil
  | @snoc h e _ hadm ih =>
      cases e with
      | invoke c op => simpa using ih
      | effect c op r => simpa using ih
      | respond c r =>
          rw [responds_append, List.nodup_append]
          refine ⟨ih, by simp, ?_⟩
          rintro c' hc' _ hc rfl
          obtain rfl : c' = c := by simpa using hc
          obtain ⟨r', hr'⟩ := mem_responds_iff.mp hc'
          exact hadm.2 r' hr'

/-- The order of the effects respects real time. -/
theorem effects_before (hw : WellPaced h) {c c' : ι} {op' : α} {r r' : β}
    (hc' : (c', op', r') ∈ effects h)
    (hbefore : Before (Event.respond c r) (Event.invoke c' op') h) :
    ∃ op, Before (c, op, r) (c', op', r') (effects h) := by
  induction hw with
  | nil => simp [effects] at hc'
  | @snoc h e hw hadm ih =>
      rcases before_append_singleton_iff.mp hbefore with hbefore | ⟨-, rfl⟩
      · rw [effects_append, List.mem_append] at hc'
        rcases hc' with hc' | hc'
        · obtain ⟨op, hop⟩ := ih hc' hbefore
          exact ⟨op, by rw [effects_append]; exact hop.append_right _⟩
        · -- the later call takes effect only now, and the earlier one already has
          obtain ⟨l₁, l₂, rfl, hresp, -⟩ := hbefore
          obtain ⟨op, hop⟩ := hw.effect_mem (List.mem_append_left l₂ hresp)
          exact ⟨op, effects (l₁ ++ l₂), effects [e], effects_append _ _,
            mem_effects_iff.mpr hop, hc'⟩
      · -- a call that is invoked only now has not taken effect
        have hmem : Event.effect c' op' r' ∈ h := by
          simpa using mem_effects_iff.mp hc'
        exact absurd rfl (hadm _ hmem)

end WellPaced

/-- The state of the specification after some operations. -/
def specState (spec : α → σ → β × σ) (init : σ) (seq : List (ι × α × β)) : σ :=
  seq.foldl (fun s x => (spec x.2.1 s).2) init

@[simp] theorem specState_nil (spec : α → σ → β × σ) (init : σ) :
    specState spec init ([] : List (ι × α × β)) = init := rfl

theorem specState_snoc (spec : α → σ → β × σ) (init : σ) (seq : List (ι × α × β)) (c : ι)
    (op : α) (r : β) :
    specState spec init (seq ++ [(c, op, r)]) = (spec op (specState spec init seq)).2 := by
  simp only [specState, List.foldl_append, List.foldl_cons, List.foldl_nil]

/-- Every result is the one the specification gives after the operations before it. -/
def Lawful (spec : α → σ → β × σ) (init : σ) (seq : List (ι × α × β)) : Prop :=
  ∀ pre c op r post, seq = pre ++ (c, op, r) :: post →
    r = (spec op (specState spec init pre)).1

theorem Lawful.snoc {spec : α → σ → β × σ} {init : σ} {seq : List (ι × α × β)}
    (h : Lawful spec init seq) {c : ι} {op : α} {r : β}
    (hr : r = (spec op (specState spec init seq)).1) : Lawful spec init (seq ++ [(c, op, r)]) := by
  intro pre c' op' r' post heq
  rcases List.eq_nil_or_concat post with rfl | ⟨post, x, rfl⟩
  · obtain ⟨rfl, hlast⟩ := List.append_inj' heq rfl
    obtain ⟨rfl, rfl, rfl⟩ : c = c' ∧ op = op' ∧ r = r' := by simpa using hlast
    exact hr
  · rw [List.concat_eq_append, ← List.cons_append, ← List.append_assoc] at heq
    obtain ⟨rfl, -⟩ := List.append_inj' heq rfl
    exact h pre c' op' r' post rfl

/-- `seq` is a linearization of the history `h`: a lawful sequential history of invoked
calls, each at most once, that contains every call that responded, with the result it
responded with, and that keeps the order of real time. -/
structure Linearizes (spec : α → σ → β × σ) (init : σ) (h : List (Event ι α β))
    (seq : List (ι × α × β)) : Prop where
  lawful : Lawful spec init seq
  nodup : (seq.map Prod.fst).Nodup
  invoked : ∀ c op r, (c, op, r) ∈ seq → .invoke c op ∈ h
  responded : ∀ c r, .respond c r ∈ h → ∃ op, (c, op, r) ∈ seq
  realTime : ∀ c op r c' op' r', (c, op, r) ∈ seq → (c', op', r') ∈ seq →
    Before (.respond c r) (.invoke c' op') h → Before (c, op, r) (c', op', r') seq

/-- A well-paced history with lawful effects is linearizable, by the order of its
effects. -/
theorem WellPaced.linearizes {spec : α → σ → β × σ} {init : σ} {h : List (Event ι α β)}
    (hw : WellPaced h) (hlaw : Lawful spec init (effects h)) :
    Linearizes spec init h (effects h) where
  lawful := hlaw
  nodup := hw.nodup_effects
  invoked := fun _ _ _ hmem => hw.invoke_mem (mem_effects_iff.mp hmem)
  responded := by
    intro c r hresp
    obtain ⟨op, hop⟩ := hw.effect_mem hresp
    exact ⟨op, mem_effects_iff.mpr hop⟩
  realTime := by
    intro c op r c' op' r' hc hc' hbefore
    obtain ⟨op₀, hop₀⟩ := hw.effects_before hc' hbefore
    obtain ⟨l₁, l₂, heq, hmem, -⟩ := id hop₀
    have hmem₀ : (c, op₀, r) ∈ effects h := heq ▸ List.mem_append_left l₂ hmem
    obtain rfl : op₀ = op := by
      have := List.inj_on_of_nodup_map hw.nodup_effects hmem₀ hc rfl
      exact (Prod.mk.inj (Prod.mk.inj this).2).1
    exact hop₀

/-! ## What a call can see of the others -/

/-- The calls that have been invoked, in order. -/
def invokes (h : List (Event ι α β)) : List (ι × α) := h.filterMap Event.invoke?

theorem mem_invokes_iff {h : List (Event ι α β)} {c : ι} {op : α} :
    (c, op) ∈ invokes h ↔ Event.invoke c op ∈ h := by
  simp only [invokes, List.mem_filterMap]
  constructor
  · rintro ⟨e, he, hinv⟩
    cases e <;> simp_all [Event.invoke?]
  · exact fun he => ⟨_, he, rfl⟩

@[simp] theorem invokes_append (h h' : List (Event ι α β)) :
    invokes (h ++ h') = invokes h ++ invokes h' := List.filterMap_append

@[simp] theorem invokes_invoke (c : ι) (op : α) :
    invokes ([.invoke c op] : List (Event ι α β)) = [(c, op)] := rfl
@[simp] theorem invokes_effect (c : ι) (op : α) (r : β) :
    invokes [Event.effect c op r] = [] := rfl
@[simp] theorem invokes_respond (c : ι) (r : β) :
    invokes ([.respond c r] : List (Event ι α β)) = [] := rfl

/-- A list of distinct calls has at most as many members of a kind as another list has, if
it has each of its calls. -/
theorem countP_le_countP_of_calls {γ δ : Type u} {l : List (ι × γ)} {l' : List (ι × δ)}
    {p : ι × γ → Bool} {q : ι × δ → Bool} (hl : (l.map Prod.fst).Nodup)
    (h : ∀ x ∈ l, p x → ∃ y ∈ l', q y ∧ y.1 = x.1) : l.countP p ≤ l'.countP q := by
  have hnodup : ((l.filter p).map Prod.fst).Nodup := hl.sublist (List.filter_sublist.map _)
  have hsub : (l.filter p).map Prod.fst ⊆ (l'.filter q).map Prod.fst := by
    intro c hc
    obtain ⟨x, hx, rfl⟩ := List.mem_map.mp hc
    obtain ⟨hxl, hp⟩ := List.mem_filter.mp hx
    obtain ⟨y, hy, hq, heq⟩ := h x hxl hp
    exact List.mem_map.mpr ⟨y, List.mem_filter.mpr ⟨hy, hq⟩, heq⟩
  have hle := (hnodup.subperm hsub).length_le
  rwa [List.length_map, List.length_map, ← List.countP_eq_length_filter,
    ← List.countP_eq_length_filter] at hle

namespace WellPaced

variable {h h' : List (Event ι α β)}

/-- What came first is well paced itself. -/
theorem of_append (hw : WellPaced (h ++ h')) : WellPaced h := by
  induction h' using List.reverseRecOn with
  | nil => rwa [List.append_nil] at hw
  | append_singleton h' e ih =>
      rw [← List.append_assoc] at hw
      generalize hl : h ++ h' ++ [e] = l at hw
      cases hw with
      | nil => simp at hl
      | snoc hw' _ =>
          obtain ⟨rfl, -⟩ := List.append_inj' hl rfl
          exact ih hw'

/-- What comes next is admitted. -/
theorem admits {e : Event ι α β} (hw : WellPaced (h ++ e :: h')) : Admits h e := by
  have hw' : WellPaced (h ++ [e]) := by
    rw [← List.singleton_append, ← List.append_assoc] at hw
    exact hw.of_append
  generalize hl : h ++ [e] = l at hw'
  cases hw' with
  | nil => simp at hl
  | snoc _ hadm =>
      obtain ⟨rfl, he⟩ := List.append_inj' hl rfl
      obtain rfl := List.singleton_inj.mp he
      exact hadm

/-- No call is invoked twice. -/
theorem nodup_invokes (hw : WellPaced h) : ((invokes h).map Prod.fst).Nodup := by
  induction hw with
  | nil => exact List.nodup_nil
  | @snoc h e _ hadm ih =>
      cases e with
      | effect c op r => simpa using ih
      | respond c r => simpa using ih
      | invoke c op =>
          rw [invokes_append, List.map_append, List.nodup_append]
          refine ⟨ih, by simp, ?_⟩
          rintro c' hc' _ hc rfl
          obtain rfl : c' = c := by simpa using hc
          obtain ⟨⟨c₀, op'⟩, hmem, rfl⟩ := List.mem_map.mp hc'
          exact hadm _ (mem_invokes_iff.mp hmem) rfl

end WellPaced

section Counting

variable [DecidableEq ι] [DecidableEq α]

/-- How many calls of an operation have been started. -/
def started (h : List (Event ι α β)) (op : α) : ℕ := (invokes h).countP fun x => x.2 = op

/-- How many calls of an operation have returned. -/
def returned (h : List (Event ι α β)) (op : α) : ℕ :=
  (invokes h).countP fun x => x.2 = op ∧ x.1 ∈ responds h

/-- The operations that took effect before a call did, in order. -/
def effectsBefore (h : List (Event ι α β)) (c : ι) : List (ι × α × β) :=
  (effects h).takeWhile fun x => x.1 ≠ c

/-- How many calls of an operation took effect before a call did. -/
def countBefore (h : List (Event ι α β)) (op : α) (c : ι) : ℕ :=
  (effectsBefore h c).countP fun x => x.2.1 = op

namespace WellPaced

variable {h h₁ h₂ : List (Event ι α β)} {c c' : ι} {op op' : α} {r r' : β}

/-- A call that has returned has taken effect. -/
theorem returned_le (hw : WellPaced h) (op : α) :
    returned h op ≤ (effects h).countP fun x => x.2.1 = op := by
  apply countP_le_countP_of_calls hw.nodup_invokes
  intro x hx hret
  obtain ⟨hop, hresp⟩ := of_decide_eq_true hret
  obtain ⟨r, hr⟩ := mem_responds_iff.mp hresp
  obtain ⟨op', heff⟩ := hw.effect_mem hr
  -- the operation that took effect is the one that was invoked
  have heq : (x.1, op') = x :=
    List.inj_on_of_nodup_map hw.nodup_invokes (mem_invokes_iff.mpr (hw.invoke_mem heff)) hx rfl
  refine ⟨(x.1, op', r), mem_effects_iff.mpr heff, ?_, rfl⟩
  rw [← heq] at hop
  exact decide_eq_true hop

omit [DecidableEq ι] in
/-- A call that has taken effect has been started. -/
theorem le_started (hw : WellPaced h) (op : α) :
    ((effects h).countP fun x => x.2.1 = op) ≤ started h op := by
  apply countP_le_countP_of_calls hw.nodup_effects
  intro x hx hop
  exact ⟨(x.1, x.2.1), mem_invokes_iff.mpr (hw.invoke_mem (mem_effects_iff.mp hx)), hop, rfl⟩

omit [DecidableEq α] in
/-- What comes before a call does not reach past it. -/
theorem takeWhile_ne_prefix {x : α × β} {l : List (ι × α × β)} (hmem : (c, x) ∈ l)
    (l' : List (ι × α × β)) : (l ++ l').takeWhile (fun x => x.1 ≠ c) <+: l := by
  induction l with
  | nil => simp at hmem
  | cons y l ih =>
      rw [List.cons_append, List.takeWhile_cons]
      split_ifs with hy
      · have htail : (c, x) ∈ l := by
          apply (List.mem_cons.mp hmem).resolve_left
          intro heq
          simp [← heq] at hy
        exact List.cons_prefix_cons.mpr ⟨rfl, ih htail⟩
      · exact List.nil_prefix

/-- A call takes effect after every call that had returned when it was invoked. -/
theorem returned_le_countBefore (hw : WellPaced (h₁ ++ .invoke c op' :: h₂)) (op : α) :
    returned h₁ op ≤ countBefore (h₁ ++ .invoke c op' :: h₂) op c := by
  have hnone : ∀ x ∈ effects h₁, decide (x.1 ≠ c) := by
    intro x hx
    exact decide_eq_true (hw.admits _ (mem_effects_iff.mp hx))
  rw [countBefore, effectsBefore, effects_append, List.takeWhile_append_of_pos hnone,
    List.countP_append]
  exact (hw.of_append.returned_le op).trans (Nat.le_add_right _ _)

/-- A call that has responded has only seen calls that were started by then. -/
theorem countBefore_le_started (hw : WellPaced (h₁ ++ .respond c r :: h₂)) (op : α) :
    countBefore (h₁ ++ .respond c r :: h₂) op c ≤ started h₁ op := by
  obtain ⟨⟨op', heff⟩, -⟩ := hw.admits
  have hprefix : effectsBefore (h₁ ++ .respond c r :: h₂) c <+: effects h₁ := by
    rw [effectsBefore, effects_append]
    exact takeWhile_ne_prefix (mem_effects_iff.mpr heff) _
  exact hprefix.sublist.countP_le.trans (hw.of_append.le_started op)

omit [DecidableEq α] in
/-- The operations before a call, the call, and those after it. -/
theorem effects_eq (hw : WellPaced h) (hmem : (c, op, r) ∈ effects h) :
    ∃ post, effects h = effectsBefore h c ++ (c, op, r) :: post := by
  obtain ⟨l, l', hl⟩ := List.append_of_mem hmem
  have hnodup := hw.nodup_effects
  rw [hl, List.map_append, List.nodup_append] at hnodup
  have hbefore : ∀ x ∈ l, decide (x.1 ≠ c) := by
    intro x hx
    exact decide_eq_true (hnodup.2.2 _ (List.mem_map_of_mem hx) _ List.mem_cons_self)
  refine ⟨l', ?_⟩
  rw [effectsBefore, hl, List.takeWhile_append_of_pos hbefore, List.takeWhile_cons_of_neg (by simp),
    List.append_nil]

/-- A call sees what an earlier one has seen. -/
theorem countBefore_mono (hw : WellPaced h) (hmem : (c', op', r') ∈ effects h)
    (hbefore : Before (.respond c r) (.invoke c' op') h) (op : α) :
    countBefore h op c ≤ countBefore h op c' := by
  obtain ⟨op₁, l₁, l₂, heq, hc, hc'⟩ := hw.effects_before hmem hbefore
  have hnodup := hw.nodup_effects
  rw [heq, List.map_append, List.nodup_append] at hnodup
  have hpos : ∀ x ∈ l₁, decide (x.1 ≠ c') := by
    intro x hx
    exact decide_eq_true (hnodup.2.2 _ (List.mem_map_of_mem hx) _ (List.mem_map_of_mem hc'))
  have hwide : l₁ <+: effectsBefore h c' := by
    rw [effectsBefore, heq, List.takeWhile_append_of_pos hpos]
    exact List.prefix_append _ _
  have hshort : effectsBefore h c <+: l₁ := by
    rw [effectsBefore, heq]
    exact takeWhile_ne_prefix hc l₂
  exact (hshort.trans hwide).sublist.countP_le

end WellPaced

end Counting

end SgxErlang
