import SgxErlang.CNode.Survival

/-!
# The SGX and the plain C node compared

Both loops are run on the same items: ticks, messages of other kinds, and well-formed
requests for arbitrary function names.  They agree on the counter throughout, and on every
answer to a function they know.  They part at a request for an unknown function: the plain
version answers `1`, the SGX version answers with whatever `res` still holds from the last
request it did know.

The two therefore agree on a sequence exactly when every unknown request comes at a moment
at which that left-over is `1`, which `AgreesAt` says in terms of the requests alone.
-/

namespace SgxErlang.CNode

/-- What the comparison ranges over. -/
inductive Item where
  | tick
  | other (kind : OtherKind) (msg : Term) (size : ℕ)
  | request (p : ℕ) (name : List Byte) (args : List Term) (size : ℕ)

namespace Item

/-- The item as it comes in on the connection. -/
def packet : Item → Packet
  | .tick => .tick
  | .other kind msg size => .message ⟨.other kind, msg, size⟩
  | .request p name args size => .message ⟨.erlRegSend, CNode.request p name args, size⟩

/-- The item fits the receive buffer. -/
def Fits : Item → Prop
  | .tick => True
  | .other _ _ size => size ≤ bufsize
  | .request _ _ _ size => size ≤ bufsize

end Item

/-- The two functions the server knows. -/
inductive Command where
  | increment
  | return'
  deriving DecidableEq, Repr

/-- The command a function name is taken for, if any. -/
def command? (name : List Byte) : Option Command :=
  if increment <+: name then some .increment
  else if return' <+: name then some .return'
  else none

/-- The commands among some items, in order. -/
def commands (items : List Item) : List Command :=
  items.filterMap fun
    | .request _ name _ _ => command? name
    | _ => none

/-- One round of the loop on an item. -/
def onItem (v : Version) (i : Item) : Exec Node (Option Send) := iteration v i.packet

/-- The two versions behave alike on `items`: neither of them stops, they make the same
sends at every step, and they end with the same counter, whatever their locals hold at the
start. -/
def Equivalent (items : List Item) : Prop :=
  ∀ res res' : BitVec 32, ∃ sends s s',
    (runAll (onItem .sgx) items).run (Node.start res) = .ret (sends, s) ∧
    (runAll (onItem .plain) items).run (Node.start res') = .ret (sends, s') ∧
    s.a = s'.a

/-- At the request for `name` after the items `pre`: the name is known, or the last command
before it was a `return` and exactly one `increment` (modulo `2 ^ 32`) came before that. -/
def AgreesAt (pre : List Item) (name : List Byte) : Prop :=
  command? name = none →
    (commands pre).getLast? = some .return' ∧
      (commands pre).count .increment % 2 ^ 32 = 1

/-- Every request that is reached agrees; an item that does not fit ends both loops. -/
def AgreesThroughout (items : List Item) : Prop :=
  ∀ pre p name args size post, items = pre ++ .request p name args size :: post →
    (∀ i ∈ pre, i.Fits) → size ≤ bufsize → AgreesAt pre name

/-! ## The state after some items -/

/-- The state after one item. -/
def Item.after (v : Version) (s : Node) : Item → Node
  | .tick => s
  | .other _ _ size => if size ≤ bufsize then s else { s with loop := false }
  | .request _ name _ size =>
      if size ≤ bufsize then afterRequest v name s else { s with loop := false }

/-- The answer to one item. -/
def Item.answer (v : Version) (s : Node) : Item → Option Send
  | .request p name _ size =>
      if size ≤ bufsize then some ⟨.pid p, reply (afterRequest v name s).res⟩ else none
  | _ => none

theorem run_onItem {v : Version} (i : Item) {s : Node} (hloop : s.loop = true) :
    (onItem v i).run s = .ret (i.answer v s, i.after v s) := by
  cases i with
  | tick => exact run_iteration_tick v s
  | other kind msg size =>
      by_cases hsize : size ≤ bufsize
      · simpa [onItem, Item.packet, Item.answer, Item.after, hsize]
          using run_iteration_other hsize s
      · simpa [onItem, Item.packet, Item.answer, Item.after, hsize]
          using run_iteration_of_oversize hsize hloop
  | request p name args size =>
      by_cases hsize : size ≤ bufsize
      · simpa [onItem, Item.packet, Item.answer, Item.after, hsize]
          using run_iteration_request hsize hloop
      · simpa [onItem, Item.packet, Item.answer, Item.after, hsize]
          using run_iteration_of_oversize hsize hloop

/-- The counter and the loop flag: all that the two versions have in common. -/
def SameCounter (s t : Node) : Prop := s.a = t.a ∧ s.loop = t.loop

theorem sameCounter_after {s t : Node} (h : SameCounter s t) (i : Item) :
    SameCounter (i.after .sgx s) (i.after .plain t) := by
  obtain ⟨ha, hl⟩ := h
  cases i with
  | tick => exact ⟨ha, hl⟩
  | other kind msg size => simp only [Item.after]; split_ifs <;> exact ⟨ha, by simp [hl]⟩
  | request p name args size =>
      simp only [Item.after]
      split_ifs
      · refine ⟨?_, by rw [afterRequest_loop, afterRequest_loop, hl]⟩
        unfold afterRequest
        split_ifs <;> simp [ha]
      · exact ⟨ha, rfl⟩

/-- The results of the two versions on one name: equal for a known name, and otherwise the
left-over of the one against the `1` of the other. -/
theorem afterRequest_res_eq_iff {s t : Node} (h : s.a = t.a) (name : List Byte) :
    (afterRequest .sgx name s).res = (afterRequest .plain name t).res ↔
      (command? name = none → s.res = 1) := by
  unfold afterRequest command?
  split_ifs <;> simp [h]

/-- The step condition of the comparison: an unknown request that is received meets a `res`
of 1. -/
def ResIsOne (s : Node) : Item → Prop
  | .request _ name _ size => s.loop = true → size ≤ bufsize → command? name = none → s.res = 1
  | _ => True

theorem answer_eq_iff {s t : Node} (ha : s.a = t.a) (hloop : s.loop = true) (i : Item) :
    i.answer .sgx s = i.answer .plain t ↔ ResIsOne s i := by
  cases i with
  | tick => simp [Item.answer, ResIsOne]
  | other kind msg size => simp [Item.answer, ResIsOne]
  | request p name args size =>
      by_cases hsize : size ≤ bufsize
      · simp [Item.answer, ResIsOne, hsize, hloop, reply_injective.eq_iff,
          afterRequest_res_eq_iff ha]
      · simp [Item.answer, ResIsOne, hsize]

/-- From states with equal counters the two versions run alike exactly when the SGX version
meets `ResIsOne` at every step. -/
theorem run_alike_iff (items : List Item) {s t : Node} (h : SameCounter s t) :
    (∃ sends s' t', (runAll (onItem .sgx) items).run s = .ret (sends, s') ∧
        (runAll (onItem .plain) items).run t = .ret (sends, t') ∧ s'.a = t'.a) ↔
      Along (onItem .sgx) ResIsOne s items := by
  refine runAll_alike_iff SameCounter (fun s t => s.a = t.a) ResIsOne (fun _ _ h => h.1) ?_
    items h
  rintro s t i ⟨ha, hl⟩
  cases hloop : s.loop with
  | false =>
      refine ⟨none, s, none, t, run_iteration_of_not_loop hloop,
        run_iteration_of_not_loop (hl ▸ hloop), ⟨ha, hl⟩, ?_⟩
      cases i <;> simp [ResIsOne, hloop]
  | true =>
      exact ⟨_, _, _, _, run_onItem i hloop, run_onItem i (hl ▸ hloop),
        sameCounter_after ⟨ha, hl⟩ i, answer_eq_iff ha hloop i⟩

/-! ## What `res` holds -/

/-- What a command leaves behind in `res`, given the number of increments so far. -/
def leftOver (res : BitVec 32) (cs : List Command) : BitVec 32 :=
  match cs.getLast? with
  | none => res
  | some .increment => 0
  | some .return' => BitVec.ofNat 32 (cs.count .increment)

/-- The state of the SGX version once it has carried out some commands. -/
def nodeAfter (res : BitVec 32) (cs : List Command) : Node :=
  { a := BitVec.ofNat 32 (cs.count .increment), res := leftOver res cs, loop := true }

theorem commands_append (items items' : List Item) :
    commands (items ++ items') = commands items ++ commands items' := List.filterMap_append

/-- An item that fits adds its command, if it has one. -/
theorem after_nodeAfter (res : BitVec 32) (cs : List Command) {i : Item} (hi : i.Fits) :
    i.after .sgx (nodeAfter res cs) = nodeAfter res (cs ++ commands [i]) := by
  cases i with
  | tick => simp [Item.after, commands]
  | other kind msg size => simp [Item.after, commands, show size ≤ bufsize from hi]
  | request p name args size =>
      have hsize : size ≤ bufsize := hi
      simp only [Item.after, hsize, if_true, afterRequest, commands, command?,
        List.filterMap_cons, List.filterMap_nil]
      split_ifs with hinc hret
      · ext1 <;> simp [nodeAfter, leftOver, List.count_append, BitVec.ofNat_add]
      · ext1 <;> simp [nodeAfter, leftOver, List.count_append]
      · simp

/-- The SGX version after items that all fit: the counter has counted the increments, and
`res` is left over from the last command. -/
theorem run_items_of_fits (res : BitVec 32) (items : List Item) (hfits : ∀ i ∈ items, i.Fits) :
    ∃ sends, (runAll (onItem .sgx) items).run (Node.start res) =
      .ret (sends, nodeAfter res (commands items)) := by
  induction items using List.reverseRecOn with
  | nil => exact ⟨[], rfl⟩
  | append_singleton items i ih =>
      obtain ⟨sends, hrun⟩ := ih fun j hj => hfits j (List.mem_append_left _ hj)
      have hnext := runAll_append_singleton_ret hrun (run_onItem i rfl)
      rw [after_nodeAfter res _ (hfits i (by simp)), ← commands_append] at hnext
      exact ⟨_, hnext⟩

/-- One step from a state in which the loop is left. -/
theorem eq_of_onItem_of_not_loop {v : Version} {i : Item} {s s' : Node} {o : Option Send}
    (hloop : s.loop = false) (h : (onItem v i).run s = .ret (o, s')) : s' = s :=
  (Outcome.pair_inj (h.symm.trans (run_iteration_of_not_loop hloop))).2

/-- A loop that is left stays left. -/
theorem loop_eq_false_of_run {v : Version} {items : List Item} {s s' : Node}
    {sends : List (Option Send)} (hrun : (runAll (onItem v) items).run s = .ret (sends, s'))
    (hloop : s.loop = false) : s'.loop = false := by
  induction items generalizing s sends with
  | nil =>
      obtain ⟨-, rfl⟩ := Outcome.pair_inj hrun
      exact hloop
  | cons i items ih =>
      obtain ⟨o, s₁, os, hs, hrest, -⟩ := runAll_cons_eq_ret_iff.mp hrun
      obtain rfl := eq_of_onItem_of_not_loop hloop hs
      exact ih hrest hloop

/-- An item that does not fit ends the loop. -/
theorem loop_eq_false_of_onItem {v : Version} {i : Item} {s s' : Node} {o : Option Send}
    (h : (onItem v i).run s = .ret (o, s')) (hi : ¬ i.Fits) : s'.loop = false := by
  cases hloop : s.loop with
  | false => rw [eq_of_onItem_of_not_loop hloop h, hloop]
  | true =>
      obtain ⟨-, rfl⟩ := Outcome.pair_inj (h.symm.trans (run_onItem i hloop))
      cases i with
      | tick => exact absurd trivial hi
      | other kind msg size => simp [Item.after, show ¬ size ≤ bufsize from hi]
      | request p name args size => simp [Item.after, show ¬ size ≤ bufsize from hi]

/-- A loop that is still running has only met items that fit. -/
theorem fits_of_loop {v : Version} {items : List Item} {s s' : Node}
    {sends : List (Option Send)} (hrun : (runAll (onItem v) items).run s = .ret (sends, s'))
    (hloop : s'.loop = true) : ∀ i ∈ items, i.Fits := by
  induction items generalizing s sends with
  | nil => simp
  | cons i items ih =>
      obtain ⟨o, s₁, os, hs, hrest, -⟩ := runAll_cons_eq_ret_iff.mp hrun
      refine List.forall_mem_cons.mpr ⟨?_, ih hrest⟩
      by_contra hi
      have hleft := loop_eq_false_of_run hrest (loop_eq_false_of_onItem hs hi)
      exact absurd hloop (by simp [hleft])

/-- The left-over is 1 whatever was on the stack exactly when the last command was a
`return` at a counter of one. -/
theorem leftOver_eq_one_iff (cs : List Command) :
    (∀ res, leftOver res cs = 1) ↔
      cs.getLast? = some .return' ∧ cs.count .increment % 2 ^ 32 = 1 := by
  cases hlast : cs.getLast? with
  | none =>
      simp only [leftOver, hlast, reduceCtorEq, false_and, iff_false, not_forall]
      exact ⟨0, by decide⟩
  | some c =>
      cases c with
      | increment => simp [leftOver, hlast]
      | return' =>
          simp only [leftOver, hlast, true_and, forall_const]
          rw [← BitVec.toNat_inj, BitVec.toNat_ofNat]
          rfl

/-- **The two versions behave alike on a sequence of items exactly when every unknown request
they receive follows a `return` that saw the counter at one.** -/
theorem equivalent_iff (items : List Item) : Equivalent items ↔ AgreesThroughout items := by
  have hstart : ∀ res res', SameCounter (Node.start res) (Node.start res') :=
    fun _ _ => ⟨rfl, rfl⟩
  have halike : Equivalent items ↔
      ∀ res, Along (onItem .sgx) ResIsOne (Node.start res) items :=
    ⟨fun h res => (run_alike_iff items (hstart res res)).mp (h res res),
     fun h res res' => (run_alike_iff items (hstart res res')).mpr (h res)⟩
  simp only [halike, along_iff_forall_split, AgreesThroughout, AgreesAt]
  constructor
  · rintro h pre p name args size post rfl hfits hsize hname
    rw [← leftOver_eq_one_iff]
    intro res
    obtain ⟨sends, hrun⟩ := run_items_of_fits res pre hfits
    exact h res pre _ post rfl sends _ hrun rfl hsize hname
  · rintro h res pre i post rfl sends s' hrun
    cases i with
    | tick => trivial
    | other kind msg size => trivial
    | request p name args size =>
        intro hloop hsize hname
        have hfits := fits_of_loop hrun hloop
        obtain ⟨sends', hrun'⟩ := run_items_of_fits res pre hfits
        obtain ⟨-, rfl⟩ := Outcome.pair_inj (hrun'.symm.trans hrun)
        exact (leftOver_eq_one_iff _).mpr (h pre p name args size post rfl hfits hsize hname) res

/-- One request for an unknown function, and `0` on the stack: `{cnode, 0}` against
`{cnode, 1}`. -/
theorem not_equivalent_unknown : ¬ ∀ items, Equivalent items := by
  intro h
  obtain ⟨sends, s, s', hsgx, hplain, -⟩ := h [.request 0 unknown [] 0] 0 0
  obtain ⟨o, t, os, hs, hnil, rfl⟩ := runAll_cons_eq_ret_iff.mp hsgx
  obtain ⟨o', t', os', hs', hnil', heq⟩ := runAll_cons_eq_ret_iff.mp hplain
  obtain ⟨rfl, -⟩ := List.cons.inj heq
  have hanswer := (Outcome.pair_inj ((run_onItem _ rfl).symm.trans hs)).1.trans
    (Outcome.pair_inj ((run_onItem _ rfl).symm.trans hs')).1.symm
  rw [answer_eq_iff rfl rfl] at hanswer
  exact absurd (hanswer rfl (by decide) (by decide)) (by decide)

end SgxErlang.CNode
