import SgxErlang.CNode.Protocol

/-!
# Progress of the protocol, and what its callers see

`call_cnode` waits for its answer without a timeout, and the C node leaves its loop on the
first message that is larger than its buffer.  A call that has been handled is answered
sooner or later, since nothing can take the answer away.  A call that has not been handled
depends on the loop and on the size of its own request, and on nothing else.

What the callers see of each other follows from the order in which the calls are handled.

## Main results

* `completes_iff` — which outstanding calls can still be completed.
* `calls_of_loop_left` — what is completed after the C node has left its loop.
* `returns_of_reachable` — what the results of `return()` say about the other calls.
-/

namespace SgxErlang.CNode

open Relation

/-- The call `p` is at has been handled. -/
def Handled (s : System) (p : ℕ) : Prop :=
  ∃ cmd r, .effect (p, (s.proc p).calls) cmd r ∈ s.hist

/-- The C node is in its loop, and a request of `p` that fits its buffer is on the way. -/
def Servable (s : System) (p : ℕ) : Prop :=
  s.node.loop = true ∧ ∃ k cmd size, .request p k cmd size ∈ s.toNode ∧ size ≤ bufsize

/-- An answer for `p` is on the way, or in its mailbox. -/
def Answered (s : System) (p : ℕ) : Prop :=
  0 < repliesTo p s.toProc + answersIn (s.proc p).mailbox

variable {s s' : System} {p : ℕ}

/-! ## What a round of the loop does to a call -/

/-- A round handles a call only if it is served, and then it is answered. -/
theorem receive_cases {i : Inbound} {o : Option Send} {node' : Node}
    (hq : ∀ pkt, i = .noise pkt → pkt.Quiet) (hloop : s.node.loop = true)
    (hrun : (iteration .sgx i.packet).run s.node = .ret (o, node')) :
    (handled i o = [] ∧ outbound i o = 0) ∨
      ∃ q k cmd size resp result, i = .request q k cmd size ∧ size ≤ bufsize ∧
        cnodeResult? resp = some result ∧ node'.loop = true ∧
        handled i o = [.effect (q, k) cmd result] ∧ outbound i o = {⟨q, resp, (q, k)⟩} := by
  cases i with
  | noise pkt =>
      obtain ⟨rfl, -⟩ := run_iteration_quiet (hq pkt rfl) hrun
      exact .inl ⟨rfl, rfl⟩
  | request q k cmd size =>
      by_cases hsize : size ≤ bufsize
      · rw [Inbound.packet, run_iteration_request hsize hloop] at hrun
        obtain ⟨rfl, rfl⟩ := Outcome.pair_inj hrun
        refine .inr ⟨q, k, cmd, size, _, _, rfl, hsize, rfl, ?_, rfl, rfl⟩
        rw [afterRequest_loop, hloop]
      · rw [Inbound.packet, run_iteration_of_oversize (by exact hsize) hloop] at hrun
        obtain ⟨rfl, rfl⟩ := Outcome.pair_inj hrun
        exact .inl ⟨rfl, rfl⟩

namespace Inv

/-- What is in flight to the C node and no request is quiet. -/
theorem quiet_of_toNode (h : Inv s) {i : Inbound} {rest : Multiset Inbound}
    (hnode : s.toNode = i ::ₘ rest) : ∀ pkt, i = .noise pkt → pkt.Quiet := by
  intro pkt hi
  apply h.quiet
  rw [hnode, ← hi]
  exact Multiset.mem_cons_self _ _

/-- A mailbox with an answer belongs to a process whose call has been handled. -/
theorem handled_of_mail (h : Inv s) {l₁ l₂ : List Mail} {m : Mail} {result : Term}
    (hbox : (s.proc p).mailbox = l₁ ++ m :: l₂) (hm : cnodeResult? m.msg = some result) :
    Handled s p := by
  have hmem : m ∈ (s.proc p).mailbox := by
    rw [hbox]
    exact List.mem_append_right _ List.mem_cons_self
  obtain ⟨id, -, hans⟩ := h.mails p m hmem (by rw [Mail.isAnswer, hm, Option.isSome_some])
  obtain ⟨cmd, r, -, -, heff⟩ := hans.result
  exact ⟨cmd, r, hans.current ▸ heff⟩

/-- The request of a process is for the call it is at. -/
theorem eq_of_request (h : Inv s) {k : ℕ} {cmd : Command} {size : ℕ}
    (hmem : .request p k cmd size ∈ s.toNode) : k = (s.proc p).calls :=
  (h.requests p k cmd size hmem).current

/-- A process that does not wait is at a call that has not been handled. -/
theorem not_handled_of_idle (h : Inv s) (hidle : (s.proc p).waiting = none) : ¬Handled s p := by
  intro ⟨cmd, r, hmem⟩
  exact h.fresh_of_idle hidle _ hmem rfl

end Inv

/-! ## What a step does to a process -/

/-- A process gets on to its next call only from one that has been handled. -/
theorem calls_step (h : Inv s) (hstep : Step s s') (p : ℕ) :
    ((s'.proc p).calls = (s.proc p).calls ∧
      ((s.proc p).waiting ≠ none → (s'.proc p).waiting ≠ none)) ∨
    (Handled s p ∧ (s'.proc p).calls = (s.proc p).calls + 1 ∧ (s'.proc p).waiting = none) := by
  cases hstep with
  | call q cmd size hidle =>
      refine .inl ⟨s.calls_startCall q p cmd size, fun hw => ?_⟩
      rw [System.proc_startCall]
      split_ifs
      · exact Option.some_ne_none cmd
      · exact hw
  | noise => exact .inl ⟨rfl, id⟩
  | mail q msg => exact .inl ⟨s.calls_putMail q p _, fun hw => by rwa [s.waiting_putMail]⟩
  | receive => exact .inl ⟨rfl, id⟩
  | deliver r rest =>
      exact .inl ⟨System.calls_putMail _ _ p _, fun hw => by rwa [System.waiting_putMail]⟩
  | take q cmd l₁ m l₂ result hwait hbox hl hm =>
      rw [System.proc_finishCall]
      split_ifs with hp
      · subst hp
        exact .inr ⟨h.handled_of_mail hbox hm, rfl, rfl⟩
      · exact .inl ⟨rfl, id⟩

/-- A step adds to the history, and handles no call but one that can be served. -/
theorem hist_step (h : Inv s) (hstep : Step s s') :
    (∀ e ∈ s.hist, e ∈ s'.hist) ∧ ∀ q k cmd r, .effect (q, k) cmd r ∈ s'.hist →
      .effect (q, k) cmd r ∈ s.hist ∨ (k = (s.proc q).calls ∧ Servable s q) := by
  cases hstep with
  | call q cmd size hidle =>
      refine ⟨fun _ he => List.mem_append_left _ he, ?_⟩
      exact fun q k cmd r he => .inl (Inv.mem_of_effect_mem_snoc he (by simp))
  | noise => exact ⟨fun _ he => he, fun _ _ _ _ he => .inl he⟩
  | mail => exact ⟨fun _ he => he, fun _ _ _ _ he => .inl he⟩
  | deliver => exact ⟨fun _ he => he, fun _ _ _ _ he => .inl he⟩
  | take =>
      refine ⟨fun _ he => List.mem_append_left _ he, ?_⟩
      exact fun q k cmd r he => .inl (Inv.mem_of_effect_mem_snoc he (by simp))
  | receive i rest o node' hnode hloop hrun =>
      refine ⟨fun _ he => List.mem_append_left _ he, fun q k cmd r he => ?_⟩
      rcases receive_cases (h.quiet_of_toNode hnode) hloop hrun with
        ⟨hnone, -⟩ | ⟨q', k', cmd', size, resp, result, rfl, hsize, -, -, hone, -⟩
      · rw [hnone, List.append_nil] at he
        exact .inl he
      · rw [hone, List.mem_append, List.mem_singleton] at he
        refine he.imp_right fun he => ?_
        obtain ⟨hid, -, -⟩ := Event.effect.inj he
        obtain ⟨rfl, rfl⟩ := Prod.mk.inj hid
        have hmem : .request q k cmd' size ∈ s.toNode := by
          rw [hnode]
          exact Multiset.mem_cons_self _ _
        exact ⟨h.eq_of_request hmem, hloop, k, cmd', size, hmem, hsize⟩

/-- A step handles the call a process is at only if it can be served. -/
theorem handled_step (h : Inv s) (hstep : Step s s')
    (hcalls : (s'.proc p).calls = (s.proc p).calls) (hh : Handled s' p) :
    Handled s p ∨ Servable s p := by
  obtain ⟨cmd, r, hmem⟩ := hh
  rw [hcalls] at hmem
  rcases (hist_step h hstep).2 p _ cmd r hmem with hold | ⟨-, hserve⟩
  · exact .inl ⟨cmd, r, hold⟩
  · exact .inr hserve

/-- The C node does not return to its loop. -/
theorem loop_step (hstep : Step s s') (hloop : s'.node.loop = true) :
    s.node.loop = true := by
  cases hstep with
  | receive i rest o node' hnode hl hrun => exact hl
  | call => exact hloop
  | noise => exact hloop
  | mail => exact hloop
  | deliver => exact hloop
  | take => exact hloop

/-- The request of a process that waits does not become another one. -/
theorem servable_step (hstep : Step s s') (hw : (s.proc p).waiting ≠ none)
    (hs : Servable s' p) : Servable s p := by
  obtain ⟨hloop, k, cmd, size, hmem, hsize⟩ := hs
  refine ⟨loop_step hstep hloop, k, cmd, size, ?_, hsize⟩
  cases hstep with
  | call q cmd' size' hidle =>
      apply (Multiset.mem_cons.mp hmem).resolve_left
      intro heq
      obtain ⟨rfl, -⟩ := Inbound.request.inj heq
      exact hw hidle
  | noise => exact (Multiset.mem_cons.mp hmem).resolve_left nofun
  | receive i rest o node' hnode =>
      rw [hnode]
      exact Multiset.mem_cons_of_mem hmem
  | mail => exact hmem
  | deliver => exact hmem
  | take => exact hmem

/-! ## Calls that are lost -/

/-- The call has not been handled, and cannot be served either. -/
structure Lost (s : System) (p n : ℕ) : Prop where
  calls : (s.proc p).calls = n
  waiting : (s.proc p).waiting ≠ none
  unhandled : ¬Handled s p
  unservable : ¬Servable s p

/-- A lost call stays lost. -/
theorem Lost.step {n : ℕ} (hl : Lost s p n) (h : Inv s) (hstep : Step s s') : Lost s' p n := by
  rcases calls_step h hstep p with ⟨hcalls, hwaiting⟩ | ⟨hhandled, -⟩
  · refine ⟨hcalls.trans hl.calls, hwaiting hl.waiting, fun hh => ?_, fun hs => ?_⟩
    · rcases handled_step h hstep hcalls hh with hold | hserve
      · exact hl.unhandled hold
      · exact hl.unservable hserve
    · exact hl.unservable (servable_step hstep hl.waiting hs)
  · exact absurd hhandled hl.unhandled

theorem Lost.run {n : ℕ} (hl : Lost s p n) (h : Inv s) (hrun : ReflTransGen Step s s') :
    Lost s' p n ∧ Inv s' := by
  induction hrun with
  | refl => exact ⟨hl, h⟩
  | tail _ hstep ih => exact ⟨ih.1.step ih.2 hstep, inv_step ih.2 hstep⟩

/-! ## Calls that are answered -/

/-- Every call that has been handled and not completed is answered. -/
def Kept (s : System) : Prop := ∀ p, (s.proc p).waiting ≠ none → Handled s p → Answered s p

theorem Answered.of_le (ha : Answered s p)
    (hreplies : repliesTo p s.toProc ≤ repliesTo p s'.toProc)
    (hbox : answersIn (s.proc p).mailbox ≤ answersIn (s'.proc p).mailbox) : Answered s' p := by
  unfold Answered at ha ⊢
  omega

/-- A message in the mailbox takes no answer out of it. -/
theorem answersIn_putMail (s : System) (p q : ℕ) (m : Mail) :
    answersIn ((s.putMail q m).proc p).mailbox =
      answersIn (s.proc p).mailbox + if p = q ∧ m.isAnswer = true then 1 else 0 := by
  rw [System.proc_putMail]
  by_cases hp : p = q
  · simp [hp, answersIn_append, answersIn_cons]
  · simp [hp]

/-- No step takes an answer away from the process it is meant for. -/
theorem kept_step (h : Inv s) (hk : Kept s) (hstep : Step s s') : Kept s' := by
  intro p hw hh
  cases hstep with
  | call q cmd size hidle =>
      obtain ⟨cmd', r, hmem⟩ := hh
      rw [System.calls_startCall] at hmem
      have hold : Handled s p := ⟨cmd', r, Inv.mem_of_effect_mem_snoc hmem (by simp)⟩
      have hne : (s.proc p).waiting ≠ none := fun hidle => h.not_handled_of_idle hidle hold
      have hbox : ((s.startCall q cmd size).proc p).mailbox = (s.proc p).mailbox :=
        s.mailbox_startCall q p cmd size
      exact (hk p hne hold).of_le le_rfl (by rw [hbox])
  | noise => exact hk p hw hh
  | mail q msg =>
      rw [System.waiting_putMail] at hw
      obtain ⟨cmd, r, hmem⟩ := hh
      rw [System.calls_putMail] at hmem
      refine (hk p hw ⟨cmd, r, hmem⟩).of_le le_rfl ?_
      rw [answersIn_putMail]
      exact Nat.le_add_right _ _
  | receive i rest o node' hnode hloop hrun =>
      obtain ⟨cmd, r, hmem⟩ := hh
      have hreplies : repliesTo p (outbound i o + s.toProc) =
          repliesTo p (outbound i o) + repliesTo p s.toProc := Multiset.countP_add _ _ _
      rcases receive_cases (h.quiet_of_toNode hnode) hloop hrun with
        ⟨hnone, -⟩ | ⟨q', k', cmd', size, resp, result, -, -, -, -, hone, hout⟩
      · have hold : Handled s p := ⟨cmd, r, by simpa [hnone] using hmem⟩
        exact (hk p hw hold).of_le (hreplies ▸ Nat.le_add_left _ _) le_rfl
      · rw [hone, List.mem_append, List.mem_singleton] at hmem
        rcases hmem with hmem | heq
        · refine (hk p hw ⟨cmd, r, hmem⟩).of_le ?_ le_rfl
          exact hreplies ▸ Nat.le_add_left _ _
        · obtain ⟨hid, -, -⟩ := Event.effect.inj heq
          obtain ⟨rfl, -⟩ := Prod.mk.inj hid
          have hreply : repliesTo p (outbound i o) = 1 := by
            rw [hout, ← Multiset.cons_zero, repliesTo_cons, if_pos rfl]
            rfl
          unfold Answered
          dsimp only
          omega
  | deliver r rest hproc =>
      rw [System.waiting_putMail] at hw
      obtain ⟨cmd, r', hmem⟩ := hh
      rw [System.calls_putMail] at hmem
      have hr := h.replies r (by rw [hproc]; exact Multiset.mem_cons_self _ _)
      obtain ⟨-, result, -, hres, -⟩ := hr.result
      have hans : Mail.isAnswer ⟨r.msg, some r.id⟩ = true := by
        rw [Mail.isAnswer, hres, Option.isSome_some]
      have ha := hk p hw ⟨cmd, r', hmem⟩
      unfold Answered at ha ⊢
      rw [hproc, repliesTo_cons] at ha
      have hbox := answersIn_putMail { s with toProc := rest } p r.dest ⟨r.msg, some r.id⟩
      have hreplies : (System.putMail { s with toProc := rest } r.dest
          ⟨r.msg, some r.id⟩).toProc = rest := rfl
      rw [hbox, hreplies]
      by_cases hp : p = r.dest
      · simp only [hp, hans, and_self, if_true]
        omega
      · have hp' : r.dest ≠ p := Ne.symm hp
        simp only [hp', if_false] at ha
        dsimp only
        omega
  | take q cmd l₁ m l₂ result hwait hbox hl hm =>
      have hp : p ≠ q := by
        rintro rfl
        rw [System.proc_finishCall, if_pos rfl] at hw
        exact hw rfl
      have hproc : (s.finishCall q (l₁ ++ l₂) result).proc p = s.proc p := by
        rw [System.proc_finishCall, if_neg hp]
      obtain ⟨cmd', r, hmem⟩ := hh
      rw [hproc] at hw hmem
      have hold : Handled s p := ⟨cmd', r, Inv.mem_of_effect_mem_snoc hmem (by simp)⟩
      exact (hk p hw hold).of_le le_rfl (by rw [hproc])

theorem kept_of_reachable (h : Reachable s) : Kept s := by
  obtain ⟨res, hrun⟩ := h
  induction hrun with
  | refl => exact fun p hw _ => absurd rfl hw
  | tail hrun hstep ih => exact kept_step (inv_of_reachable ⟨res, hrun⟩) ih hstep

/-- A process that waits takes an answer that is in its mailbox. -/
theorem exists_take {cmd : Command} (hw : (s.proc p).waiting = some cmd)
    (hbox : 0 < answersIn (s.proc p).mailbox) :
    ∃ rest result, Step s (s.finishCall p rest result) := by
  obtain ⟨m, hm, hans⟩ := List.countP_pos_iff.mp hbox
  -- the receive takes the first one
  obtain ⟨l₁, m', l₂, heq, hfirst, hm'⟩ : ∃ l₁ m' l₂, (s.proc p).mailbox = l₁ ++ m' :: l₂ ∧
      (∀ x ∈ l₁, ¬x.isAnswer = true) ∧ m'.isAnswer = true := by
    generalize (s.proc p).mailbox = box at hm
    induction box with
    | nil => exact absurd hm List.not_mem_nil
    | cons x box ih =>
        by_cases hx : x.isAnswer = true
        · exact ⟨[], x, box, rfl, nofun, hx⟩
        · have hmem : m ∈ box := by
            apply (List.mem_cons.mp hm).resolve_left
            intro heq
            exact hx (heq ▸ hans)
          obtain ⟨l₁, m', l₂, heq, hfirst, hm'⟩ := ih hmem
          refine ⟨x :: l₁, m', l₂, by rw [heq]; rfl, ?_, hm'⟩
          exact List.forall_mem_cons.mpr ⟨hx, hfirst⟩
  obtain ⟨result, hres⟩ := Option.isSome_iff_exists.mp hm'
  refine ⟨_, result, .take p cmd l₁ m' l₂ result hw heq (fun x hx => ?_) hres⟩
  simpa [Mail.isAnswer] using hfirst x hx

/-- A call that has been answered can be completed, and nothing else need happen. -/
theorem exists_run_of_answered (h : Inv s) (hw : (s.proc p).waiting ≠ none)
    (ha : Answered s p) : ∃ s' result, ReflTransGen Step s s' ∧
      (s'.proc p).calls = (s.proc p).calls + 1 ∧ (s'.proc p).waiting = none ∧
      s'.node = s.node ∧ s'.hist = s.hist ++ [.respond (p, (s.proc p).calls) result] := by
  obtain ⟨cmd, hcmd⟩ := Option.ne_none_iff_exists'.mp hw
  by_cases hbox : 0 < answersIn (s.proc p).mailbox
  · obtain ⟨rest, result, hstep⟩ := exists_take hcmd hbox
    refine ⟨_, result, .single hstep, ?_, ?_, rfl, rfl⟩
    · rw [System.proc_finishCall, if_pos rfl]
    · rw [System.proc_finishCall, if_pos rfl]
  · have hreply : 0 < repliesTo p s.toProc := by
      unfold Answered at ha
      omega
    obtain ⟨r, hr, hdest⟩ := Multiset.countP_pos.mp hreply
    obtain ⟨rest, hrest⟩ := Multiset.exists_cons_of_mem hr
    have hdeliver := Step.deliver r rest hrest
    have hinv := inv_step h hdeliver
    generalize ht : ({ s with toProc := rest } : System).putMail r.dest ⟨r.msg, some r.id⟩ = t
      at hdeliver hinv
    have hcalls : (t.proc p).calls = (s.proc p).calls := by
      rw [← ht, System.calls_putMail]
    have hwaiting : (t.proc p).waiting = some cmd := by
      rw [← ht, System.waiting_putMail]
      exact hcmd
    have hnode : t.node = s.node := by
      rw [← ht]
      rfl
    have hhist : t.hist = s.hist := by
      rw [← ht]
      rfl
    obtain ⟨-, result, -, hres, -⟩ := (h.replies r hr).result
    have hanswer : Mail.isAnswer ⟨r.msg, some r.id⟩ = true := by
      rw [Mail.isAnswer, hres, Option.isSome_some]
    have hmail : 0 < answersIn (t.proc p).mailbox := by
      rw [← ht, answersIn_putMail, if_pos ⟨hdest.symm, hanswer⟩]
      omega
    obtain ⟨rest', result', hstep⟩ := exists_take hwaiting hmail
    refine ⟨_, result', (ReflTransGen.single hdeliver).tail hstep, ?_, ?_, hnode, ?_⟩
    · rw [System.proc_finishCall, if_pos rfl, hcalls]
    · rw [System.proc_finishCall, if_pos rfl]
    · rw [System.finishCall, hhist, hcalls]

/-- A request that can be served leads to an answer that records it. -/
theorem exists_receive (h : Inv s) (hs : Servable s p) : ∃ s' cmd result, Step s s' ∧
    (s.proc p).waiting = some cmd ∧ s'.proc = s.proc ∧ s'.node.loop = true ∧ Answered s' p ∧
    s'.hist = s.hist ++ [.effect (p, (s.proc p).calls) cmd result] := by
  obtain ⟨hloop, k, cmd, size, hmem, hsize⟩ := hs
  obtain ⟨rest, hrest⟩ := Multiset.exists_cons_of_mem hmem
  have hrun : (iteration .sgx (Inbound.request p k cmd size).packet).run s.node =
      .ret (some ⟨.pid p, reply (afterRequest .sgx cmd.name s.node).res⟩,
        afterRequest .sgx cmd.name s.node) := run_iteration_request hsize hloop
  have hk := h.eq_of_request hmem
  obtain ⟨-, hresp⟩ := afterRequest_spec h.counter cmd
  refine ⟨_, cmd, (counterSpec cmd (specState counterSpec 0 (effects s.hist))).1,
    .receive (.request p k cmd size) rest _ _ hrest hloop hrun,
    (h.requests p k cmd size hmem).waiting, rfl, ?_, ?_, ?_⟩
  · exact (afterRequest_loop _ _ _).trans hloop
  · have hreply : 0 < repliesTo p (outbound (.request p k cmd size)
        (some ⟨.pid p, reply (afterRequest .sgx cmd.name s.node).res⟩) + s.toProc) := by
      rw [outbound, Multiset.singleton_add, repliesTo_cons, if_pos rfl]
      omega
    exact Nat.lt_of_lt_of_le hreply (Nat.le_add_right _ _)
  · simp only [handled, hresp, hk]

/-- A request that can be served can be completed. -/
theorem exists_run_of_servable (h : Inv s) (hs : Servable s p) :
    ∃ s' cmd result result', ReflTransGen Step s s' ∧
      (s'.proc p).calls = (s.proc p).calls + 1 ∧ (s.proc p).waiting = some cmd ∧
      (s'.proc p).waiting = none ∧ s'.node.loop = true ∧
      s'.hist = s.hist ++ [.effect (p, (s.proc p).calls) cmd result,
        .respond (p, (s.proc p).calls) result'] := by
  obtain ⟨t, cmd, result, hstep, hw, hproc, hloop, ha, hhist⟩ := exists_receive h hs
  have hwt : (t.proc p).waiting ≠ none := by
    rw [hproc, hw]
    exact Option.some_ne_none cmd
  obtain ⟨s', result', hrun, hcalls, hwaiting, hnode, hhist'⟩ :=
    exists_run_of_answered (inv_step h hstep) hwt ha
  refine ⟨s', cmd, result, result', .head hstep hrun, ?_, hw, hwaiting, ?_, ?_⟩
  · rw [hcalls, hproc]
  · rw [hnode, hloop]
  · rw [hhist', hhist, hproc, List.append_assoc]
    rfl

/-! ## What can still be completed -/

/-- An outstanding call can still be completed exactly if it has been handled, or the C node
is in its loop and the request fits its buffer. -/
theorem completes_iff (h : Reachable s) (hw : (s.proc p).waiting ≠ none) :
    (∃ s', ReflTransGen Step s s' ∧ (s.proc p).calls < (s'.proc p).calls) ↔
      Handled s p ∨ Servable s p := by
  have hinv := inv_of_reachable h
  constructor
  · rintro ⟨s', hrun, hlt⟩
    by_contra hno
    rw [not_or] at hno
    have hlost : Lost s p (s.proc p).calls := ⟨rfl, hw, hno.1, hno.2⟩
    have hcalls := (hlost.run hinv hrun).1.calls
    omega
  · rintro (hh | hs)
    · obtain ⟨s', -, hrun, hcalls, -⟩ :=
        exists_run_of_answered hinv hw (kept_of_reachable h p hw hh)
      exact ⟨s', hrun, by omega⟩
    · obtain ⟨s', -, -, -, hrun, hcalls, -⟩ := exists_run_of_servable hinv hs
      exact ⟨s', hrun, by omega⟩

/-- The state after a process of a C node that has just been connected has made a call. -/
def called (p : ℕ) (cmd : Command) (size : ℕ) : System := (System.init 5).startCall p cmd size

theorem reachable_called (p : ℕ) (cmd : Command) (size : ℕ) : Reachable (called p cmd size) :=
  ⟨5, .single (.call p cmd size rfl)⟩

theorem servable_called {size : ℕ} (cmd : Command) (hsize : size ≤ bufsize) :
    Servable (called p cmd size) p :=
  ⟨rfl, 0, cmd, size, Multiset.mem_cons_self _ 0, hsize⟩

theorem waiting_called (cmd : Command) (size : ℕ) :
    ((called p cmd size).proc p).waiting = some cmd := by
  rw [called, System.proc_startCall, if_pos rfl]

theorem completes_called :
    ∃ s', ReflTransGen Step (called 7 .increment 40) s' ∧
      ((called 7 .increment 40).proc 7).calls < (s'.proc 7).calls := by
  apply (completes_iff (reachable_called 7 .increment 40) ?_).mpr
  · exact .inr (servable_called .increment (by decide))
  · rw [waiting_called]
    exact Option.some_ne_none _

/-! ## After the loop -/

/-- When the C node has left its loop, only calls that it has handled are completed, so no
process completes more than the one it is at. -/
theorem calls_of_loop_left (h : Reachable s) (hloop : s.node.loop = false)
    (hrun : ReflTransGen Step s s') (p : ℕ) :
    ((s'.proc p).calls = (s.proc p).calls ∧ (Handled s' p → Handled s p)) ∨
      (Handled s p ∧ (s'.proc p).calls = (s.proc p).calls + 1 ∧ ¬Handled s' p) := by
  have hall : Inv s' ∧ s'.node.loop = false ∧
      (((s'.proc p).calls = (s.proc p).calls ∧ (Handled s' p → Handled s p)) ∨
        (Handled s p ∧ (s'.proc p).calls = (s.proc p).calls + 1 ∧ ¬Handled s' p)) := by
    induction hrun with
    | refl => exact ⟨inv_of_reachable h, hloop, .inl ⟨rfl, id⟩⟩
    | @tail t u _ hstep ih =>
        obtain ⟨hinv, hleft, ih⟩ := ih
        have hleft' : u.node.loop = false := by
          by_contra hl
          rw [loop_step hstep (by simpa using hl)] at hleft
          exact nomatch hleft
        refine ⟨inv_step hinv hstep, hleft', ?_⟩
        rcases calls_step hinv hstep p with ⟨hcalls, -⟩ | ⟨hhandled, hcalls, hidle⟩
        · -- without its loop the C node handles nothing
          have hsame : Handled u p → Handled t p := by
            intro hu
            apply (handled_step hinv hstep hcalls hu).resolve_right
            intro hserve
            rw [hserve.1] at hleft
            exact nomatch hleft
          rw [hcalls]
          exact ih.imp (fun ih => ⟨ih.1, ih.2 ∘ hsame⟩)
            fun ih => ⟨ih.1, ih.2.1, fun hu => ih.2.2 (hsame hu)⟩
        · have hnot : ¬Handled u p := (inv_step hinv hstep).not_handled_of_idle hidle
          rcases ih with ⟨heq, hold⟩ | ⟨-, -, hno⟩
          · exact .inr ⟨hold hhandled, by rw [hcalls, heq], hnot⟩
          · exact absurd hhandled hno
  exact hall.2.2

/-- What comes after the loop is as one may fear: a process whose call has not been handled
waits for ever, and so does every other one from its next call on. -/
theorem hangs_of_loop_left (h : Reachable s) (hloop : s.node.loop = false)
    (hrun : ReflTransGen Step s s') (p : ℕ) :
    (s'.proc p).calls ≤ (s.proc p).calls + 1 ∧
      (¬Handled s p → (s'.proc p).calls = (s.proc p).calls ∧
        ((s.proc p).waiting ≠ none → (s'.proc p).waiting ≠ none)) := by
  refine ⟨?_, fun hno => ⟨?_, fun hw => ?_⟩⟩
  · rcases calls_of_loop_left h hloop hrun p with ⟨hcalls, -⟩ | ⟨-, hcalls, -⟩
    · omega
    · omega
  · rcases calls_of_loop_left h hloop hrun p with ⟨hcalls, -⟩ | ⟨hh, -⟩
    · exact hcalls
    · exact absurd hh hno
  · have hlost : Lost s p (s.proc p).calls := by
      refine ⟨rfl, hw, hno, fun hserve => ?_⟩
      rw [hserve.1] at hloop
      exact nomatch hloop
    exact (hlost.run (inv_of_reachable h) hrun).1.waiting

/-- The state in which the C node has received a request that is larger than its buffer. -/
theorem hangs_after_oversize : ∃ s : System, s.node.loop = false ∧
    (s.proc 7).waiting = some .increment ∧
    ∀ s', ReflTransGen Step s s' → (s'.proc 7).calls = (s.proc 7).calls ∧
      (s'.proc 7).waiting ≠ none := by
  have hround : (iteration .sgx (Inbound.request 7 0 .increment 2000).packet).run
      (called 7 .increment 2000).node = .ret (none, ⟨0, 5, false⟩) :=
    run_iteration_of_oversize (by decide) rfl
  have hstep := Step.receive (s := called 7 .increment 2000) (.request 7 0 .increment 2000) 0 _ _
    rfl rfl hround
  obtain ⟨res, hrun⟩ := reachable_called 7 .increment 2000
  have hwait := waiting_called (p := 7) .increment 2000
  let s : System := { called 7 .increment 2000 with
    node := ⟨0, 5, false⟩, toNode := 0, toProc := outbound (.request 7 0 .increment 2000) none + 0
    hist := [.invoke (7, 0) .increment] ++ handled (.request 7 0 .increment 2000) none }
  refine ⟨s, rfl, hwait, fun s' hs' => ?_⟩
  have hno := (hangs_of_loop_left ⟨res, hrun.tail hstep⟩ rfl hs' 7).2 ?_
  · refine ⟨hno.1, hno.2 ?_⟩
    rw [hwait]
    exact Option.some_ne_none _
  · intro ⟨cmd, r, hmem⟩
    simp [called, System.startCall, System.init, handled] at hmem

/-! ## What the callers see -/

/-- Every result of `return()` is a number of increments that a caller can account for: it
counts all that had returned when the call was made, none that had not been started when it
returned, and no fewer than an earlier call has seen.  The counter itself is such a number at
any time. -/
theorem returns_of_reachable (h : Reachable s) :
    (∃ count : CallId → ℕ,
      (∀ c r h₁ h₂ h₃, s.hist = h₁ ++ .invoke c .return' :: (h₂ ++ .respond c r :: h₃) →
        returned h₁ .increment ≤ count c ∧
        count c ≤ started (h₁ ++ .invoke c .return' :: h₂) .increment ∧
        r = .int (BitVec.ofNat 32 (count c)).toInt) ∧
      ∀ c r c' r', .respond c' r' ∈ s.hist →
        Before (.respond c r) (.invoke c' .return') s.hist → count c ≤ count c') ∧
    ∃ n, returned s.hist .increment ≤ n ∧ n ≤ started s.hist .increment ∧
      s.node.a = BitVec.ofNat 32 n := by
  have hinv := inv_of_reachable h
  have hpaced := hinv.paced
  -- the effect of a call that has returned is the one of its command
  have heffect : ∀ c cmd r, .invoke c cmd ∈ s.hist → .respond c r ∈ s.hist →
      (c, cmd, r) ∈ effects s.hist := by
    intro c cmd r hinvoke hresp
    obtain ⟨op, hop⟩ := hpaced.effect_mem hresp
    have heq : (c, op) = (c, cmd) := List.inj_on_of_nodup_map hpaced.nodup_invokes
      (mem_invokes_iff.mpr (hpaced.invoke_mem hop)) (mem_invokes_iff.mpr hinvoke) rfl
    obtain rfl := (Prod.mk.inj heq).2
    exact mem_effects_iff.mpr hop
  refine ⟨⟨countBefore s.hist .increment, ?_, ?_⟩, increments (effects s.hist), ?_, ?_, ?_⟩
  · intro c r h₁ h₂ h₃ heq
    have hmem : (c, .return', r) ∈ effects s.hist := by
      apply heffect
      · rw [heq]
        exact List.mem_append_right _ List.mem_cons_self
      · rw [heq]
        exact List.mem_append_right _
          (List.mem_cons_of_mem _ (List.mem_append_right _ List.mem_cons_self))
    refine ⟨?_, ?_, ?_⟩
    · rw [heq] at hpaced ⊢
      exact hpaced.returned_le_countBefore .increment
    · have hassoc : s.hist = (h₁ ++ .invoke c .return' :: h₂) ++ .respond c r :: h₃ := by
        rw [heq, List.append_assoc, List.cons_append]
      rw [hassoc] at hpaced ⊢
      exact hpaced.countBefore_le_started .increment
    · obtain ⟨post, hpost⟩ := hpaced.effects_eq hmem
      have hr := hinv.lawful _ _ _ _ _ hpost
      rw [specState_counterSpec] at hr
      exact hr
  · intro c r c' r' hresp hbefore
    obtain ⟨l₁, l₂, heq, -, hinvoke⟩ := id hbefore
    refine hpaced.countBefore_mono (heffect c' .return' r' ?_ hresp) hbefore .increment
    rw [heq]
    exact List.mem_append_right _ hinvoke
  · exact hpaced.returned_le .increment
  · exact hpaced.le_started .increment
  · rw [hinv.counter, specState_counterSpec]

/-- A process that calls a C node in its loop can get an answer. -/
theorem exists_run_of_call (h : Inv s) (hloop : s.node.loop = true)
    (hidle : (s.proc p).waiting = none) (cmd : Command) : ∃ s' result result',
    ReflTransGen Step s s' ∧ s'.node.loop = true ∧ (s'.proc p).waiting = none ∧
      (s'.proc p).calls = (s.proc p).calls + 1 ∧
      s'.hist = s.hist ++ [.invoke (p, (s.proc p).calls) cmd,
        .effect (p, (s.proc p).calls) cmd result, .respond (p, (s.proc p).calls) result'] := by
  have hcall := Step.call p cmd 40 hidle
  have hserve : Servable (s.startCall p cmd 40) p :=
    ⟨hloop, (s.proc p).calls, cmd, 40, Multiset.mem_cons_self _ s.toNode, by decide⟩
  obtain ⟨s', cmd', result, result', hrun, hcalls, hcmd, hwait, hloop', hhist⟩ :=
    exists_run_of_servable (inv_step h hcall) hserve
  rw [System.proc_startCall, if_pos rfl] at hcmd
  obtain rfl := Option.some.inj hcmd
  rw [System.calls_startCall] at hcalls hhist
  refine ⟨s', result, result', .head hcall hrun, hloop', hwait, hcalls, ?_⟩
  rw [hhist, System.startCall, List.append_assoc]
  rfl

/-- A process that increments the counter of a new C node and then asks for it gets 1. -/
theorem returns_after_increment : ∃ (s : System) (c : CallId) (r : Term),
    Reachable s ∧ .respond c r ∈ s.hist ∧ r = .int 1 := by
  obtain ⟨s₁, e₁, r₁, hrun₁, hloop₁, hidle₁, hcalls₁, hhist₁⟩ :=
    exists_run_of_call (p := 7) (Inv.init 5) rfl rfl .increment
  have hreach₁ : Reachable s₁ := ⟨5, hrun₁⟩
  obtain ⟨s₂, e₂, r₂, hrun₂, -, -, -, hhist₂⟩ :=
    exists_run_of_call (inv_of_reachable hreach₁) hloop₁ hidle₁ .return'
  have hreach₂ : Reachable s₂ := ⟨5, hrun₁.trans hrun₂⟩
  have hhist : s₂.hist = [.invoke (7, 0) .increment, .effect (7, 0) .increment e₁,
      .respond (7, 0) r₁] ++ .invoke (7, 1) .return' ::
        ([.effect (7, 1) .return' e₂] ++ .respond (7, 1) r₂ :: []) := by
    rw [hhist₂, hhist₁, hcalls₁]
    rfl
  obtain ⟨⟨count, hcount, -⟩, -⟩ := returns_of_reachable hreach₂
  obtain ⟨hle, hge, hr⟩ := hcount _ _ _ _ _ hhist
  have hone : count (7, 1) = 1 := le_antisymm hge hle
  refine ⟨s₂, (7, 1), r₂, hreach₂, ?_, ?_⟩
  · rw [hhist]
    simp
  · rw [hr, hone]
    rfl

end SgxErlang.CNode
