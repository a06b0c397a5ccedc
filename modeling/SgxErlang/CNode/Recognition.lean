import SgxErlang.CNode.Survival

/-!
# Which names the C node recognises

`enclave_communicator.erl` sends two names, `increment` and `return`.  The C node should act
on these two and on no other: a request with another name should leave the counter alone, and
its reply should say nothing about the counter or about earlier requests.

The comparison is `strncmp` with the length of the command, which every extension of the
command passes.  For a name that passes neither comparison the plain version replies 1; the
SGX version replies with what `res` holds from an earlier request.

## Main definitions

* `Served` — the contract at one request.
* `Known` — the names for which it is met.

## Main results

* `recognises_iff` — the sequences of requests in which exactly the two commands are
  recognised.
-/

namespace SgxErlang.CNode

/-- A well-formed request `{call, Pid, {Fun, ...}}`, with its size on the wire. -/
structure Request where
  p : ℕ
  name : List Byte
  args : List Term
  size : ℕ

/-- One round of the loop on a request. -/
def serve (v : Version) (r : Request) : Exec Node (Option Send) :=
  iteration v (.message ⟨.erlRegSend, request r.p r.name r.args, r.size⟩)

/-- The number of requests whose name is exactly `increment`. -/
def incrementsIn (reqs : List Request) : ℕ := reqs.countP fun r => r.name = increment

/-- A state that the node can be in after some requests, while it still runs. -/
def ReachedRunning (v : Version) (t : Node) : Prop :=
  ∃ res pre sends, (runAll (serve v) pre).run (Node.start res) = .ret (sends, t) ∧ t.loop = true

/-- The contract at a request that follows the requests `pre`: there is a reply; the counter
has counted the requests named `increment`, this one included, and no other request changes
it; a `return` is answered with the counter; and the reply to anything else is the same
whatever has been requested before. -/
structure Served (v : Version) (pre : List Request) (r : Request) (s : Node)
    (answer : BitVec 32) (s' : Node) : Prop where
  run : (serve v r).run s = .ret (some ⟨.pid r.p, reply answer⟩, s')
  counter : s'.a = BitVec.ofNat 32 (incrementsIn (pre ++ [r]))
  kept : r.name ≠ increment → s'.a = s.a
  returned : r.name = return' → answer = s'.a
  constant : r.name ≠ return' → ∀ t, ReachedRunning v t →
    ∃ t', (serve v r).run t = .ret (some ⟨.pid r.p, reply answer⟩, t')

/-- Exactly the two commands are recognised throughout the requests, whatever is on the
stack at the start. -/
def Recognises (v : Version) (reqs : List Request) : Prop :=
  ∀ res pre r post, reqs = pre ++ r :: post → ∀ sends s,
    (runAll (serve v) pre).run (Node.start res) = .ret (sends, s) →
    ∃ answer s', Served v pre r s answer s'

/-- The names for which the contract is met: the two commands, and in the plain version those
that start with neither. -/
def Known (v : Version) (name : List Byte) : Prop :=
  name = increment ∨ name = return' ∨
    (v = .plain ∧ ¬ increment <+: name ∧ ¬ return' <+: name)

/-! ## One request -/

variable {v : Version} {r : Request} {s s' : Node}

theorem run_serve (hsize : r.size ≤ bufsize) (hloop : s.loop = true) :
    (serve v r).run s = .ret (some ⟨.pid r.p, reply (afterRequest v r.name s).res⟩,
      afterRequest v r.name s) :=
  run_iteration_request hsize hloop

/-- A well-formed request never stops the node. -/
theorem exists_run_serve (v : Version) (r : Request) (s : Node) :
    ∃ o s', (serve v r).run s = .ret (o, s') := by
  by_cases hloop : s.loop = true
  · by_cases hsize : r.size ≤ bufsize
    · exact ⟨_, _, run_serve hsize hloop⟩
    · exact ⟨_, _, run_iteration_of_oversize hsize hloop⟩
  · have hleft : s.loop = false := by simpa using hloop
    exact ⟨_, _, run_iteration_of_not_loop hleft⟩

/-- A request that is answered has been received. -/
theorem received_of_answer {send : Send} (hrun : (serve v r).run s = .ret (some send, s')) :
    s.loop = true ∧ r.size ≤ bufsize := by
  by_cases hloop : s.loop = true
  · refine ⟨hloop, ?_⟩
    by_contra hsize
    have hnone := (run_iteration_of_oversize hsize hloop).symm.trans hrun
    cases (Outcome.pair_inj hnone).1
  · have hleft : s.loop = false := by simpa using hloop
    have hnone := (run_iteration_of_not_loop hleft).symm.trans hrun
    cases (Outcome.pair_inj hnone).1

/-- A name that starts with `increment` is taken for it. -/
theorem afterRequest_of_increment {name : List Byte} (h : increment <+: name) (v : Version)
    (s : Node) : afterRequest v name s = { s with a := s.a + 1, res := 0 } := by
  unfold afterRequest
  rw [if_pos h]

/-- A name that starts with `return` is taken for it. -/
theorem afterRequest_of_return {name : List Byte} (h : return' <+: name) (v : Version)
    (s : Node) : afterRequest v name s = { s with res := s.a } := by
  unfold afterRequest
  rw [if_neg fun hi => not_return_of_increment hi h, if_pos h]

theorem afterRequest_plain_other {name : List Byte} (hi : ¬ increment <+: name)
    (hr : ¬ return' <+: name) (s : Node) :
    afterRequest .plain name s = { s with res := 1 } := by
  rw [afterRequest, if_neg hi, if_neg hr]

theorem afterRequest_sgx_other {name : List Byte} (hi : ¬ increment <+: name)
    (hr : ¬ return' <+: name) (s : Node) : afterRequest .sgx name s = s := by
  rw [afterRequest, if_neg hi, if_neg hr]

/-- What a request with a known name does to the counter. -/
theorem a_afterRequest_of_known {name : List Byte} (h : Known v name) (s : Node) :
    (afterRequest v name s).a = if name = increment then s.a + 1 else s.a := by
  rcases h with rfl | rfl | ⟨rfl, hi, hr⟩
  · rw [afterRequest_of_increment List.prefix_rfl, if_pos rfl]
  · rw [afterRequest_of_return List.prefix_rfl, if_neg (by decide)]
  · have hne : name ≠ increment := fun heq => hi (heq ▸ List.prefix_rfl)
    rw [afterRequest_plain_other hi hr, if_neg hne]

/-- What a known name other than `return` is answered with. -/
theorem res_afterRequest_of_known {name : List Byte} (h : Known v name) (hret : name ≠ return')
    (s : Node) : (afterRequest v name s).res = if name = increment then 0 else 1 := by
  rcases h with rfl | rfl | ⟨rfl, hi, hr⟩
  · rw [afterRequest_of_increment List.prefix_rfl, if_pos rfl]
  · exact absurd rfl hret
  · have hne : name ≠ increment := fun heq => hi (heq ▸ List.prefix_rfl)
    rw [afterRequest_plain_other hi hr, if_neg hne]

/-! ## Runs -/

theorem incrementsIn_append_singleton (pre : List Request) (r : Request) :
    incrementsIn (pre ++ [r]) = incrementsIn pre + if r.name = increment then 1 else 0 := by
  rw [incrementsIn, List.countP_append, ← incrementsIn]
  by_cases h : r.name = increment <;> simp [h]

/-- The counter after one more request with a known name. -/
theorem a_served {pre : List Request} (h : Known v r.name)
    (ha : s.a = BitVec.ofNat 32 (incrementsIn pre)) :
    (afterRequest v r.name s).a = BitVec.ofNat 32 (incrementsIn (pre ++ [r])) := by
  rw [a_afterRequest_of_known h, incrementsIn_append_singleton]
  split_ifs
  · rw [ha, BitVec.ofNat_add]
    rfl
  · exact ha

/-- Every sequence of requests is run through. -/
theorem exists_run_requests (v : Version) (reqs : List Request) (s : Node) :
    ∃ sends s', (runAll (serve v) reqs).run s = .ret (sends, s') := by
  induction reqs generalizing s with
  | nil => exact ⟨[], s, rfl⟩
  | cons r reqs ih =>
      obtain ⟨o, s₁, hr⟩ := exists_run_serve v r s
      obtain ⟨os, s₂, hrs⟩ := ih s₁
      exact ⟨o :: os, s₂, runAll_cons_eq_ret_iff.mpr ⟨o, s₁, os, hr, hrs, rfl⟩⟩

/-- After requests that fit and have known names, the counter is right and the node runs. -/
theorem run_of_known (res : BitVec 32) (reqs : List Request)
    (h : ∀ r ∈ reqs, r.size ≤ bufsize ∧ Known v r.name) :
    ∃ sends s, (runAll (serve v) reqs).run (Node.start res) = .ret (sends, s) ∧
      s.a = BitVec.ofNat 32 (incrementsIn reqs) ∧ s.loop = true := by
  induction reqs using List.reverseRecOn with
  | nil => exact ⟨[], _, rfl, rfl, rfl⟩
  | append_singleton reqs r ih =>
      obtain ⟨sends, s, hrun, ha, hloop⟩ := ih fun q hq => h q (List.mem_append_left _ hq)
      obtain ⟨hsize, hknown⟩ := h r (List.mem_append_right _ (List.mem_singleton_self r))
      refine ⟨_, _, runAll_append_singleton_ret hrun (run_serve hsize hloop),
        a_served hknown ha, ?_⟩
      rw [afterRequest_loop, hloop]

/-- At a request that fits and has a known name the contract is met. -/
theorem served_of_known {pre : List Request} (hsize : r.size ≤ bufsize) (hknown : Known v r.name)
    (ha : s.a = BitVec.ofNat 32 (incrementsIn pre)) (hloop : s.loop = true) :
    Served v pre r s (afterRequest v r.name s).res (afterRequest v r.name s) where
  run := run_serve hsize hloop
  counter := a_served hknown ha
  kept := by
    intro hne
    rw [a_afterRequest_of_known hknown, if_neg hne]
  returned := by
    intro heq
    rw [heq, afterRequest_of_return List.prefix_rfl]
  constant := by
    rintro hne t ⟨-, -, -, -, hrunning⟩
    rw [res_afterRequest_of_known hknown hne s, ← res_afterRequest_of_known hknown hne t]
    exact ⟨_, run_serve hsize hrunning⟩

/-! ## The names that are not known -/

theorem reachedRunning_start (v : Version) (res : BitVec 32) : ReachedRunning v (Node.start res) :=
  ⟨res, [], [], rfl, rfl⟩

/-- The state after one `increment`. -/
theorem reachedRunning_one (v : Version) (res : BitVec 32) :
    ReachedRunning v { a := 1, res := 0, loop := true } := by
  have hfit : (⟨0, increment, [], 0⟩ : Request).size ≤ bufsize := Nat.zero_le _
  have hrun := run_serve (v := v) (s := Node.start res) hfit rfl
  rw [afterRequest_of_increment List.prefix_rfl] at hrun
  exact ⟨res, [⟨0, increment, [], 0⟩], _,
    runAll_cons_eq_ret_iff.mpr ⟨_, _, _, hrun, rfl, rfl⟩, rfl⟩

/-- Where the contract is met, the name is known. -/
theorem known_of_served {pre : List Request} {answer : BitVec 32}
    (h : Served v pre r s answer s') : Known v r.name := by
  obtain ⟨hloop, hsize⟩ := received_of_answer h.run
  by_contra hunknown
  have hinc : r.name ≠ increment := fun heq => hunknown (.inl heq)
  have hret : r.name ≠ return' := fun heq => hunknown (.inr (.inl heq))
  -- what any other state that the node can be in would answer
  have hanswer : ∀ t, ReachedRunning v t → answer = (afterRequest v r.name t).res := by
    intro t ht
    obtain ⟨t', hrun⟩ := h.constant hret t ht
    obtain ⟨-, -, -, -, hrunning⟩ := ht
    have hsend := (Outcome.pair_inj (hrun.symm.trans (run_serve hsize hrunning))).1
    exact reply_injective (congrArg Send.resp (Option.some.inj hsend))
  have hzero := hanswer _ (reachedRunning_start v 0)
  by_cases hi : increment <+: r.name
  · -- an extension of `increment` is counted
    have hs' : s' = afterRequest v r.name s :=
      (Outcome.pair_inj (h.run.symm.trans (run_serve hsize hloop))).2
    have hkept := h.kept hinc
    rw [hs', afterRequest_of_increment hi] at hkept
    simp at hkept
  · by_cases hr : return' <+: r.name
    · -- an extension of `return` is answered with the counter
      have hone := hanswer _ (reachedRunning_one v 0)
      rw [afterRequest_of_return hr] at hzero hone
      exact absurd (hzero.symm.trans hone) (by decide)
    · cases v with
      | plain => exact hunknown (.inr (.inr ⟨rfl, hi, hr⟩))
      | sgx =>
          -- anything else is answered with what is left over
          have hother := hanswer _ (reachedRunning_start .sgx 1)
          rw [afterRequest_sgx_other hi hr] at hzero hother
          exact absurd (hzero.symm.trans hother) (by decide)

/-- **Exactly the two commands are recognised throughout some requests if and only if all of
them fit the buffer and have known names.** -/
theorem recognises_iff (v : Version) (reqs : List Request) :
    Recognises v reqs ↔ ∀ r ∈ reqs, r.size ≤ bufsize ∧ Known v r.name := by
  constructor
  · intro h r hmem
    obtain ⟨pre, post, heq⟩ := List.append_of_mem hmem
    obtain ⟨sends, s, hrun⟩ := exists_run_requests v pre (Node.start 0)
    obtain ⟨answer, s', hserved⟩ := h 0 pre r post heq sends s hrun
    exact ⟨(received_of_answer hserved.run).2, known_of_served hserved⟩
  · rintro h res pre r post rfl sends s hrun
    obtain ⟨sends', s', hrun', ha, hloop⟩ := run_of_known res pre fun q hq =>
      h q (List.mem_append_left _ hq)
    obtain ⟨-, rfl⟩ := Outcome.pair_inj (hrun'.symm.trans hrun)
    obtain ⟨hsize, hknown⟩ := h r (List.mem_append_right _ List.mem_cons_self)
    exact ⟨_, _, served_of_known hsize hknown ha hloop⟩

/-- One request for `increment_all`, which both versions count as an `increment`. -/
theorem not_recognises_extension :
    let r : Request := ⟨0, increment ++ literal ['_', 'a', 'l', 'l'], [], 100⟩
    ¬ Recognises .sgx [r] ∧ ¬ Recognises .plain [r] := by
  intro r
  have hunknown : ∀ v : Version, ¬ Recognises v [r] := by
    intro v h
    obtain ⟨answer, s', hserved⟩ := h 0 [] r [] rfl [] _ rfl
    rcases known_of_served hserved with heq | heq | ⟨-, hi, -⟩
    · exact absurd heq (by decide)
    · exact absurd heq (by decide)
    · exact hi (List.prefix_append _ _)
  exact ⟨hunknown .sgx, hunknown .plain⟩

end SgxErlang.CNode
