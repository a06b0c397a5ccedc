import SgxErlang.CNode.Loop

/-!
# Which messages the C node survives

The loop takes every registered send apart without looking at it first.  `Survives` is
what a robust loop would guarantee at each message: no accessor meets a missing or
wrongly typed term, the answer goes to a pid, the loop goes on, and a message that is not
a well-formed request leaves no trace, neither in the counter nor in any later answer.
`Admissible` is the exact condition on the message, and on the state it meets, under which
the loop does guarantee this.
-/

namespace SgxErlang.CNode

/-- The packet is a registered send of `{call, Pid, {Fun, ...}}`, `Pid` a pid and `Fun` an
atom. -/
def WellFormed (pkt : Packet) : Prop :=
  ∃ p name args size, pkt = .message ⟨.erlRegSend, request p name args, size⟩

/-- The guarantee at one message: the round ends without a fault, `erl_send` is given a
pid, the loop goes on, and unless the message is a well-formed request the counter and the
answers to all later well-formed requests are what they would be without it.  A lost
connection is not a message. -/
def Survives (v : Version) (s : Node) (pkt : Packet) : Prop :=
  s.loop = true → pkt ≠ .lost →
    ∃ o s', (iteration v pkt).run s = .ret (o, s') ∧
      (∀ send ∈ o, send.dest.IsPid) ∧
      s'.loop = true ∧
      (¬ WellFormed pkt → s'.a = s.a ∧
        ∀ later, (∀ q ∈ later, WellFormed q) →
          trace (iteration v) s' later = trace (iteration v) s later)

/-- The exact condition.  The message fits the buffer; a registered send is a tuple whose
second element is a pid and whose third is a tuple starting with an atom; and if it is not
a well-formed request after all (its first element is not `call`, or it has more than
three), that atom does not start with `increment`, nor, in the SGX version, with `return`
unless `res` holds the counter already. -/
def Admissible (v : Version) (s : Node) (pkt : Packet) : Prop :=
  s.loop = true →
    ∀ emsg, pkt = .message emsg →
      emsg.size ≤ bufsize ∧
      (emsg.type = .erlRegSend →
        ∃ p name, Readable emsg.msg (.pid p) name ∧
          (¬ WellFormed pkt →
            ¬ increment <+: name ∧ (v = .sgx → return' <+: name → s.res = s.a)))

/-! ## What later requests can see of the state -/

/-- An atom that neither version knows. -/
def unknown : List Byte := []

/-- A well-formed request for an unknown function. -/
def probe : Packet := .message ⟨.erlRegSend, request 0 unknown [], 0⟩

theorem wellFormed_probe : WellFormed probe := ⟨0, unknown, [], 0, rfl⟩

theorem reply_injective : Function.Injective reply := by
  intro r r' h
  have hint : r.toInt = r'.toInt := by simpa [reply] using h
  exact BitVec.toInt_inj.mp hint

/-- In the SGX version a request for an unknown function is answered with `res`. -/
theorem trace_probe_sgx {s : Node} (hloop : s.loop = true) :
    trace (iteration .sgx) s [probe] = [.ret (some ⟨.pid 0, reply s.res⟩)] := by
  have hafter : afterRequest .sgx unknown s = s := by
    simp [afterRequest, unknown, increment, return', literal]
  have hrun : (iteration .sgx probe).run s =
      .ret (some ⟨.pid 0, reply (afterRequest .sgx unknown s).res⟩, afterRequest .sgx unknown s) :=
    run_iteration_request (Nat.zero_le bufsize) hloop
  rw [trace_cons_ret hrun, trace_nil, hafter]

/-- In the plain version every request sets `res`, so later answers do not depend on it. -/
theorem trace_plain_congr {later : List Packet} (hlater : ∀ q ∈ later, WellFormed q)
    {s t : Node} (ha : s.a = t.a) (hloop : s.loop = t.loop) :
    trace (iteration .plain) s later = trace (iteration .plain) t later := by
  induction later generalizing s t with
  | nil => rfl
  | cons q later ih =>
      have hmem : ∀ q' ∈ later, WellFormed q' := fun q' hq' =>
        hlater q' (List.mem_cons_of_mem _ hq')
      obtain ⟨p, name, args, size, rfl⟩ := hlater q List.mem_cons_self
      cases hl : s.loop with
      | false =>
          have hl' : t.loop = false := hloop ▸ hl
          rw [trace_cons_ret (run_iteration_of_not_loop hl),
            trace_cons_ret (run_iteration_of_not_loop hl'), ih hmem ha hloop]
      | true =>
          have hl' : t.loop = true := hloop ▸ hl
          by_cases hsize : size ≤ bufsize
          · have hafter : (afterRequest .plain name s).a = (afterRequest .plain name t).a ∧
                (afterRequest .plain name s).res = (afterRequest .plain name t).res := by
              unfold afterRequest
              split_ifs <;> simp [ha]
            rw [trace_cons_ret (run_iteration_request hsize hl),
              trace_cons_ret (run_iteration_request hsize hl'), hafter.2,
              ih hmem hafter.1 (by rw [afterRequest_loop, afterRequest_loop, hloop])]
          · have hexit := @ih hmem { s with loop := false } { t with loop := false } ha rfl
            rw [trace_cons_ret (run_iteration_of_oversize hsize hl),
              trace_cons_ret (run_iteration_of_oversize hsize hl'), hexit]

/-! ## The exact condition -/

theorem afterRequest_a_eq_iff {v : Version} {name : List Byte} {s : Node} :
    (afterRequest v name s).a = s.a ↔ ¬ increment <+: name := by
  have hne : s.a + 1 ≠ s.a := by bv_omega
  unfold afterRequest
  split_ifs with hi hr
  · simp only [hi, not_true_eq_false, iff_false]
    exact hne
  · simpa using hi
  · cases v <;> simpa using hi

/-- A readable message leaves no trace in later answers exactly when it does not count, and
in the SGX version does not change `res` either. -/
theorem traceless_iff {v : Version} {name : List Byte} {s : Node} (hloop : s.loop = true) :
    ((afterRequest v name s).a = s.a ∧
        ∀ later, (∀ q ∈ later, WellFormed q) →
          trace (iteration v) (afterRequest v name s) later = trace (iteration v) s later) ↔
      ¬ increment <+: name ∧ (v = .sgx → return' <+: name → s.res = s.a) := by
  rw [afterRequest_a_eq_iff]
  refine and_congr_right fun hi => ?_
  cases v with
  | sgx =>
      constructor
      · intro h _ hr
        have hprobe := h [probe] (by simpa using wellFormed_probe)
        rw [trace_probe_sgx hloop,
          trace_probe_sgx (by rw [afterRequest_loop, hloop])] at hprobe
        have hres : reply s.a = reply s.res := by
          simpa [afterRequest, hi, hr] using hprobe
        exact (reply_injective hres).symm
      · intro h later _
        have hsame : afterRequest .sgx name s = s := by
          by_cases hr : return' <+: name
          · ext1
            · simp [afterRequest, hi, hr]
            · simp [afterRequest, hi, hr, h rfl hr]
            · simp [afterRequest, hi, hr]
          · simp [afterRequest, hi, hr]
        rw [hsame]
  | plain =>
      refine ⟨fun _ h => absurd h (by decide), fun _ later hlater => ?_⟩
      exact trace_plain_congr hlater (afterRequest_a_eq_iff.mpr hi) (afterRequest_loop _ _ _)

/-- One message: the loop gives its guarantee exactly when the message is admissible. -/
theorem survives_iff_admissible (v : Version) (s : Node) (pkt : Packet) :
    Survives v s pkt ↔ Admissible v s pkt := by
  refine forall_congr' fun hloop => ?_
  cases pkt with
  | tick =>
      refine ⟨fun _ _ h => (nomatch h), fun _ _ => ?_⟩
      exact ⟨none, s, run_iteration_tick v s, by simp, hloop, fun _ => ⟨rfl, fun _ _ => rfl⟩⟩
  | lost => exact ⟨fun _ _ h => (nomatch h), fun _ h => absurd rfl h⟩
  | message emsg =>
      simp only [Packet.message.injEq, forall_eq', ne_eq, reduceCtorEq, not_false_eq_true,
        true_implies]
      by_cases hsize : emsg.size ≤ bufsize
      · obtain ⟨type, msg, size⟩ := emsg
        cases type with
        | other kind =>
            refine ⟨fun _ => ⟨hsize, nofun⟩, fun _ => ?_⟩
            exact ⟨none, s, run_iteration_other hsize s, by simp, hloop,
              fun _ => ⟨rfl, fun _ _ => rfl⟩⟩
        | erlRegSend =>
            have hrun : (iteration v (.message ⟨.erlRegSend, msg, size⟩)).run s =
                (handleRegSend v msg).run s := by
              simp only at hsize
              simp [iteration, loopBody, erlReceiveMsg, hloop, hsize]
            rw [hrun]
            constructor
            · rintro ⟨o, s', hret, hpid, -, htrace⟩
              obtain ⟨dest, name, hread⟩ := readable_of_run_handleRegSend hret
              rw [run_handleRegSend_of_readable hread] at hret
              obtain ⟨rfl, rfl⟩ := Outcome.pair_inj hret
              obtain ⟨p, rfl⟩ := Term.isPid_iff.mp (hpid _ rfl)
              exact ⟨hsize, fun _ => ⟨p, name, hread, fun hwf =>
                (traceless_iff hloop).mp (htrace hwf)⟩⟩
            · rintro ⟨-, h⟩
              obtain ⟨p, name, hread, hname⟩ := h rfl
              refine ⟨_, _, run_handleRegSend_of_readable hread s, ?_, ?_, ?_⟩
              · rintro send ⟨⟩
                trivial
              · rw [afterRequest_loop, hloop]
              · exact fun hwf => (traceless_iff hloop).mpr (hname hwf)
      · refine ⟨?_, fun h => absurd h.1 hsize⟩
        rintro ⟨o, s', hret, -, hloop', -⟩
        rw [run_iteration_of_oversize hsize hloop] at hret
        obtain ⟨-, rfl⟩ := Outcome.pair_inj hret
        exact absurd hloop' (by simp)

/-- **The C node survives a sequence of packets, whatever is on its stack at the start,
exactly when every packet is admissible in the state it meets.** -/
theorem survives_run_iff (v : Version) (res : BitVec 32) (pkts : List Packet) :
    Along (iteration v) (Survives v) (Node.start res) pkts ↔
      Along (iteration v) (Admissible v) (Node.start res) pkts :=
  ⟨fun h => h.mono fun s i => (survives_iff_admissible v s i).mp,
   fun h => h.mono fun s i => (survives_iff_admissible v s i).mpr⟩

/-- A registered send of the empty list: the very first accessor returns a null pointer and
the second one dereferences it. -/
theorem not_survives_nil :
    ¬ ∀ v res pkts, Along (iteration v) (Survives v) (Node.start res) pkts := by
  intro h
  have hs := (h .sgx 0 [.message ⟨.erlRegSend, .nil, 2⟩]).1
  obtain ⟨o, s', hret, -⟩ := hs rfl nofun
  exact absurd hret (by simp [iteration, loopBody, erlReceiveMsg, bufsize, Node.start,
    handleRegSend, erlElement])

end SgxErlang.CNode
