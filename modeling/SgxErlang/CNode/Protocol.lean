import SgxErlang.CNode.Equivalence
import SgxErlang.Lib.History
import Mathlib.Data.Multiset.Count
import Mathlib.Algebra.Order.Group.Multiset
import Mathlib.Logic.Relation

/-!
# The protocol between Erlang processes and the C node

Any number of processes of the connected node call `increment()` and `return()` of
`enclave_communicator.erl`.  `call_cnode` sends `{call, self(), {Fun}}` to the registered
name and then waits for `{cnode, Result}`; neither message carries anything that would
identify the call.  Messages are in flight in both directions and arrive in any order, and
ticks and messages of other kinds arrive in between.

The steps of the C node are rounds of the loop of `erlang-c-node/App/App.c`, so the counter
and the replies are the ones the code computes.  What the model adds is bookkeeping: every
call has an identity, its process and its number among that process's calls, messages are
labelled with it, and a history records when calls are made, handled and answered.  No step
looks at a label.

## Main results

* `Inv` — the invariant: a process that waits has at most one message underway, its own
  request or the answer to it, and a process that does not wait has none.
* `inv_step` — every step keeps it.
* `correct_of_reachable` — every reply answers the outstanding call of its process, and every
  history is linearizable in the order of handling.
-/

namespace SgxErlang.CNode

/-- A call: the process that makes it, and its number among the calls of that process. -/
abbrev CallId := ℕ × ℕ

/-- The name that stands for a command in a message. -/
def Command.name : Command → List Byte
  | .increment => CNode.increment
  | .return' => CNode.return'

/-- Something in flight to the C node. -/
inductive Inbound where
  /-- The request of call `k` of process `p`. -/
  | request (p k : ℕ) (cmd : Command) (size : ℕ)
  /-- A tick, a message of another kind, or the loss of the connection. -/
  | noise (pkt : Packet)

/-- What comes in on the connection.  The number of the call is not part of it. -/
def Inbound.packet : Inbound → Packet
  | .request p _ cmd size => .message ⟨.erlRegSend, CNode.request p cmd.name [], size⟩
  | .noise pkt => pkt

/-- The packet is no registered send. -/
def Packet.Quiet (pkt : Packet) : Prop := ∀ emsg, pkt = .message emsg → emsg.type ≠ .erlRegSend

/-- A reply in flight to a process. -/
structure Outbound where
  dest : ℕ
  msg : Term
  id : CallId

/-- A message in a mailbox.  Only replies of the C node have a label. -/
structure Mail where
  msg : Term
  id : Option CallId

/-- A process: how many calls it has completed, the call it is waiting for, its mailbox. -/
structure Proc where
  calls : ℕ
  waiting : Option Command
  mailbox : List Mail

/-- The pattern `{cnode, Result}`. -/
def cnodeResult? : Term → Option Term
  | .tuple [.atom name, result] => if name = cnode then some result else none
  | _ => none

/-- The events of the protocol: a call is made, handled by the C node, answered. -/
abbrev CallEvent := Event CallId Command Term

/-- The state of the whole system. -/
structure System where
  node : Node
  toNode : Multiset Inbound
  toProc : Multiset Outbound
  proc : ℕ → Proc
  hist : List CallEvent

namespace System

/-- The C node has just been connected, and nobody has called it. -/
def init (res : BitVec 32) : System where
  node := Node.start res
  toNode := 0
  toProc := 0
  proc := fun _ => ⟨0, none, []⟩
  hist := []

/-- Process `p` enters `call_cnode`: it sends its request and starts to wait. -/
def startCall (s : System) (p : ℕ) (cmd : Command) (size : ℕ) : System :=
  { s with
    toNode := .request p (s.proc p).calls cmd size ::ₘ s.toNode
    proc := Function.update s.proc p { s.proc p with waiting := some cmd }
    hist := s.hist ++ [.invoke (p, (s.proc p).calls) cmd] }

/-- A message arrives in the mailbox of `p`. -/
def putMail (s : System) (p : ℕ) (m : Mail) : System :=
  { s with
    proc := Function.update s.proc p { s.proc p with mailbox := (s.proc p).mailbox ++ [m] } }

/-- The `receive` of process `p` takes a message out of its mailbox, and `call_cnode`
returns. -/
def finishCall (s : System) (p : ℕ) (rest : List Mail) (result : Term) : System :=
  { s with
    proc := Function.update s.proc p ⟨(s.proc p).calls + 1, none, rest⟩
    hist := s.hist ++ [.respond (p, (s.proc p).calls) result] }

variable (s : System) (p q : ℕ)

theorem proc_startCall (cmd : Command) (size : ℕ) : (s.startCall p cmd size).proc q =
    if q = p then { s.proc p with waiting := some cmd } else s.proc q := Function.update_apply ..

@[simp] theorem calls_startCall (cmd : Command) (size : ℕ) :
    ((s.startCall p cmd size).proc q).calls = (s.proc q).calls := by
  rw [proc_startCall]
  split_ifs with hq
  · rw [hq]
  · rfl

@[simp] theorem mailbox_startCall (cmd : Command) (size : ℕ) :
    ((s.startCall p cmd size).proc q).mailbox = (s.proc q).mailbox := by
  rw [proc_startCall]
  split_ifs with hq
  · rw [hq]
  · rfl

theorem proc_putMail (m : Mail) : (s.putMail p m).proc q =
    if q = p then { s.proc p with mailbox := (s.proc p).mailbox ++ [m] } else s.proc q :=
  Function.update_apply ..

@[simp] theorem calls_putMail (m : Mail) : ((s.putMail p m).proc q).calls = (s.proc q).calls := by
  rw [proc_putMail]
  split_ifs with hq
  · rw [hq]
  · rfl

@[simp] theorem waiting_putMail (m : Mail) :
    ((s.putMail p m).proc q).waiting = (s.proc q).waiting := by
  rw [proc_putMail]
  split_ifs with hq
  · rw [hq]
  · rfl

theorem proc_finishCall (rest : List Mail) (result : Term) :
    (s.finishCall p rest result).proc q =
      if q = p then ⟨(s.proc p).calls + 1, none, rest⟩ else s.proc q := Function.update_apply ..

end System

/-- The reply that a round of the loop puts in flight. -/
def outbound : Inbound → Option Send → Multiset Outbound
  | .request p k _ _, some ⟨.pid q, resp⟩ => {⟨q, resp, (p, k)⟩}
  | _, _ => 0

/-- The record of a round of the loop: a request that was answered has been handled. -/
def handled : Inbound → Option Send → List CallEvent
  | .request p k cmd _, some ⟨_, resp⟩ =>
      match cnodeResult? resp with
      | some result => [.effect (p, k) cmd result]
      | none => []
  | _, _ => []

/-- The steps of the system. -/
inductive Step (s : System) : System → Prop where
  /-- A process that is not waiting makes a call. -/
  | call (p : ℕ) (cmd : Command) (size : ℕ) :
      (s.proc p).waiting = none → Step s (s.startCall p cmd size)
  /-- Something else is sent to the C node. -/
  | noise (pkt : Packet) :
      pkt.Quiet →
      Step s { s with toNode := .noise pkt ::ₘ s.toNode }
  /-- A process gets a message from elsewhere; only the C node sends `{cnode, _}`. -/
  | mail (p : ℕ) (msg : Term) : cnodeResult? msg = none → Step s (s.putMail p ⟨msg, none⟩)
  /-- The C node, if it is still in its loop, receives something and does one round. -/
  | receive (i : Inbound) (rest : Multiset Inbound) (o : Option Send) (node' : Node) :
      s.toNode = i ::ₘ rest → s.node.loop = true →
      (iteration .sgx i.packet).run s.node = .ret (o, node') →
      Step s { s with
        node := node', toNode := rest, toProc := outbound i o + s.toProc,
        hist := s.hist ++ handled i o }
  /-- A reply arrives. -/
  | deliver (r : Outbound) (rest : Multiset Outbound) :
      s.toProc = r ::ₘ rest →
      Step s ({ s with toProc := rest }.putMail r.dest ⟨r.msg, some r.id⟩)
  /-- A waiting process takes the first `{cnode, Result}` of its mailbox. -/
  | take (p : ℕ) (cmd : Command) (l₁ : List Mail) (m : Mail) (l₂ : List Mail) (result : Term) :
      (s.proc p).waiting = some cmd → (s.proc p).mailbox = l₁ ++ m :: l₂ →
      (∀ x ∈ l₁, cnodeResult? x.msg = none) → cnodeResult? m.msg = some result →
      Step s (s.finishCall p (l₁ ++ l₂) result)

/-- The states the system can get into, whatever is on the stack of the C node. -/
def Reachable (s : System) : Prop := ∃ res, Relation.ReflTransGen Step (System.init res) s

/-- What the counter is for: the results of the two commands, and the number of increments
they count. -/
def counterSpec : Command → ℕ → Term × ℕ
  | .increment, n => (.int 0, n + 1)
  | .return', n => (.int (BitVec.ofNat 32 n).toInt, n)

/-! ## What a round of the loop does with a command -/

/-- A command moves the counter as the specification says, and is answered with the result
that the specification gives. -/
theorem afterRequest_spec {s : Node} {n : ℕ} (ha : s.a = BitVec.ofNat 32 n) (cmd : Command) :
    (afterRequest .sgx cmd.name s).a = BitVec.ofNat 32 (counterSpec cmd n).2 ∧
      cnodeResult? (reply (afterRequest .sgx cmd.name s).res) = some (counterSpec cmd n).1 := by
  cases cmd with
  | increment =>
      have hafter : afterRequest .sgx Command.increment.name s =
          { s with a := s.a + 1, res := 0 } := if_pos List.prefix_rfl
      rw [hafter, ha]
      exact ⟨by simp [counterSpec, BitVec.ofNat_add], rfl⟩
  | return' =>
      have hno : ¬ CNode.increment <+: Command.return'.name := by decide
      have hafter : afterRequest .sgx Command.return'.name s = { s with res := s.a } := by
        rw [afterRequest, if_neg hno]
        exact if_pos List.prefix_rfl
      rw [hafter]
      exact ⟨ha, by rw [ha]; rfl⟩

/-- A round with anything but a registered send answers nothing and keeps the counter. -/
theorem run_iteration_quiet {pkt : Packet} (hq : pkt.Quiet) {s s' : Node} {o : Option Send}
    (hrun : (iteration .sgx pkt).run s = .ret (o, s')) : o = none ∧ s'.a = s.a := by
  cases hloop : s.loop with
  | false =>
      rw [run_iteration_of_not_loop hloop] at hrun
      obtain ⟨rfl, rfl⟩ := Outcome.pair_inj hrun
      exact ⟨rfl, rfl⟩
  | true =>
      cases pkt with
      | tick =>
          rw [run_iteration_tick] at hrun
          obtain ⟨rfl, rfl⟩ := Outcome.pair_inj hrun
          exact ⟨rfl, rfl⟩
      | lost =>
          have hlost : (iteration .sgx .lost).run s = .ret (none, { s with loop := false }) := by
            simp [iteration, loopBody, erlReceiveMsg, hloop]
          rw [hlost] at hrun
          obtain ⟨rfl, rfl⟩ := Outcome.pair_inj hrun
          exact ⟨rfl, rfl⟩
      | message emsg =>
          obtain ⟨type, msg, size⟩ := emsg
          cases type with
          | erlRegSend => exact absurd rfl (hq _ rfl)
          | other kind =>
              by_cases hsize : size ≤ bufsize
              · rw [run_iteration_other hsize] at hrun
                obtain ⟨rfl, rfl⟩ := Outcome.pair_inj hrun
                exact ⟨rfl, rfl⟩
              · rw [run_iteration_of_oversize (by exact hsize) hloop] at hrun
                obtain ⟨rfl, rfl⟩ := Outcome.pair_inj hrun
                exact ⟨rfl, rfl⟩

/-! ## The invariant -/

/-- The message is a request of process `p`. -/
def Inbound.IsRequestOf (p : ℕ) : Inbound → Prop
  | .request q _ _ _ => q = p
  | .noise _ => False

instance (p : ℕ) : DecidablePred (Inbound.IsRequestOf p)
  | .request q _ _ _ => inferInstanceAs (Decidable (q = p))
  | .noise _ => inferInstanceAs (Decidable False)

/-- The mail matches the pattern `call_cnode` waits for. -/
def Mail.isAnswer (m : Mail) : Bool := (cnodeResult? m.msg).isSome

/-- How many requests of process `p` there are. -/
def requestsOf (p : ℕ) (ms : Multiset Inbound) : ℕ := ms.countP (Inbound.IsRequestOf p)

/-- How many replies to process `p` there are. -/
def repliesTo (p : ℕ) (ms : Multiset Outbound) : ℕ := ms.countP fun r => r.dest = p

/-- How many answers there are in a mailbox. -/
def answersIn (box : List Mail) : ℕ := box.countP Mail.isAnswer

theorem requestsOf_cons_request (p q k : ℕ) (cmd : Command) (size : ℕ) (ms : Multiset Inbound) :
    requestsOf p (.request q k cmd size ::ₘ ms) = requestsOf p ms + if q = p then 1 else 0 :=
  Multiset.countP_cons ..

theorem requestsOf_cons_noise (p : ℕ) (pkt : Packet) (ms : Multiset Inbound) :
    requestsOf p (.noise pkt ::ₘ ms) = requestsOf p ms :=
  Multiset.countP_cons_of_neg ms fun hf => hf

theorem requestsOf_le_cons (p : ℕ) (i : Inbound) (ms : Multiset Inbound) :
    requestsOf p ms ≤ requestsOf p (i ::ₘ ms) :=
  Multiset.countP_le_of_le _ (Multiset.le_cons_self ms i)

theorem requestsOf_eq_zero_iff {p : ℕ} {ms : Multiset Inbound} :
    requestsOf p ms = 0 ↔ ∀ k cmd size, .request p k cmd size ∉ ms := by
  rw [requestsOf, Multiset.countP_eq_zero]
  constructor
  · exact fun h k cmd size hmem => h _ hmem rfl
  · intro h i hi hreq
    cases i with
    | noise pkt => exact hreq
    | request q k cmd size =>
        obtain rfl : q = p := hreq
        exact h k cmd size hi

theorem repliesTo_cons (p : ℕ) (r : Outbound) (ms : Multiset Outbound) :
    repliesTo p (r ::ₘ ms) = repliesTo p ms + if r.dest = p then 1 else 0 :=
  Multiset.countP_cons ..

theorem repliesTo_eq_zero_iff {p : ℕ} {ms : Multiset Outbound} :
    repliesTo p ms = 0 ↔ ∀ r ∈ ms, r.dest ≠ p := Multiset.countP_eq_zero

@[simp] theorem answersIn_nil : answersIn [] = 0 := rfl

theorem answersIn_append (l₁ l₂ : List Mail) :
    answersIn (l₁ ++ l₂) = answersIn l₁ + answersIn l₂ := List.countP_append

theorem answersIn_cons (m : Mail) (box : List Mail) :
    answersIn (m :: box) = answersIn box + if m.isAnswer = true then 1 else 0 :=
  List.countP_cons

theorem answersIn_eq_zero_iff {box : List Mail} :
    answersIn box = 0 ↔ ∀ m ∈ box, ¬ m.isAnswer = true := List.countP_eq_zero

/-- How many messages of a call of process `p` there are: requests, replies, answers. -/
def System.underway (s : System) (p : ℕ) : ℕ :=
  requestsOf p s.toNode + repliesTo p s.toProc + answersIn (s.proc p).mailbox

/-- Call `k` of process `p` is its outstanding one, and has not been handled. -/
structure Pending (s : System) (p k : ℕ) (cmd : Command) : Prop where
  current : k = (s.proc p).calls
  waiting : (s.proc p).waiting = some cmd
  invoked : .invoke (p, k) cmd ∈ s.hist
  unhandled : ∀ op r, .effect (p, k) op r ∉ s.hist

/-- The message answers the outstanding call of process `p`, with the result that was
recorded when the call was handled. -/
structure Answers (s : System) (p : ℕ) (id : CallId) (msg : Term) : Prop where
  current : id = (p, (s.proc p).calls)
  result : ∃ cmd result, (s.proc p).waiting = some cmd ∧
    cnodeResult? msg = some result ∧ .effect id cmd result ∈ s.hist

/-- The event belongs to a call that has been completed, or to the outstanding call of its
process, which has not responded. -/
def Dated (s : System) (e : CallEvent) : Prop :=
  e.call.2 < (s.proc e.call.1).calls ∨
    (e.call.2 = (s.proc e.call.1).calls ∧ (s.proc e.call.1).waiting ≠ none ∧
      e.respond? = none)

/-- The invariant of the protocol. -/
structure Inv (s : System) : Prop where
  paced : WellPaced s.hist
  lawful : Lawful counterSpec 0 (effects s.hist)
  counter : s.node.a = BitVec.ofNat 32 (specState counterSpec 0 (effects s.hist))
  dated : ∀ e ∈ s.hist, Dated s e
  quiet : ∀ pkt, .noise pkt ∈ s.toNode → pkt.Quiet
  requests : ∀ p k cmd size, .request p k cmd size ∈ s.toNode → Pending s p k cmd
  replies : ∀ r ∈ s.toProc, Answers s r.dest r.id r.msg
  mails : ∀ p, ∀ m ∈ (s.proc p).mailbox, m.isAnswer = true →
    ∃ id, m.id = some id ∧ Answers s p id m.msg
  single : ∀ p, s.underway p ≤ 1

/-- What the messages of a process say stays true while the process neither starts nor
finishes a call. -/
theorem Answers.of_same {s s' : System} {p : ℕ} {id : CallId} {msg : Term}
    (h : Answers s p id msg) (hcalls : (s'.proc p).calls = (s.proc p).calls)
    (hwaiting : (s'.proc p).waiting = (s.proc p).waiting)
    (hhist : ∀ e ∈ s.hist, e ∈ s'.hist) : Answers s' p id msg := by
  obtain ⟨cmd, result, hw, hmsg, heff⟩ := h.result
  exact ⟨by rw [h.current, hcalls], cmd, result, by rw [hwaiting, hw], hmsg, hhist _ heff⟩

theorem Dated.of_same {s s' : System} {e : CallEvent} (h : Dated s e)
    (hcalls : (s'.proc e.call.1).calls = (s.proc e.call.1).calls)
    (hwaiting : (s'.proc e.call.1).waiting = (s.proc e.call.1).waiting) : Dated s' e := by
  unfold Dated
  rw [hcalls, hwaiting]
  exact h

theorem Pending.of_same {s s' : System} {p k : ℕ} {cmd : Command} (h : Pending s p k cmd)
    (hcalls : (s'.proc p).calls = (s.proc p).calls)
    (hwaiting : (s'.proc p).waiting = (s.proc p).waiting)
    (hhist : ∀ e ∈ s.hist, e ∈ s'.hist)
    (hnew : ∀ op r, .effect (p, k) op r ∈ s'.hist → .effect (p, k) op r ∈ s.hist) :
    Pending s' p k cmd where
  current := by rw [h.current, hcalls]
  waiting := by rw [hwaiting, h.waiting]
  invoked := hhist _ h.invoked
  unhandled := fun op r hmem => h.unhandled op r (hnew op r hmem)

namespace Inv

variable {s : System}

/-- Nothing is underway for a process that does not wait. -/
theorem underway_of_idle (h : Inv s) {p : ℕ} (hidle : (s.proc p).waiting = none) :
    s.underway p = 0 := by
  have hnode : requestsOf p s.toNode = 0 := by
    refine requestsOf_eq_zero_iff.mpr fun k cmd size hmem => ?_
    have hw := (h.requests p k cmd size hmem).waiting
    rw [hidle] at hw
    exact nomatch hw
  have hproc : repliesTo p s.toProc = 0 := by
    refine repliesTo_eq_zero_iff.mpr fun r hr hdest => ?_
    obtain ⟨cmd, -, hw, -⟩ := (h.replies r hr).result
    rw [hdest, hidle] at hw
    exact nomatch hw
  have hmail : answersIn (s.proc p).mailbox = 0 := by
    refine answersIn_eq_zero_iff.mpr fun m hm hans => ?_
    obtain ⟨id, -, hid⟩ := h.mails p m hm hans
    obtain ⟨cmd, -, hw, -⟩ := hid.result
    rw [hidle] at hw
    exact nomatch hw
  rw [System.underway, hnode, hproc, hmail]

/-- The outstanding call has not responded. -/
theorem not_responded (h : Inv s) {p k : ℕ} (hk : k = (s.proc p).calls) (r : Term) :
    .respond (p, k) r ∉ s.hist := by
  intro hmem
  rcases h.dated _ hmem with hlt | ⟨-, -, hresp⟩
  · exact absurd hk hlt.ne
  · exact nomatch hresp

/-- The next call of a process that does not wait has left no trace yet. -/
theorem fresh_of_idle (h : Inv s) {p : ℕ} (hidle : (s.proc p).waiting = none) :
    ∀ e ∈ s.hist, e.call ≠ (p, (s.proc p).calls) := by
  intro e he heq
  rcases h.dated e he with hlt | ⟨-, hw, -⟩
  · rw [heq] at hlt
    exact lt_irrefl _ hlt
  · rw [heq] at hw
    exact hw hidle

/-- No event belongs to a later call than the outstanding one. -/
theorem call_lt_succ (h : Inv s) {e : CallEvent} (he : e ∈ s.hist) :
    e.call.2 < (s.proc e.call.1).calls + 1 := by
  rcases h.dated e he with hlt | ⟨heq, -⟩
  · omega
  · omega

/-- A request is the only message underway for its process. -/
theorem alone_of_request (h : Inv s) {p k : ℕ} {cmd : Command} {size : ℕ} {rest : Multiset Inbound}
    (hnode : s.toNode = .request p k cmd size ::ₘ rest) :
    requestsOf p rest = 0 ∧ repliesTo p s.toProc = 0 ∧ answersIn (s.proc p).mailbox = 0 := by
  have hcount := h.single p
  rw [System.underway, hnode, requestsOf_cons_request, if_pos rfl] at hcount
  omega

/-- So is an answer in a mailbox. -/
theorem alone_of_mail (h : Inv s) {p : ℕ} {l₁ l₂ : List Mail} {m : Mail}
    (hbox : (s.proc p).mailbox = l₁ ++ m :: l₂) (hans : m.isAnswer = true) :
    requestsOf p s.toNode = 0 ∧ repliesTo p s.toProc = 0 ∧ answersIn (l₁ ++ l₂) = 0 := by
  have hcount := h.single p
  rw [System.underway, hbox, answersIn_append, answersIn_cons, if_pos hans] at hcount
  rw [answersIn_append]
  omega

/-- Only a handled call adds an effect to the history. -/
theorem mem_of_effect_mem_snoc {hist : List CallEvent} {e : CallEvent} {c : CallId} {op : Command}
    {r : Term} (h : .effect c op r ∈ hist ++ [e]) (he : .effect c op r ≠ e) :
    .effect c op r ∈ hist := by
  rcases List.mem_append.mp h with h | h
  · exact h
  · exact absurd (List.mem_singleton.mp h) he

/-! ### The steps keep it -/

theorem init (res : BitVec 32) : Inv (System.init res) where
  paced := .nil
  lawful := by
    intro pre c op r post heq
    exact absurd heq (by simp [System.init, effects])
  counter := rfl
  dated := nofun
  quiet := nofun
  requests := nofun
  replies := nofun
  mails := nofun
  single := fun p => Nat.zero_le 1

theorem startCall (h : Inv s) {p : ℕ} (cmd : Command) (size : ℕ)
    (hidle : (s.proc p).waiting = none) : Inv (s.startCall p cmd size) := by
  have hcalls := fun q => s.calls_startCall p q cmd size
  -- a process with something underway waits already, so it is not `p`
  have hwaiting : ∀ q c, (s.proc q).waiting = some c →
      ((s.startCall p cmd size).proc q).waiting = (s.proc q).waiting := by
    intro q c hw
    rw [System.proc_startCall, if_neg]
    rintro rfl
    rw [hidle] at hw
    exact nomatch hw
  have hwait : ((s.startCall p cmd size).proc p).waiting = some cmd := by
    rw [System.proc_startCall, if_pos rfl]
  have hhist : (s.startCall p cmd size).hist =
      s.hist ++ [.invoke (p, (s.proc p).calls) cmd] := rfl
  have hmono : ∀ e ∈ s.hist, e ∈ (s.startCall p cmd size).hist :=
    fun e he => List.mem_append_left _ he
  have hfresh := h.fresh_of_idle hidle
  have hans : ∀ {q id msg}, Answers s q id msg → Answers (s.startCall p cmd size) q id msg := by
    intro q id msg hq
    obtain ⟨c, -, hw, -⟩ := hq.result
    exact hq.of_same (hcalls q) (hwaiting q c hw) hmono
  refine ⟨?_, ?_, ?_, ?_, ?_, ?_, ?_, ?_, ?_⟩
  · exact h.paced.snoc hfresh
  · rw [hhist, effects_append, effects_invoke, List.append_nil]
    exact h.lawful
  · rw [hhist, effects_append, effects_invoke, List.append_nil]
    exact h.counter
  · intro e he
    rcases List.mem_append.mp he with he | he
    · rcases h.dated e he with hlt | ⟨heq, hw, hr⟩
      · exact .inl (by rw [hcalls]; exact hlt)
      · obtain ⟨c, hc⟩ := Option.ne_none_iff_exists'.mp hw
        exact .inr ⟨by rw [hcalls]; exact heq, by rw [hwaiting _ c hc]; exact hw, hr⟩
    · obtain rfl := List.mem_singleton.mp he
      refine .inr ⟨(hcalls p).symm, ?_, rfl⟩
      rw [Event.call, hwait]
      exact Option.some_ne_none cmd
  · intro pkt hpkt
    rcases Multiset.mem_cons.mp hpkt with heq | hpkt
    · exact nomatch heq
    · exact h.quiet pkt hpkt
  · intro q k c sz hreq
    rcases Multiset.mem_cons.mp hreq with heq | hreq
    · obtain ⟨rfl, rfl, rfl, rfl⟩ := Inbound.request.inj heq
      refine ⟨(hcalls q).symm, hwait, List.mem_append_right _ (by simp), ?_⟩
      intro op r hmem
      exact hfresh _ (mem_of_effect_mem_snoc hmem nofun) rfl
    · have hq := h.requests q k c sz hreq
      refine hq.of_same (hcalls q) (hwaiting q c hq.waiting) hmono ?_
      exact fun op r hmem => mem_of_effect_mem_snoc hmem nofun
  · exact fun r hr => hans (h.replies r hr)
  · intro q m hm hisAns
    rw [System.mailbox_startCall] at hm
    obtain ⟨id, hid, hq⟩ := h.mails q m hm hisAns
    exact ⟨id, hid, hans hq⟩
  · intro q
    have hnode : (s.startCall p cmd size).toNode =
        .request p (s.proc p).calls cmd size ::ₘ s.toNode := rfl
    have hreplies : (s.startCall p cmd size).toProc = s.toProc := rfl
    have hcount := h.single q
    have hzero := h.underway_of_idle hidle
    rw [System.underway] at hcount hzero ⊢
    rw [hnode, hreplies, System.mailbox_startCall, requestsOf_cons_request]
    split_ifs with hq
    · rw [← hq]
      omega
    · exact hcount

/-- The messages to the C node change, without a new request, and so may the C node, but for
its counter. -/
theorem withInbound (h : Inv s) {inbound : Multiset Inbound} {node' : Node}
    (ha : node'.a = s.node.a)
    (hsub : ∀ i ∈ inbound, i ∈ s.toNode ∨ ∃ pkt, i = .noise pkt ∧ pkt.Quiet)
    (hcount : ∀ p, requestsOf p inbound ≤ requestsOf p s.toNode) :
    Inv { s with node := node', toNode := inbound } where
  paced := h.paced
  lawful := h.lawful
  counter := ha.trans h.counter
  dated := h.dated
  quiet := by
    intro pkt hpkt
    rcases hsub _ hpkt with hold | ⟨pkt', heq, hq⟩
    · exact h.quiet pkt hold
    · obtain rfl := Inbound.noise.inj heq
      exact hq
  requests := by
    intro p k cmd size hreq
    rcases hsub _ hreq with hold | ⟨pkt, heq, -⟩
    · exact (h.requests p k cmd size hold).of_same rfl rfl (fun _ he => he) (fun _ _ he => he)
    · cases heq
  replies := fun r hr => (h.replies r hr).of_same rfl rfl fun _ he => he
  mails := by
    intro p m hm hans
    obtain ⟨id, hid, hm⟩ := h.mails p m hm hans
    exact ⟨id, hid, hm.of_same rfl rfl fun _ he => he⟩
  single := by
    intro p
    have hsingle := h.single p
    have hle := hcount p
    rw [System.underway] at hsingle ⊢
    dsimp only
    omega

/-- Noise on the way to the C node. -/
theorem noise (h : Inv s) {pkt : Packet} (hq : pkt.Quiet) :
    Inv { s with toNode := .noise pkt ::ₘ s.toNode } := by
  apply h.withInbound rfl
  · intro i hi
    rcases Multiset.mem_cons.mp hi with rfl | hold
    · exact .inr ⟨pkt, rfl, hq⟩
    · exact .inl hold
  · intro p
    rw [requestsOf_cons_noise]

/-- A message that arrives in a mailbox: one from elsewhere, or a reply, which is then no
longer in flight. -/
theorem putMail (h : Inv s) {p : ℕ} {m : Mail} {rest : Multiset Outbound}
    (hsub : ∀ r ∈ rest, r ∈ s.toProc)
    (hm : m.isAnswer = true → ∃ id, m.id = some id ∧ Answers s p id m.msg)
    (hcount : ∀ q, repliesTo q rest + (if q = p ∧ m.isAnswer = true then 1 else 0) ≤
      repliesTo q s.toProc) :
    Inv ({ s with toProc := rest }.putMail p m) := by
  let t : System := { s with toProc := rest }
  have hcalls := fun q => t.calls_putMail p q m
  have hwaiting := fun q => t.waiting_putMail p q m
  have hans : ∀ {q id msg}, Answers s q id msg → Answers (t.putMail p m) q id msg :=
    fun hq => hq.of_same (hcalls _) (hwaiting _) fun _ he => he
  refine ⟨h.paced, h.lawful, h.counter, ?_, h.quiet, ?_, ?_, ?_, ?_⟩
  · exact fun e he => (h.dated e he).of_same (hcalls _) (hwaiting _)
  · intro q k cmd size hreq
    have hpend := h.requests q k cmd size hreq
    exact hpend.of_same (hcalls q) (hwaiting q) (fun _ he => he) (fun _ _ he => he)
  · exact fun r hr => hans (h.replies r (hsub r hr))
  · intro q m' hm' hisAns
    rw [System.proc_putMail] at hm'
    split_ifs at hm' with hq
    · rcases List.mem_append.mp hm' with hm' | hm'
      · obtain ⟨id, hid, hq'⟩ := h.mails p m' hm' hisAns
        exact ⟨id, hid, hans (hq ▸ hq')⟩
      · obtain rfl := List.mem_singleton.mp hm'
        obtain ⟨id, hid, hq'⟩ := hm hisAns
        exact ⟨id, hid, hans (hq ▸ hq')⟩
    · obtain ⟨id, hid, hq'⟩ := h.mails q m' hm' hisAns
      exact ⟨id, hid, hans hq'⟩
  · intro q
    have hmailbox : answersIn ((t.putMail p m).proc q).mailbox =
        answersIn (s.proc q).mailbox + if q = p ∧ m.isAnswer = true then 1 else 0 := by
      rw [System.proc_putMail]
      by_cases hq : q = p
      · simp [hq, answersIn_append, answersIn_cons, t]
      · simp [hq, t]
    have hnode : (t.putMail p m).toNode = s.toNode := rfl
    have hreplies : (t.putMail p m).toProc = rest := rfl
    have hsingle := h.single q
    have hle := hcount q
    rw [System.underway] at hsingle ⊢
    rw [hmailbox, hnode, hreplies]
    omega

/-- The C node takes a request and answers it. -/
theorem handle (h : Inv s) {p k : ℕ} {cmd : Command} {size : ℕ} {rest : Multiset Inbound}
    (hnode : s.toNode = .request p k cmd size ::ₘ rest) {result : Term} {resp : Term}
    {node' : Node} (hresp : cnodeResult? resp = some result)
    (hresult : result = (counterSpec cmd (specState counterSpec 0 (effects s.hist))).1)
    (ha : node'.a =
      BitVec.ofNat 32 (counterSpec cmd (specState counterSpec 0 (effects s.hist))).2) :
    Inv { s with
      node := node', toNode := rest, toProc := {⟨p, resp, (p, k)⟩} + s.toProc,
      hist := s.hist ++ [.effect (p, k) cmd result] } := by
  have hpend : Pending s p k cmd :=
    h.requests p k cmd size (by rw [hnode]; exact Multiset.mem_cons_self _ _)
  have hrest : ∀ i ∈ rest, i ∈ s.toNode := by
    intro i hi
    rw [hnode]
    exact Multiset.mem_cons_of_mem hi
  obtain ⟨hrequests, -, -⟩ := h.alone_of_request hnode
  have hmono : ∀ e ∈ s.hist, e ∈ s.hist ++ [Event.effect (p, k) cmd result] :=
    fun e he => List.mem_append_left _ he
  refine ⟨?_, ?_, ?_, ?_, ?_, ?_, ?_, ?_, ?_⟩
  · exact h.paced.snoc ⟨hpend.invoked, hpend.unhandled, h.not_responded hpend.current⟩
  · rw [effects_append, effects_effect]
    exact h.lawful.snoc hresult
  · rw [effects_append, effects_effect, specState_snoc]
    exact ha
  · intro e he
    rcases List.mem_append.mp he with he | he
    · exact h.dated e he
    · obtain rfl := List.mem_singleton.mp he
      refine .inr ⟨hpend.current, ?_, rfl⟩
      exact Option.ne_none_iff_exists'.mpr ⟨cmd, hpend.waiting⟩
  · exact fun pkt hpkt => h.quiet pkt (hrest _ hpkt)
  · intro q k' c sz hreq
    have hq : q ≠ p := by
      rintro rfl
      exact requestsOf_eq_zero_iff.mp hrequests k' c sz hreq
    refine (h.requests q k' c sz (hrest _ hreq)).of_same rfl rfl hmono ?_
    intro op r hmem
    apply mem_of_effect_mem_snoc hmem
    intro heq
    exact hq (congrArg Prod.fst (Event.effect.inj heq).1)
  · intro r hr
    rcases Multiset.mem_add.mp hr with hr | hr
    · obtain rfl := Multiset.mem_singleton.mp hr
      refine ⟨by rw [hpend.current], cmd, result, hpend.waiting, hresp, ?_⟩
      exact List.mem_append_right _ (List.mem_singleton_self _)
    · exact (h.replies r hr).of_same rfl rfl hmono
  · intro q m hm hans
    obtain ⟨id, hid, hq⟩ := h.mails q m hm hans
    exact ⟨id, hid, hq.of_same rfl rfl hmono⟩
  · intro q
    have hcount := h.single q
    rw [System.underway, hnode, requestsOf_cons_request] at hcount
    rw [System.underway, Multiset.singleton_add, repliesTo_cons]
    dsimp only
    omega

/-- Something reaches the C node and is not answered. -/
theorem drop (h : Inv s) {i : Inbound} {rest : Multiset Inbound}
    (hnode : s.toNode = i ::ₘ rest) {node' : Node} (ha : node'.a = s.node.a) :
    Inv { s with node := node', toNode := rest } := by
  apply h.withInbound ha
  · intro j hj
    rw [hnode]
    exact .inl (Multiset.mem_cons_of_mem hj)
  · intro p
    rw [hnode]
    exact requestsOf_le_cons p i rest

/-- Any round of the loop. -/
theorem receive (h : Inv s) {i : Inbound} {rest : Multiset Inbound} {o : Option Send}
    {node' : Node} (hnode : s.toNode = i ::ₘ rest) (hloop : s.node.loop = true)
    (hrun : (iteration .sgx i.packet).run s.node = .ret (o, node')) :
    Inv { s with
      node := node', toNode := rest, toProc := outbound i o + s.toProc,
      hist := s.hist ++ handled i o } := by
  cases i with
  | noise pkt =>
      have hq := h.quiet pkt (by rw [hnode]; exact Multiset.mem_cons_self _ _)
      obtain ⟨rfl, ha⟩ := run_iteration_quiet hq hrun
      simpa [outbound, handled] using h.drop hnode ha
  | request p k cmd size =>
      by_cases hsize : size ≤ bufsize
      · rw [Inbound.packet, run_iteration_request hsize hloop] at hrun
        obtain ⟨rfl, rfl⟩ := Outcome.pair_inj hrun
        obtain ⟨ha, hresp⟩ := afterRequest_spec h.counter cmd
        simpa [outbound, handled, hresp] using h.handle hnode hresp rfl ha
      · rw [Inbound.packet, run_iteration_of_oversize (by exact hsize) hloop] at hrun
        obtain ⟨rfl, rfl⟩ := Outcome.pair_inj hrun
        have hdrop : Inv { s with node := { s.node with loop := false }, toNode := rest } :=
          h.drop hnode rfl
        simpa [outbound, handled] using hdrop

/-- A process takes its answer and returns. -/
theorem finishCall (h : Inv s) {p : ℕ} {cmd : Command} {l₁ l₂ : List Mail} {m : Mail}
    {result : Term} (hwait : (s.proc p).waiting = some cmd)
    (hbox : (s.proc p).mailbox = l₁ ++ m :: l₂) (hm : cnodeResult? m.msg = some result) :
    Inv (s.finishCall p (l₁ ++ l₂) result) := by
  have hisAns : m.isAnswer = true := by rw [Mail.isAnswer, hm, Option.isSome_some]
  obtain ⟨id, -, hans⟩ := h.mails p m (by rw [hbox]; simp) hisAns
  obtain ⟨c, r, -, hr, heff⟩ := hans.result
  obtain rfl : r = result := Option.some.inj (hr.symm.trans hm)
  rw [hans.current] at heff
  have hproc := fun q => s.proc_finishCall p q (l₁ ++ l₂) r
  have hhist : (s.finishCall p (l₁ ++ l₂) r).hist =
      s.hist ++ [.respond (p, (s.proc p).calls) r] := rfl
  have hmono : ∀ e ∈ s.hist, e ∈ (s.finishCall p (l₁ ++ l₂) r).hist :=
    fun e he => List.mem_append_left _ he
  obtain ⟨hnode, hreplies, hrest⟩ := h.alone_of_mail hbox hisAns
  have hframe : ∀ q, q ≠ p → (s.finishCall p (l₁ ++ l₂) r).proc q = s.proc q :=
    fun q hq => by rw [hproc, if_neg hq]
  refine ⟨?_, ?_, ?_, ?_, h.quiet, ?_, ?_, ?_, ?_⟩
  · exact h.paced.snoc ⟨⟨c, heff⟩, h.not_responded rfl⟩
  · rw [hhist, effects_append, effects_respond, List.append_nil]
    exact h.lawful
  · rw [hhist, effects_append, effects_respond, List.append_nil]
    exact h.counter
  · intro e he
    rcases List.mem_append.mp he with he | he
    · by_cases hq : e.call.1 = p
      · have hlt := h.call_lt_succ he
        refine .inl ?_
        rw [hproc, if_pos hq, ← hq]
        exact hlt
      · exact (h.dated e he).of_same (by rw [hframe _ hq]) (by rw [hframe _ hq])
    · obtain rfl := List.mem_singleton.mp he
      have hcalls : ((s.finishCall p (l₁ ++ l₂) r).proc p).calls = (s.proc p).calls + 1 := by
        rw [hproc, if_pos rfl]
      refine .inl ?_
      rw [Event.call, hcalls]
      exact Nat.lt_succ_self _
  · intro q k c' sz hreq
    have hq : q ≠ p := by
      rintro rfl
      exact requestsOf_eq_zero_iff.mp hnode k c' sz hreq
    refine (h.requests q k c' sz hreq).of_same (by rw [hframe q hq]) (by rw [hframe q hq]) hmono ?_
    exact fun op x hmem => mem_of_effect_mem_snoc hmem nofun
  · intro x hx
    have hq : x.dest ≠ p := repliesTo_eq_zero_iff.mp hreplies x hx
    exact (h.replies x hx).of_same (by rw [hframe _ hq]) (by rw [hframe _ hq]) hmono
  · intro q m' hm' hans'
    rw [hproc] at hm'
    split_ifs at hm' with hq
    · exact absurd hans' (answersIn_eq_zero_iff.mp hrest m' hm')
    · obtain ⟨id', hid', hq'⟩ := h.mails q m' hm' hans'
      exact ⟨id', hid', hq'.of_same (by rw [hframe q hq]) (by rw [hframe q hq]) hmono⟩
  · intro q
    by_cases hq : q = p
    · have hbox' : ((s.finishCall p (l₁ ++ l₂) r).proc q).mailbox = l₁ ++ l₂ := by
        rw [hproc, if_pos hq]
      rw [System.underway, hbox', hrest, hq]
      exact (congrArg₂ (· + ·) hnode hreplies).le.trans (Nat.zero_le 1)
    · have hsingle := h.single q
      rw [System.underway] at hsingle ⊢
      rw [hframe q hq]
      exact hsingle

end Inv

/-- Every step keeps the invariant. -/
theorem inv_step {s s' : System} (h : Inv s) (hstep : Step s s') : Inv s' := by
  cases hstep with
  | call p cmd size hidle => exact h.startCall cmd size hidle
  | noise pkt hq => exact h.noise hq
  | mail p msg hmsg =>
      have hnot : (⟨msg, none⟩ : Mail).isAnswer = false := by simp [Mail.isAnswer, hmsg]
      refine h.putMail (fun _ hr => hr) (fun hans => ?_) (fun q => ?_)
      · rw [hnot] at hans
        exact nomatch hans
      · simp [hnot]
  | receive i rest o node' hnode hloop hrun => exact h.receive hnode hloop hrun
  | deliver r rest hreplies =>
      have hr := h.replies r (by rw [hreplies]; exact Multiset.mem_cons_self _ _)
      refine h.putMail (fun x hx => ?_) (fun _ => ⟨r.id, rfl, hr⟩) (fun q => ?_)
      · rw [hreplies]
        exact Multiset.mem_cons_of_mem hx
      · rw [hreplies, repliesTo_cons]
        have hle : (if q = r.dest ∧ Mail.isAnswer ⟨r.msg, some r.id⟩ = true then 1 else 0) ≤
            if r.dest = q then 1 else 0 := by
          split_ifs with h₁ h₂
          · exact le_rfl
          · exact absurd h₁.1.symm h₂
          · exact Nat.zero_le _
          · exact le_rfl
        omega
  | take p cmd l₁ m l₂ result hwait hbox _ hm => exact h.finishCall hwait hbox hm

/-- The invariant holds in every reachable state. -/
theorem inv_of_reachable {s : System} (h : Reachable s) : Inv s := by
  obtain ⟨res, hrun⟩ := h
  induction hrun with
  | refl => exact Inv.init res
  | tail _ hstep ih => exact inv_step ih hstep

/-! ## What the protocol promises -/

/-- The number of increments among some handled calls. -/
def increments (seq : List (CallId × Command × Term)) : ℕ :=
  seq.countP fun x => x.2.1 = .increment

theorem specState_counterSpec (seq : List (CallId × Command × Term)) :
    specState counterSpec 0 seq = increments seq := by
  induction seq using List.reverseRecOn with
  | nil => rfl
  | append_singleton seq x ih =>
      obtain ⟨c, cmd, r⟩ := x
      rw [specState_snoc, ih, increments, increments, List.countP_append]
      cases cmd <;> rfl

/-- The two promises of the protocol, in a state with a history. -/
structure Correct (s : System) : Prop where
  /-- A reply in flight answers the outstanding call of the process it is sent to. -/
  replies : ∀ r ∈ s.toProc, Answers s r.dest r.id r.msg
  /-- So does every `{cnode, _}` in a mailbox. -/
  mails : ∀ p, ∀ m ∈ (s.proc p).mailbox, cnodeResult? m.msg ≠ none →
    ∃ id, m.id = some id ∧ Answers s p id m.msg
  /-- There is at most one of them, and not while the request is still on its way. -/
  single : ∀ p, s.underway p ≤ 1
  /-- A process that is about to call has no `{cnode, _}` in its mailbox. -/
  clean : ∀ p, (s.proc p).waiting = none → ∀ m ∈ (s.proc p).mailbox, cnodeResult? m.msg = none
  /-- No call is handled twice. -/
  handledOnce : ((effects s.hist).map Prod.fst).Nodup
  /-- No call is answered twice. -/
  answeredOnce : (responds s.hist).Nodup
  /-- The order in which the calls were handled is a linearization of the history. -/
  linearizes : Linearizes counterSpec 0 s.hist (effects s.hist)
  /-- The results, in that order. -/
  results : ∀ pre c cmd r post, effects s.hist = pre ++ (c, cmd, r) :: post →
    r = match cmd with
      | .increment => .int 0
      | .return' => .int (BitVec.ofNat 32 (increments pre)).toInt
  /-- The counter has every increment that was handled, once. -/
  counter : s.node.a = BitVec.ofNat 32 (increments (effects s.hist))

/-- In every reachable state both promises are kept. -/
theorem correct_of_reachable {s : System} (h : Reachable s) : Correct s := by
  have hinv := inv_of_reachable h
  have hlin := hinv.paced.linearizes hinv.lawful
  refine ⟨hinv.replies, ?_, hinv.single, ?_, hlin.nodup, hinv.paced.nodup_responds, hlin, ?_, ?_⟩
  · intro p m hm hans
    exact hinv.mails p m hm (Option.isSome_iff_ne_none.mpr hans)
  · intro p hidle m hm
    have hzero := hinv.underway_of_idle hidle
    rw [System.underway] at hzero
    have hbox : answersIn (s.proc p).mailbox = 0 := by omega
    have hno := answersIn_eq_zero_iff.mp hbox m hm
    simpa [Mail.isAnswer] using hno
  · intro pre c cmd r post heq
    have hr := hinv.lawful pre c cmd r post heq
    rw [specState_counterSpec] at hr
    cases cmd <;> exact hr
  · rw [hinv.counter, specState_counterSpec]

/-- The state in which the answer to a first `increment()` is on its way back. -/
theorem correct_after_increment : ∃ s : System, s.toProc ≠ 0 ∧ Correct s := by
  let s := (System.init 5).startCall 7 .increment 40
  have hround : (iteration .sgx (Inbound.request 7 0 .increment 40).packet).run s.node =
      .ret (some ⟨.pid 7, reply 0⟩, { s.node with a := 1, res := 0 }) :=
    run_iteration_request (by decide) rfl
  have hcall : Step (System.init 5) s := .call 7 .increment 40 rfl
  have hstep := Step.receive (s := s) (.request 7 0 .increment 40) 0 _ _ rfl rfl hround
  have hreach : Reachable _ := ⟨5, (Relation.ReflTransGen.single hcall).tail hstep⟩
  exact ⟨_, by simp [outbound], correct_of_reachable hreach⟩

end SgxErlang.CNode
