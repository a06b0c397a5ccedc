import SgxErlang.Erlang.Term
import SgxErlang.Lib.Run

/-!
# The receive loop of the C node

The `main` of `erlang-c-node/App/App.c` (SGX) and of `without-sgx/erlang-c-node/App/App.c`
(plain), from the point where an Erlang node is connected: one iteration receives a
packet, takes the message apart, dispatches on the name of the requested function and
sends the answer.

A packet carries the encoded size of its message, since `erl_receive_msg` is given a
buffer of `BUFSIZE` bytes and reports an error for anything larger.  The state of the
node is what survives an iteration: the counter, the local `res`, which neither version
initialises, and the loop flag.
-/

namespace SgxErlang.CNode

/-- The kinds of distribution message other than a send to a registered name. -/
inductive OtherKind where
  | send | link | unlink | groupLeader | exit | exit2
  deriving DecidableEq, Repr

/-- `ErlMessage.type`. -/
inductive MsgType where
  | erlRegSend
  | other (kind : OtherKind)
  deriving DecidableEq, Repr

/-- A distribution message: its type, its term, and its size on the wire. -/
structure ErlMessage where
  type : MsgType
  msg : Term
  size : ℕ

/-- What can come in on the connection. -/
inductive Packet where
  | tick
  | lost
  | message (emsg : ErlMessage)

/-- `BUFSIZE`, the size of the receive buffer. -/
def bufsize : ℕ := 1000

/-- The results of `erl_receive_msg`. -/
inductive Got where
  | erlTick
  | erlError
  | erlMsg (emsg : ErlMessage)

/-- `erl_receive_msg(fd, buf, BUFSIZE, &emsg)`. -/
def erlReceiveMsg : Packet → Got
  | .tick => .erlTick
  | .lost => .erlError
  | .message emsg => if emsg.size ≤ bufsize then .erlMsg emsg else .erlError

/-- What survives an iteration of the loop. -/
@[ext]
structure Node where
  /-- The counter: in the enclave, or in `Test.c` of the plain version. -/
  a : BitVec 32
  /-- `int res`, a local of `main`. -/
  res : BitVec 32
  /-- `int loop`, the loop flag. -/
  loop : Bool
  deriving DecidableEq, Repr

/-- The state in which the loop is entered; `res` holds whatever was on the stack. -/
def Node.start (res : BitVec 32) : Node := { a := 0, res := res, loop := true }

/-- The two builds of the C node. -/
inductive Version where
  | sgx
  | plain
  deriving DecidableEq, Repr

/-- A call of `erl_send`: the `ETERM` it is addressed to, and the message. -/
structure Send where
  dest : Term
  resp : Term

/-! ## The functions behind the dispatch -/

namespace Sgx

/-- `Enclave/EnclavedErlangCFunc/Test.cpp`. -/
def ecallIncrement : Exec Node Unit := modify fun s => { s with a := s.a + 1 }

/-- `Enclave/EnclavedErlangCFunc/Test.cpp`. -/
def ecallReturnA : Exec Node (BitVec 32) := do
  let s ← get
  pure s.a

/-- `App/EnclavedErlangCFunc/Test.c`: a failed ecall ends in `abort()`. -/
def myIncrement : Exec Node Unit := Exec.abortOnCrash ecallIncrement

/-- `App/EnclavedErlangCFunc/Test.c`. -/
def myReturnA : Exec Node (BitVec 32) := Exec.abortOnCrash ecallReturnA

@[simp] theorem run_myIncrement (s : Node) :
    myIncrement.run s = .ret ((), { s with a := s.a + 1 }) := rfl
@[simp] theorem run_myReturnA (s : Node) : myReturnA.run s = .ret (s.a, s) := rfl

end Sgx

namespace Plain

/-- `without-sgx/erlang-c-node/App/EnclavedErlangCFunc/Test.c`. -/
def myIncrement : Exec Node Unit := modify fun s => { s with a := s.a + 1 }

/-- `without-sgx/erlang-c-node/App/EnclavedErlangCFunc/Test.c`. -/
def myReturnA : Exec Node (BitVec 32) := do
  let s ← get
  pure s.a

@[simp] theorem run_myIncrement (s : Node) :
    myIncrement.run s = .ret ((), { s with a := s.a + 1 }) := rfl
@[simp] theorem run_myReturnA (s : Node) : myReturnA.run s = .ret (s.a, s) := rfl

end Plain

/-- `"increment"`. -/
def increment : List Byte := literal ['i', 'n', 'c', 'r', 'e', 'm', 'e', 'n', 't']
/-- `"return"`. -/
def return' : List Byte := literal ['r', 'e', 't', 'u', 'r', 'n']
/-- `"cnode"`. -/
def cnode : List Byte := literal ['c', 'n', 'o', 'd', 'e']
/-- `"call"`. -/
def call : List Byte := literal ['c', 'a', 'l', 'l']

private def setRes (r : BitVec 32) : Exec Node Unit := modify fun s => { s with res := r }

/-- The dispatch of the SGX version: two separate `if`s, and no `else`. -/
def Sgx.dispatch (fnp : Option Term) : Exec Node Unit := do
  if strncmp 9 (← erlAtomPtr fnp) increment = 0 then
    Sgx.myIncrement
    setRes 0
  if strncmp 6 (← erlAtomPtr fnp) return' = 0 then
    setRes (← Sgx.myReturnA)

/-- The dispatch of the plain version: an `else if`, and a final `else`. -/
def Plain.dispatch (fnp : Option Term) : Exec Node Unit := do
  if strncmp 9 (← erlAtomPtr fnp) increment = 0 then
    Plain.myIncrement
    setRes 0
  else if strncmp 6 (← erlAtomPtr fnp) return' = 0 then
    setRes (← Plain.myReturnA)
  else
    setRes 1

/-- The dispatch of either version. -/
def dispatch : Version → Option Term → Exec Node Unit
  | .sgx => Sgx.dispatch
  | .plain => Plain.dispatch

/-- `erl_format("{cnode, ~i}", res)`. -/
def reply (res : BitVec 32) : Term := .tuple [.atom cnode, .int res.toInt]

/-- `erl_send(fd, fromp, resp)`: it looks at the type of `fromp`, so that a null pointer
is a fault. -/
def erlSend (fromp : Option Term) (resp : Term) : Exec Node (Option Send) :=
  match fromp with
  | none => Exec.crash
  | some dest => pure (some ⟨dest, resp⟩)

/-- The branch for `ERL_REG_SEND`.  `argp` is fetched and only ever handed to
`erl_free_term`, which accepts a null pointer. -/
def handleRegSend (v : Version) (msg : Term) : Exec Node (Option Send) := do
  let fromp ← erlElement 2 (some msg)
  let tuplep ← erlElement 3 (some msg)
  let fnp ← erlElement 1 tuplep
  let _argp ← erlElement 2 tuplep
  dispatch v fnp
  let resp := reply (← get).res
  erlSend fromp resp

/-- The body of the loop. -/
def loopBody (v : Version) (pkt : Packet) : Exec Node (Option Send) :=
  match erlReceiveMsg pkt with
  | .erlTick => pure none
  | .erlError => do
      modify fun s => { s with loop := false }
      pure none
  | .erlMsg emsg =>
      match emsg.type with
      | .erlRegSend => handleRegSend v emsg.msg
      | .other _ => pure none

/-- One round of `while (loop)`: once the flag is down nothing is received any more. -/
def iteration (v : Version) (pkt : Packet) : Exec Node (Option Send) := do
  if (← get).loop then loopBody v pkt else pure none

/-! ## What one request does -/

/-- The state after a request whose function has the given name. -/
def afterRequest (v : Version) (name : List Byte) (s : Node) : Node :=
  if increment <+: name then { s with a := s.a + 1, res := 0 }
  else if return' <+: name then { s with res := s.a }
  else match v with
    | .sgx => s
    | .plain => { s with res := 1 }

theorem strncmp_increment (name : List Byte) :
    strncmp 9 name increment = 0 ↔ increment <+: name :=
  strncmp_eq_zero_iff (t := increment) (by decide) name

theorem strncmp_return (name : List Byte) :
    strncmp 6 name return' = 0 ↔ return' <+: name :=
  strncmp_eq_zero_iff (t := return') (by decide) name

/-- No name starts with both commands, so the two `if`s of the SGX version exclude each
other as well. -/
theorem not_return_of_increment {name : List Byte} (h : increment <+: name) :
    ¬ return' <+: name := by
  intro h'
  have hi := List.prefix_iff_eq_take.mp h
  have hr := List.prefix_iff_eq_take.mp h'
  have : return' = increment.take 6 := by
    rw [hr, hi, List.take_take]
    rfl
  exact absurd this (by decide)

/-- The dispatch on an atom, in either version. -/
theorem run_dispatch_atom (v : Version) (name : List Byte) (s : Node) :
    (dispatch v (some (.atom name))).run s = .ret ((), afterRequest v name s) := by
  by_cases hi : increment <+: name
  · have hr := not_return_of_increment hi
    cases v <;> simp [dispatch, Sgx.dispatch, Plain.dispatch, afterRequest, setRes,
      strncmp_increment, strncmp_return, hi, hr]
  · by_cases hr : return' <+: name <;>
      cases v <;> simp [dispatch, Sgx.dispatch, Plain.dispatch, afterRequest, setRes,
        strncmp_increment, strncmp_return, hi, hr]

/-- The dispatch returns on atoms only. -/
theorem run_dispatch_eq_ret {v : Version} {fnp : Option Term} {s : Node} {r : Unit × Node}
    (h : (dispatch v fnp).run s = .ret r) : ∃ name, fnp = some (.atom name) := by
  have key : ∃ name s', (erlAtomPtr fnp).run s = .ret (name, s') := by
    cases v <;>
    · simp only [dispatch, Sgx.dispatch, Plain.dispatch, StateT.run_bind,
        Outcome.bind_eq_ret_iff] at h
      obtain ⟨⟨name, s'⟩, hp, -⟩ := h
      exact ⟨name, s', hp⟩
  obtain ⟨name, s', hp⟩ := key
  exact ⟨name, (run_erlAtomPtr_eq_ret hp).1⟩

/-- The message is a tuple with a second element, and a third one that is a tuple which
starts with an atom: the shape the accessors need. -/
def Readable (msg : Term) (dest : Term) (name : List Byte) : Prop :=
  ∃ elems telems, msg = .tuple elems ∧ elems[1]? = some dest ∧
    elems[2]? = some (.tuple telems) ∧ telems[0]? = some (.atom name)

/-- What `handleRegSend` does with a message it can take apart. -/
theorem run_handleRegSend_of_readable {v : Version} {msg dest : Term} {name : List Byte}
    (h : Readable msg dest name) (s : Node) :
    (handleRegSend v msg).run s =
      .ret (some ⟨dest, reply (afterRequest v name s).res⟩, afterRequest v name s) := by
  obtain ⟨elems, telems, rfl, h1, h2, h0⟩ := h
  simp [handleRegSend, h1, h2, h0, run_dispatch_atom, erlSend]

/-- It survives no other message. -/
theorem readable_of_run_handleRegSend {v : Version} {msg : Term} {s : Node}
    {r : Option Send × Node} (h : (handleRegSend v msg).run s = .ret r) :
    ∃ dest name, Readable msg dest name := by
  simp only [handleRegSend, StateT.run_bind, Outcome.bind_eq_ret_iff] at h
  obtain ⟨⟨fromp, s1⟩, hfrom, ⟨tuplep, s2⟩, htuple, ⟨fnp, s3⟩, hfn, ⟨argp, s4⟩, -,
    ⟨_, s5⟩, hdisp, ⟨n, s6⟩, -, hsend⟩ := h
  obtain ⟨name, rfl⟩ := run_dispatch_eq_ret hdisp
  obtain ⟨telems, rfl, h0, -⟩ := run_erlElement_eq_ret_some hfn
  obtain ⟨elems, helems, h2, -⟩ := run_erlElement_eq_ret_some htuple
  obtain rfl := Option.some.inj helems
  cases fromp with
  | none => exact absurd hsend (by simp [erlSend])
  | some dest =>
      obtain ⟨elems', helems', h1, -⟩ := run_erlElement_eq_ret_some hfrom
      obtain rfl := Term.tuple.inj (Option.some.inj helems')
      exact ⟨dest, name, elems, telems, rfl, h1, h2, h0⟩

/-! ## Well-formed requests -/

/-- The term `{call, Pid, {Fun, ...}}`. -/
def request (p : ℕ) (name : List Byte) (args : List Term) : Term :=
  .tuple [.atom call, .pid p, .tuple (.atom name :: args)]

theorem readable_request (p : ℕ) (name : List Byte) (args : List Term) :
    Readable (request p name args) (.pid p) name :=
  ⟨_, _, rfl, rfl, rfl, rfl⟩

theorem afterRequest_loop (v : Version) (name : List Byte) (s : Node) :
    (afterRequest v name s).loop = s.loop := by
  unfold afterRequest
  split_ifs
  · rfl
  · rfl
  · cases v <;> rfl

/-- One round with a request that fits the buffer. -/
theorem run_iteration_request {v : Version} {p : ℕ} {name : List Byte} {args : List Term}
    {size : ℕ} (hsize : size ≤ bufsize) {s : Node} (hloop : s.loop = true) :
    (iteration v (.message ⟨.erlRegSend, request p name args, size⟩)).run s =
      .ret (some ⟨.pid p, reply (afterRequest v name s).res⟩, afterRequest v name s) := by
  simp [iteration, loopBody, erlReceiveMsg, hloop, hsize,
    run_handleRegSend_of_readable (readable_request p name args)]

/-- One round with a message that does not fit: the loop is left. -/
theorem run_iteration_of_oversize {v : Version} {emsg : ErlMessage}
    (hsize : ¬ emsg.size ≤ bufsize) {s : Node} (hloop : s.loop = true) :
    (iteration v (.message emsg)).run s = .ret (none, { s with loop := false }) := by
  simp [iteration, loopBody, erlReceiveMsg, hloop, hsize]

/-- One round with a message of another kind that fits. -/
theorem run_iteration_other {v : Version} {kind : OtherKind} {msg : Term} {size : ℕ}
    (hsize : size ≤ bufsize) (s : Node) :
    (iteration v (.message ⟨.other kind, msg, size⟩)).run s = .ret (none, s) := by
  simp [iteration, loopBody, erlReceiveMsg, hsize]

@[simp] theorem run_iteration_tick (v : Version) (s : Node) :
    (iteration v .tick).run s = .ret (none, s) := by
  simp [iteration, loopBody, erlReceiveMsg]

/-- Nothing happens any more once the loop is left. -/
theorem run_iteration_of_not_loop {v : Version} {pkt : Packet} {s : Node}
    (hloop : s.loop = false) : (iteration v pkt).run s = .ret (none, s) := by
  simp [iteration, hloop]

end SgxErlang.CNode
