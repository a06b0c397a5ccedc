import Mathlib.Algebra.GroupWithZero.Nat
import SgxErlang.Attestation.QuoteEnclave
import SgxErlang.Erlang.Term
import SgxErlang.Lib.Run

/-!
# The application that verifies quotes

`QuoteVerificationServer/App/App.cpp`.  The application asks the vendor's library to verify a
quote, and in the trusted mode has an enclave check the report that comes with the answer.
What the library and the enclave say goes to the console only, so the lines that are printed
are kept; errors that are printed with their codes are kept without them.

## Main definitions

* `QuoteHost` — what the application has acquired, and what it has printed.
* `ecdsaQuoteVerification`, `quoteMain` — the functions.

## Main results

* `acquired_of_run` — what a run of calls keeps, and what it answers.
* `alike_of_run` — the verdict of the enclave decides about nothing but one line.
* `exit_of_quoteMain` — the exit code says nothing about the quote.
-/

namespace SgxErlang.Attestation

/-! ## What the code depends on -/

/-- `sgx_ql_qv_result_t`. -/
inductive QvResult where
  | ok | configNeeded | outOfDate | outOfDateConfigNeeded | invalidSignature | revoked
  | unspecified | swHardeningNeeded | configAndSwHardeningNeeded
  | other (code : UInt32)
  deriving DecidableEq

/-- Constants of the vendor's headers. -/
structure QvHeader where
  /-- The value of a result. -/
  resultCode : QvResult → UInt32
  /-- `sizeof(sgx_ql_qv_supplemental_t)`. -/
  sizeofSupplemental : UInt32

/-- What happens outside the code during one call. -/
structure QuoteEnv where
  /-- `sgx_create_enclave`; no enclave has the id zero. -/
  createEnclave : Option { eid : ℕ // eid ≠ 0 }
  /-- `ecall_get_target_info` succeeds. -/
  targetInfo : Bool
  /-- `sgx_qv_set_enclave_load_policy` succeeds. -/
  loadPolicy : Bool
  /-- `sgx_qv_get_quote_supplemental_data_size`. -/
  supplementalSize : Option UInt32
  /-- `malloc` succeeds. -/
  malloc : Bool
  /-- `time`. -/
  time : UInt64
  /-- `sgx_qv_verify_quote` succeeds. -/
  verifyQuote : Bool
  /-- What it writes for the status of the collateral, if it does. -/
  collateral : Option UInt32
  /-- What it writes for the result, if it does. -/
  result : Option QvResult
  /-- The report, after the call. -/
  report : Vector Byte 432
  /-- The bytes of the supplemental data, after the call. -/
  supplemental : ℕ → Byte
  /-- `sgx_qv_get_qve_identity` succeeds. -/
  getQveIdentity : Bool
  /-- What it stores in its arguments. -/
  qveid : InBuffer 32
  qveidIssueChain : InBuffer 32
  rootCaCrl : InBuffer 16
  /-- The call of `ecall_verify_report` itself succeeds. -/
  ecall : Bool
  /-- The calls of the hash in the enclave that succeed. -/
  sha : ShaStep → Bool
  /-- There is memory for the copy of the quote that is passed. -/
  copied : Bool

/-- A line that is printed. -/
inductive QuoteLine where
  | cannotLoad
  | targetInfo (ok : Bool) | loadPolicy (ok : Bool) | supplementalSize (ok : Bool)
  | verifyQuote (ok : Bool) | qveIdentity (ok : Bool) | verifyReport (ok : Bool)
  | completed | nonTerminal (result : QvResult) | terminal (result : QvResult)
  | usage | cannotOpen (path : List Byte) | quotePath (path : List Byte) | trusted | untrusted
  deriving DecidableEq

/-- What the application has acquired and not given back, and what it has printed. -/
structure QuoteHost where
  /-- The enclaves that exist. -/
  enclaves : List ℕ
  /-- How many identities of the quote verification enclave are held. -/
  identities : ℕ
  /-- How many bytes have been allocated. -/
  heap : ℕ
  log : List QuoteLine

/-- The application when it starts. -/
def QuoteHost.init : QuoteHost := ⟨[], 0, 0, []⟩

/-! ## The code -/

/-- `printf`. -/
def say (line : QuoteLine) : Exec QuoteHost Unit :=
  modify fun s => { s with log := s.log ++ [line] }

/-- Whether there is a buffer for the supplemental data. -/
def allocateSupplemental (H : QvHeader) (e : QuoteEnv) : Exec QuoteHost Bool :=
  if e.supplementalSize = some H.sizeofSupplemental then do
    say (.supplementalSize true)
    if e.malloc then do
      modify fun s => { s with heap := s.heap + H.sizeofSupplemental.toNat }
      pure true
    else pure false
  else do
    say (.supplementalSize false)
    pure false

/-- Some pointer to a part of the identity is not null. -/
def QuoteEnv.hasIdentity (e : QuoteEnv) : Bool :=
  e.qveid.isSome || e.qveidIssueChain.isSome || e.rootCaCrl.isSome

/-- `sgx_qv_get_qve_identity`. -/
def getQveIdentity (e : QuoteEnv) : Exec QuoteHost Unit :=
  if e.hasIdentity then modify fun s => { s with identities := s.identities + 1 } else pure ()

/-- `sgx_qv_free_qve_identity`; null pointers are passed over. -/
def freeQveIdentity (e : QuoteEnv) : Exec QuoteHost Unit :=
  if e.hasIdentity then modify fun s => { s with identities := s.identities - 1 } else pure ()

/-- `sgx_destroy_enclave`. -/
def destroyEnclave (eid : ℕ) : Exec QuoteHost Unit :=
  modify fun s => { s with enclaves := s.enclaves.erase eid }

/-- `rand_nonce`: "59jslk201fgjmm;" and its terminator. -/
def randNonce : List Byte :=
  literal ['5', '9', 'j', 's', 'l', 'k', '2', '0', '1', 'f', 'g', 'j', 'm', 'm', ';'] ++ [0]

/-- A quote, as a `vector<uint8_t>`. -/
abbrev QuoteFile := { bs : List Byte // bs.length < 2 ^ 64 }

/-- `p_quote_verification_result` after the call of the library. -/
def QuoteEnv.verdict (e : QuoteEnv) : QvResult := e.result.getD .unspecified

/-- The supplemental data after the call of the library. -/
def supplementalBuffer (H : QvHeader) (e : QuoteEnv) (present : Bool) : InBuffer 32 :=
  if present then
    .of ((List.range H.sizeofSupplemental.toNat).map e.supplemental) (by
      rw [List.length_map, List.length_range]
      exact H.sizeofSupplemental.toNat_lt)
  else none

/-- The arguments of `ecall_verify_report`. -/
def quoteArgs (H : QvHeader) (e : QuoteEnv) (quote : QuoteFile) (present : Bool) : VerifyArgs where
  report := .of e.report.toList (by rw [Vector.length_toList]; decide)
  rand := .of randNonce (by decide)
  quote := some quote
  qveid := e.qveid
  qveidIssueChain := e.qveidIssueChain
  rootCaCrl := e.rootCaCrl.map fun bs => ⟨bs.1, bs.2.trans (by decide)⟩
  checkDate := e.time
  collateralExpirationStatus := e.collateral.getD 1
  verificationResult := H.resultCode e.verdict
  supplemental := supplementalBuffer H e present

/-- The switch at the end of either mode. -/
def checkVerdict (result : QvResult) : Exec QuoteHost ℤ :=
  match result with
  | .ok => do
      say .completed
      pure 0
  | .configNeeded | .outOfDate | .outOfDateConfigNeeded | .swHardeningNeeded
  | .configAndSwHardeningNeeded => do
      say (.nonTerminal result)
      pure 1
  | _ => do
      say (.terminal result)
      pure (-1)

/-- `ecdsa_quote_verification`. -/
def ecdsaQuoteVerification (Q : Qvl) (H : QvHeader) (e : QuoteEnv) (quote : QuoteFile)
    (useQve : Bool) : Exec QuoteHost ℤ :=
  if useQve then
    match e.createEnclave with
    | none => do
        say .cannotLoad
        pure (-1)
    | some eid => do
        modify fun s => { s with enclaves := eid :: s.enclaves }
        say (.targetInfo e.targetInfo)
        say (.loadPolicy e.loadPolicy)
        let present ← allocateSupplemental H e
        say (.verifyQuote e.verifyQuote)
        getQveIdentity e
        if e.getQveIdentity then do
          say (.qveIdentity true)
          let verified := ecallVerifyReport Q e.sha (quoteArgs H e quote present)
          say (.verifyReport (e.ecall && decide (verified = .success)))
          let ret ← checkVerdict e.verdict
          if e.hasIdentity then freeQveIdentity e
          if eid.1 ≠ 0 then destroyEnclave eid
          pure ret
        else do
          say (.qveIdentity false)
          freeQveIdentity e
          destroyEnclave eid
          pure (-1)
  else do
    let _ ← allocateSupplemental H e
    say (.verifyQuote e.verifyQuote)
    checkVerdict e.verdict

/-- `DEFAULT_QUOTE`. -/
def defaultQuote : List Byte :=
  literal ['.', '.', '/', 'Q', 'u', 'o', 't', 'e', 'G', 'e', 'n', 'e', 'r', 'a', 't', 'i', 'o',
    'n', 'S', 'a', 'm', 'p', 'l', 'e', '/', 'q', 'u', 'o', 't', 'e', '.', 'd', 'a', 't']

/-- `PATHSIZE`. -/
def pathSize : ℕ := 0x418

/-- What is found under a path. -/
inductive QuoteSource where
  /-- Nothing that can be opened. -/
  | missing
  /-- Something that can be opened, but for which there is no vector: a directory or a pipe,
  which has no size, or a file for which there is not enough memory. -/
  | unsized
  /-- A file, with the vector after it has been read. -/
  | file (content : QuoteFile)

/-- `readBinaryContent`.  Nothing catches what the constructor of the vector throws. -/
def readBinaryContent (files : List Byte → QuoteSource) (path : List Byte) :
    Exec QuoteHost QuoteFile :=
  match files path with
  | .missing => do
      say (.cannotOpen path)
      pure ⟨[], by decide⟩
  | .unsized => Exec.abort
  | .file content => pure content

/-- A call of `ecdsa_quote_verification`, which takes the quote by value.  Nothing catches what
the copying throws. -/
def verifyCopy (Q : Qvl) (H : QvHeader) (e : QuoteEnv) (quote : QuoteFile) (useQve : Bool) :
    Exec QuoteHost ℤ :=
  if e.copied then ecdsaQuoteVerification Q H e quote useQve else Exec.abort

/-- The path that is given on the command line, if any. -/
def givenPath : List (List Byte) → List Byte
  | [flag, path] => if flag = literal ['-', 'q', 'u', 'o', 't', 'e'] then path else []
  | _ => []

/-- The path of the quote. -/
def quotePath (args : List (List Byte)) : List Byte :=
  if givenPath args = [] then defaultQuote else givenPath args

/-- The part of `main` after the path is known. -/
def verifyFile (Q : Qvl) (H : QvHeader) (trusted untrusted : QuoteEnv)
    (files : List Byte → QuoteSource) (path : List Byte) : Exec QuoteHost ℤ := do
  let quote ← readBinaryContent files path
  if quote.1 = [] then do
    say .usage
    pure (-1)
  else do
    say (.quotePath path)
    say .trusted
    let _ ← verifyCopy Q H trusted quote true
    say .untrusted
    let _ ← verifyCopy Q H untrusted quote false
    pure 0

/-- `main`, with the arguments that follow the name of the program.  A path that fills
`quote_path` has no terminator there. -/
def quoteMain (Q : Qvl) (H : QvHeader) (trusted untrusted : QuoteEnv)
    (files : List Byte → QuoteSource) (args : List (List Byte)) : Exec QuoteHost ℤ :=
  if args.length ≠ 0 ∧ args.length ≠ 2 then do
    say .usage
    pure 0
  else if pathSize ≤ (givenPath args).length then Exec.undefinedBehaviour
  else verifyFile Q H trusted untrusted files (quotePath args)

/-! ## One call -/

/-- What either mode returns for a result. -/
def QvResult.ret : QvResult → ℤ
  | .ok => 0
  | .configNeeded | .outOfDate | .outOfDateConfigNeeded | .swHardeningNeeded
  | .configAndSwHardeningNeeded => 1
  | _ => -1

/-- What is printed for a result. -/
def QvResult.line (result : QvResult) : QuoteLine :=
  match result with
  | .ok => .completed
  | .configNeeded | .outOfDate | .outOfDateConfigNeeded | .swHardeningNeeded
  | .configAndSwHardeningNeeded => .nonTerminal result
  | _ => .terminal result

/-- The state after something has been printed. -/
def QuoteHost.said (s : QuoteHost) (lines : List QuoteLine) : QuoteHost :=
  { s with log := s.log ++ lines }

/-- The state after memory has been allocated. -/
def QuoteHost.allocated (s : QuoteHost) (size : ℕ) : QuoteHost := { s with heap := s.heap + size }

@[simp] theorem said_enclaves (s : QuoteHost) (lines : List QuoteLine) :
    (s.said lines).enclaves = s.enclaves := rfl
@[simp] theorem said_identities (s : QuoteHost) (lines : List QuoteLine) :
    (s.said lines).identities = s.identities := rfl
@[simp] theorem said_heap (s : QuoteHost) (lines : List QuoteLine) :
    (s.said lines).heap = s.heap := rfl
@[simp] theorem said_log (s : QuoteHost) (lines : List QuoteLine) :
    (s.said lines).log = s.log ++ lines := rfl
@[simp] theorem allocated_enclaves (s : QuoteHost) (size : ℕ) :
    (s.allocated size).enclaves = s.enclaves := rfl
@[simp] theorem allocated_identities (s : QuoteHost) (size : ℕ) :
    (s.allocated size).identities = s.identities := rfl
@[simp] theorem allocated_heap (s : QuoteHost) (size : ℕ) :
    (s.allocated size).heap = s.heap + size := rfl
@[simp] theorem allocated_log (s : QuoteHost) (size : ℕ) :
    (s.allocated size).log = s.log := rfl

@[simp] theorem said_said (s : QuoteHost) (lines lines' : List QuoteLine) :
    (s.said lines).said lines' = s.said (lines ++ lines') := by
  simp [QuoteHost.said]

/-- The size of the supplemental data is the expected one. -/
def QuoteEnv.sized (e : QuoteEnv) (H : QvHeader) : Bool :=
  decide (e.supplementalSize = some H.sizeofSupplemental)

/-- How much is allocated. -/
def QuoteEnv.buffer (e : QuoteEnv) (H : QvHeader) : ℕ :=
  if e.sized H && e.malloc then H.sizeofSupplemental.toNat else 0

/-- A call gets as far as the library. -/
def QuoteEnv.starts (e : QuoteEnv) (useQve : Bool) : Bool := !useQve || e.createEnclave.isSome

/-- The part of a call's output that the enclave's verdict comes after. -/
def QuoteEnv.ret (e : QuoteEnv) (useQve : Bool) : ℤ :=
  if useQve && !(e.createEnclave.isSome && e.getQveIdentity) then -1 else e.verdict.ret

/-- What a call prints. -/
def QuoteEnv.lines (Q : Qvl) (H : QvHeader) (e : QuoteEnv) (quote : QuoteFile) (useQve : Bool) :
    List QuoteLine :=
  let library := [.supplementalSize (e.sized H), .verifyQuote e.verifyQuote]
  let verified := ecallVerifyReport Q e.sha (quoteArgs H e quote (e.sized H && e.malloc))
  if !useQve then library ++ [e.verdict.line]
  else if e.createEnclave.isNone then [.cannotLoad]
  else [.targetInfo e.targetInfo, .loadPolicy e.loadPolicy] ++ library ++
    (if e.getQveIdentity then
      [.qveIdentity true, .verifyReport (e.ecall && decide (verified = .success)), e.verdict.line]
    else [.qveIdentity false])

theorem run_say (line : QuoteLine) (s : QuoteHost) :
    (say line).run s = .ret ((), s.said [line]) := rfl

theorem run_checkVerdict (result : QvResult) (s : QuoteHost) :
    (checkVerdict result).run s = .ret (result.ret, s.said [result.line]) := by
  cases result <;> rfl

theorem run_allocateSupplemental (H : QvHeader) (e : QuoteEnv) (s : QuoteHost) :
    (allocateSupplemental H e).run s = .ret (e.sized H && e.malloc,
      (s.allocated (e.buffer H)).said [.supplementalSize (e.sized H)]) := by
  by_cases hsize : e.supplementalSize = some H.sizeofSupplemental
  · cases hmalloc : e.malloc <;>
      simp [allocateSupplemental, QuoteEnv.sized, QuoteEnv.buffer, hsize, hmalloc, run_say,
        QuoteHost.said, QuoteHost.allocated]
  · simp [allocateSupplemental, QuoteEnv.sized, QuoteEnv.buffer, hsize, run_say, QuoteHost.said,
      QuoteHost.allocated]

/-- The state after a call: everything but the supplemental data has been given back. -/
def QuoteHost.after (s : QuoteHost) (Q : Qvl) (H : QvHeader) (e : QuoteEnv) (quote : QuoteFile)
    (useQve : Bool) : QuoteHost :=
  (s.allocated (if e.starts useQve then e.buffer H else 0)).said (e.lines Q H quote useQve)

theorem run_ecdsaQuoteVerification (Q : Qvl) (H : QvHeader) (e : QuoteEnv) (quote : QuoteFile)
    (useQve : Bool) (s : QuoteHost) :
    (ecdsaQuoteVerification Q H e quote useQve).run s =
      .ret (e.ret useQve, s.after Q H e quote useQve) := by
  cases useQve with
  | false =>
      simp [ecdsaQuoteVerification, run_allocateSupplemental, run_say, run_checkVerdict,
        QuoteEnv.ret, QuoteHost.after, QuoteEnv.lines, QuoteEnv.starts]
  | true =>
      cases henclave : e.createEnclave with
      | none =>
          simp [ecdsaQuoteVerification, henclave, run_say, QuoteEnv.ret, QuoteHost.after,
            QuoteEnv.lines, QuoteEnv.starts, QuoteHost.allocated]
      | some eid =>
          cases hidentity : e.getQveIdentity <;> cases hhas : e.hasIdentity <;>
            simp [ecdsaQuoteVerification, henclave, hidentity, hhas, run_allocateSupplemental,
              run_say, run_checkVerdict, QuoteEnv.ret, QuoteHost.after, QuoteEnv.lines,
              QuoteEnv.starts, getQveIdentity, freeQveIdentity, destroyEnclave, eid.2,
              QuoteHost.said, QuoteHost.allocated]

/-! ## Runs -/

/-- A call with its environment. -/
abbrev QuoteCall := QuoteEnv × QuoteFile × Bool

/-- The function, as a step of a run. -/
def quoteCall (Q : Qvl) (H : QvHeader) (i : QuoteCall) : Exec QuoteHost ℤ :=
  ecdsaQuoteVerification Q H i.1 i.2.1 i.2.2

/-- What a call allocates and does not give back. -/
def QuoteCall.leak (H : QvHeader) (i : QuoteCall) : ℕ :=
  if i.1.starts i.2.2 then i.1.buffer H else 0

variable {Q Q' : Qvl} {H : QvHeader} {s : QuoteHost}

/-- A run in closed form. -/
theorem run_quoteCalls (Q : Qvl) (H : QvHeader) (is : List QuoteCall) (s : QuoteHost) :
    (runAll (quoteCall Q H) is).run s = .ret (is.map fun i => i.1.ret i.2.2,
      (s.allocated (is.map fun i => QuoteCall.leak H i).sum).said
        (is.flatMap fun i => i.1.lines Q H i.2.1 i.2.2)) := by
  induction is generalizing s with
  | nil => simp [QuoteHost.said, QuoteHost.allocated]
  | cons i is ih =>
      have hstate : ((s.after Q H i.1 i.2.1 i.2.2).allocated
            (is.map fun i => QuoteCall.leak H i).sum).said
              (is.flatMap fun i => i.1.lines Q H i.2.1 i.2.2) =
          (s.allocated ((i :: is).map fun i => QuoteCall.leak H i).sum).said
            ((i :: is).flatMap fun i => i.1.lines Q H i.2.1 i.2.2) := by
        simp [QuoteHost.after, QuoteHost.said, QuoteHost.allocated, QuoteCall.leak, add_assoc]
      rw [← hstate]
      exact runAll_cons_eq_ret_iff.mpr
        ⟨_, _, _, run_ecdsaQuoteVerification .., ih _, rfl⟩

/-- A run keeps the supplemental data of all its calls, and nothing else: every enclave is
destroyed, and every identity given back, wherever a call breaks off.  A call answers for the
result that the library has left, whatever the library itself returned and whatever has been
verified. -/
theorem acquired_of_run {is : List QuoteCall} {rets : List ℤ} {s' : QuoteHost}
    (hrun : (runAll (quoteCall Q H) is).run s = .ret (rets, s')) :
    s'.enclaves = s.enclaves ∧ s'.identities = s.identities ∧
      s'.heap = s.heap + (is.map fun i => QuoteCall.leak H i).sum ∧
        rets = is.map fun i => i.1.ret i.2.2 := by
  obtain ⟨rfl, rfl⟩ := Outcome.pair_inj ((run_quoteCalls Q H is s).symm.trans hrun)
  exact ⟨rfl, rfl, rfl, rfl⟩

/-- Constants for the samples. -/
def sampleHeader : QvHeader := ⟨fun _ => 0, 336⟩

/-- A call for which the library is content. -/
def sampleCall (ecall useQve : Bool) : QuoteCall where
  fst :=
    { createEnclave := some ⟨2, Nat.succ_ne_zero 1⟩
      targetInfo := true
      loadPolicy := true
      supplementalSize := some 336
      malloc := true
      time := 0
      verifyQuote := true
      collateral := some 0
      result := some .ok
      report := Vector.replicate 432 0
      supplemental := fun _ => 0
      getQveIdentity := true
      qveid := .of [7] (by decide)
      qveidIssueChain := .of [7] (by decide)
      rootCaCrl := .of [7] (by decide)
      ecall := ecall
      sha := fun _ => true
      copied := true }
  snd := (⟨[4, 5, 6], by decide⟩, useQve)

theorem acquired_of_sampleCalls : ∃ s',
    (runAll (quoteCall sampleQvl sampleHeader) [sampleCall true true, sampleCall true false]).run
      .init = .ret ([0, 0], s') ∧
    s'.enclaves = [] ∧ s'.identities = 0 ∧ s'.heap = 672 := by
  have hrun := run_quoteCalls sampleQvl sampleHeader
    [sampleCall true true, sampleCall true false] .init
  obtain ⟨henclaves, hidentities, hheap, -⟩ := acquired_of_run hrun
  exact ⟨_, hrun, henclaves, hidentities, hheap⟩

/-! ## The verdict of the enclave -/

/-- A line without the verdict of the enclave. -/
def QuoteLine.masked : QuoteLine → QuoteLine
  | .verifyReport _ => .verifyReport false
  | line => line

/-- Two calls differ in nothing but what happens in the enclave. -/
def SameHost (i j : QuoteCall) : Prop :=
  i.2 = j.2 ∧ { i.1 with ecall := j.1.ecall, sha := j.1.sha } = j.1

theorem SameHost.ret {i j : QuoteCall} (h : SameHost i j) : i.1.ret i.2.2 = j.1.ret j.2.2 := by
  obtain ⟨hcall, hhost⟩ := h
  rw [hcall, ← hhost]
  rfl

theorem SameHost.leak {i j : QuoteCall} (h : SameHost i j) :
    QuoteCall.leak H i = QuoteCall.leak H j := by
  obtain ⟨hcall, hhost⟩ := h
  rw [QuoteCall.leak, QuoteCall.leak, hcall, ← hhost]
  rfl

theorem SameHost.lines {i j : QuoteCall} (h : SameHost i j) :
    (i.1.lines Q H i.2.1 i.2.2).map QuoteLine.masked =
      (j.1.lines Q' H j.2.1 j.2.2).map QuoteLine.masked := by
  obtain ⟨hcall, hhost⟩ := h
  rw [hcall, ← hhost]
  simp only [QuoteEnv.lines, QuoteEnv.sized, QuoteEnv.verdict]
  split_ifs <;> simp [QuoteLine.masked]

/-- What two runs of such calls answer, keep and print. -/
theorem SameHost.alike {is js : List QuoteCall} (h : List.Forall₂ SameHost is js) :
    (is.map fun i => i.1.ret i.2.2) = (js.map fun i => i.1.ret i.2.2) ∧
      (is.map fun i => QuoteCall.leak H i) = (js.map fun i => QuoteCall.leak H i) ∧
      ((is.flatMap fun i => i.1.lines Q H i.2.1 i.2.2).map QuoteLine.masked) =
        ((js.flatMap fun i => i.1.lines Q' H i.2.1 i.2.2).map QuoteLine.masked) := by
  induction h with
  | nil =>
      refine ⟨rfl, rfl, ?_⟩
      rw [List.flatMap_nil, List.flatMap_nil]
  | cons hij _ ih =>
      obtain ⟨hrets, hleaks, hlines⟩ := ih
      refine ⟨?_, ?_, ?_⟩
      · rw [List.map_cons, List.map_cons, hij.ret, hrets]
      · rw [List.map_cons, List.map_cons, hij.leak, hleaks]
      · rw [List.flatMap_cons, List.flatMap_cons, List.map_append, List.map_append, hlines,
          hij.lines]

/-- The verdict of the enclave decides about nothing but its own line: with any other enclave,
whatever it accepts and whatever fails in it, the answers of a run, what it keeps, and all
other lines are the same. -/
theorem alike_of_run {is js : List QuoteCall} {rets rets' : List ℤ} {t t' : QuoteHost}
    (h : List.Forall₂ SameHost is js)
    (hrun : (runAll (quoteCall Q H) is).run s = .ret (rets, t))
    (hrun' : (runAll (quoteCall Q' H) js).run s = .ret (rets', t')) :
    rets = rets' ∧ t.enclaves = t'.enclaves ∧ t.identities = t'.identities ∧
      t.heap = t'.heap ∧ t.log.map QuoteLine.masked = t'.log.map QuoteLine.masked := by
  obtain ⟨rfl, rfl⟩ := Outcome.pair_inj ((run_quoteCalls Q H is s).symm.trans hrun)
  obtain ⟨rfl, rfl⟩ := Outcome.pair_inj ((run_quoteCalls Q' H js s).symm.trans hrun')
  obtain ⟨hrets, hleaks, hlines⟩ := SameHost.alike h
  refine ⟨hrets, ?_, ?_, ?_, ?_⟩
  · rw [said_enclaves, said_enclaves, allocated_enclaves, allocated_enclaves]
  · rw [said_identities, said_identities, allocated_identities, allocated_identities]
  · rw [said_heap, said_heap, allocated_heap, allocated_heap, hleaks]
  · rw [said_log, said_log, allocated_log, allocated_log, List.map_append, List.map_append, hlines]

/-- The arguments of the enclave in a call. -/
def QuoteCall.args (i : QuoteCall) (H : QvHeader) : VerifyArgs :=
  quoteArgs H i.1 i.2.1 (i.1.sized H && i.1.malloc)

/-- The line about the report is printed if the identity is there, and says what the enclave
says. -/
theorem verifyReport_mem_lines_iff {i : QuoteCall} {verified : Bool} :
    .verifyReport verified ∈ i.1.lines Q H i.2.1 i.2.2 ↔
      (i.2.2 ∧ i.1.createEnclave.isSome ∧ i.1.getQveIdentity) ∧
        verified = (i.1.ecall && decide (ecallVerifyReport Q i.1.sha (i.args H) = .success)) := by
  have hverdict : .verifyReport verified ≠ i.1.verdict.line := by
    unfold QvResult.line
    split <;> simp
  by_cases hreached : i.2.2 ∧ i.1.createEnclave.isSome ∧ i.1.getQveIdentity
  · obtain ⟨hqve, henclave, hidentity⟩ := hreached
    obtain ⟨eid, henclave⟩ := Option.isSome_iff_exists.mp henclave
    simp only [QuoteEnv.lines, hqve, henclave, hidentity]
    simp [hverdict, QuoteCall.args]
    rfl
  · cases hqve : i.2.2 <;> cases henclave : i.1.createEnclave <;>
      cases hidentity : i.1.getQveIdentity <;>
        simp_all [QuoteEnv.lines]

/-- The same call, with a report that says what the enclave is told. -/
def QuoteCall.reported (i : QuoteCall) (Q : Qvl) (H : QvHeader) : QuoteCall :=
  ({ i.1 with report := (Layout.array 432).get ((i.args H).reported Q).report.bytes }, i.2)

theorem args_of_report {i : QuoteCall} {report : Vector Byte 432} {bs : List Byte}
    (hreport : bs = report.toList) (h : bs.length < 2 ^ 64) :
    QuoteCall.args ({ i.1 with report := report }, i.2) H =
      { i.args H with report := .of bs h } := by
  subst hreport
  rfl

theorem args_reported (Q : Qvl) (H : QvHeader) (i : QuoteCall) :
    (i.reported Q H).args H = (i.args H).reported Q := by
  rw [reported_eq (i.args H) Q]
  have hlen := length_report_reported Q (i.args H)
  have hget : ((i.args H).reported Q).report.bytes =
      ((Layout.array 432).get ((i.args H).reported Q).report.bytes).toList := by
    generalize ((i.args H).reported Q).report.bytes = bs at hlen ⊢
    rw [toList_get_array hlen.ge, List.take_of_length_le hlen.le]
  exact args_of_report hget _

/-- A call whose report the enclave accepts. -/
def reportedCall : QuoteCall := (sampleCall true true).reported sampleQvl sampleHeader

theorem accepted_reportedCall (ok : ShaStep → Bool) :
    ecallVerifyReport sampleQvl ok (reportedCall.args sampleHeader) = .success := by
  rw [reportedCall, args_reported]
  apply accepted_reported
  simp [VerifyArgs.wellFormed, length_report_reported]
  decide

/-- The same call, if the enclave is not reached. -/
def QuoteCall.unreached (i : QuoteCall) : QuoteCall := ({ i.1 with ecall := false }, i.2)

theorem sameHost_unreached (i : QuoteCall) : SameHost i i.unreached := ⟨rfl, rfl⟩

theorem not_mem_lines_unreached (i : QuoteCall) :
    .verifyReport true ∉ i.unreached.1.lines Q H i.unreached.2.1 i.unreached.2.2 := by
  rw [verifyReport_mem_lines_iff, show i.unreached.1.ecall = false from rfl]
  simp

/-- The enclave accepts the report, or is not reached; the line about it is another one, and
nothing else is. -/
theorem alike_of_sampleCalls : ∃ t t',
    (runAll (quoteCall sampleQvl sampleHeader) [reportedCall]).run .init = .ret ([0], t) ∧
    (runAll (quoteCall sampleQvl sampleHeader) [reportedCall.unreached]).run .init =
      .ret ([0], t') ∧
    .verifyReport true ∈ t.log ∧ .verifyReport true ∉ t'.log ∧
    t.log.map QuoteLine.masked = t'.log.map QuoteLine.masked := by
  have hrun := run_quoteCalls sampleQvl sampleHeader [reportedCall] .init
  have hrun' := run_quoteCalls sampleQvl sampleHeader [reportedCall.unreached] .init
  have hsame : List.Forall₂ SameHost [reportedCall] [reportedCall.unreached] :=
    .cons (sameHost_unreached _) .nil
  have hmem : .verifyReport true ∈ reportedCall.1.lines sampleQvl sampleHeader
      reportedCall.2.1 reportedCall.2.2 :=
    verifyReport_mem_lines_iff.mpr ⟨⟨rfl, rfl, rfl⟩, by simp [accepted_reportedCall]; rfl⟩
  refine ⟨_, _, hrun, hrun', ?_, ?_, (alike_of_run hsame hrun hrun').2.2.2.2⟩
  · simpa [QuoteHost.init] using hmem
  · simpa [QuoteHost.init] using
      not_mem_lines_unreached (Q := sampleQvl) (H := sampleHeader) reportedCall

/-! ## The program -/

/-- There is nothing to verify. -/
def QuoteSource.isEmpty : QuoteSource → Bool
  | .missing => true
  | .unsized => false
  | .file content => content.1.isEmpty

/-- Something is thrown on the way: there is no vector for what is found, or no memory for the
copy that one of the two calls is passed. -/
def QuoteSource.Throws (trusted untrusted : QuoteEnv) : QuoteSource → Prop
  | .missing => False
  | .unsized => True
  | .file content => content.1 ≠ [] ∧ (trusted.copied && untrusted.copied) = false

theorem run_verifyCopy (Q : Qvl) (H : QvHeader) (e : QuoteEnv) (quote : QuoteFile)
    (useQve : Bool) (s : QuoteHost) :
    (verifyCopy Q H e quote useQve).run s =
      if e.copied then .ret (e.ret useQve, s.after Q H e quote useQve) else .aborted := by
  cases hcopied : e.copied with
  | true => simp [verifyCopy, hcopied, run_ecdsaQuoteVerification]
  | false => simp [verifyCopy, hcopied]

/-- A file that has been read. -/
theorem run_verifyFile_file (Q : Qvl) (H : QvHeader) (e e' : QuoteEnv)
    {files : List Byte → QuoteSource} {path : List Byte} {quote : QuoteFile}
    (hfile : files path = .file quote) (hquote : quote.1 ≠ []) (s : QuoteHost) :
    (verifyFile Q H e e' files path).run s = if e.copied && e'.copied then
      .ret (0, (((s.said [.quotePath path, .trusted]).after Q H e quote true).said
        [.untrusted]).after Q H e' quote false) else .aborted := by
  cases hcopied : e.copied <;> cases hcopied' : e'.copied <;>
    simp [verifyFile, readBinaryContent, hfile, hquote, run_say, run_verifyCopy, hcopied, hcopied']

theorem run_verifyFile (Q : Qvl) (H : QvHeader) (e e' : QuoteEnv)
    (files : List Byte → QuoteSource) (path : List Byte) (s : QuoteHost) :
    ((files path).Throws e e' ∧ (verifyFile Q H e e' files path).run s = .aborted) ∨
    (¬(files path).Throws e e' ∧ ∃ s', (verifyFile Q H e e' files path).run s =
        .ret (if (files path).isEmpty then -1 else 0, s') ∧
      s'.enclaves = s.enclaves ∧ s'.identities = s.identities) := by
  cases hfile : files path with
  | missing =>
      refine .inr ⟨id, s.said [.cannotOpen path, .usage], ?_, by simp, by simp⟩
      simp [verifyFile, readBinaryContent, QuoteSource.isEmpty, hfile, run_say]
  | unsized =>
      refine .inl ⟨trivial, ?_⟩
      simp [verifyFile, readBinaryContent, hfile]
  | file quote =>
      by_cases hquote : quote.1 = []
      · refine .inr ⟨fun h => h.1 hquote, s.said [.usage], ?_, by simp, by simp⟩
        simp [verifyFile, readBinaryContent, QuoteSource.isEmpty, hfile, run_say, hquote]
      · have hrun := run_verifyFile_file Q H e e' hfile hquote s
        cases hcopied : e.copied && e'.copied with
        | false =>
            rw [hcopied] at hrun
            exact .inl ⟨⟨hquote, hcopied⟩, hrun⟩
        | true =>
            rw [hcopied] at hrun
            have hthrows : ¬(QuoteSource.file quote).Throws e e' := by
              simp [QuoteSource.Throws, hcopied]
            rw [if_pos rfl] at hrun
            have hret : (if (QuoteSource.file quote).isEmpty then -1 else 0 : ℤ) = 0 := by
              simp [QuoteSource.isEmpty, hquote]
            rw [hret]
            exact .inr ⟨hthrows, _, hrun, by simp [QuoteHost.after], by simp [QuoteHost.after]⟩

/-- How the program ends.  The exit code says whether there was a quote, and nothing about it;
all enclaves and identities have been given back by then.  The program reads past the end of
its buffer exactly for a path that fills it, and is aborted exactly where something throws. -/
theorem exit_of_quoteMain (Q : Qvl) (H : QvHeader) (e e' : QuoteEnv)
    (files : List Byte → QuoteSource) (args : List (List Byte)) (s : QuoteHost) :
    (pathSize ≤ (givenPath args).length ∧ (quoteMain Q H e e' files args).run s = .undefined) ∨
    ((givenPath args).length < pathSize ∧
      ((args.length = 0 ∨ args.length = 2) ∧ (files (quotePath args)).Throws e e') ∧
        (quoteMain Q H e e' files args).run s = .aborted) ∨
    ((givenPath args).length < pathSize ∧
      ¬((args.length = 0 ∨ args.length = 2) ∧ (files (quotePath args)).Throws e e') ∧
        ∃ s', (quoteMain Q H e e' files args).run s =
          .ret (if (args.length = 0 ∨ args.length = 2) ∧ (files (quotePath args)).isEmpty
            then -1 else 0, s') ∧
        s'.enclaves = s.enclaves ∧ s'.identities = s.identities) := by
  by_cases hargs : args.length = 0 ∨ args.length = 2
  · have hcount : ¬(args.length ≠ 0 ∧ args.length ≠ 2) := by omega
    simp only [quoteMain, if_neg hcount, hargs, true_and]
    by_cases hlong : pathSize ≤ (givenPath args).length
    · exact .inl ⟨hlong, by rw [if_pos hlong]; rfl⟩
    · rw [if_neg hlong]
      have hfits := Nat.lt_of_not_le hlong
      exact .inr ((run_verifyFile Q H e e' files (quotePath args) s).imp
        (fun h => ⟨hfits, h⟩) fun h => ⟨hfits, h⟩)
  · have hcount : args.length ≠ 0 ∧ args.length ≠ 2 := by omega
    have hgiven : givenPath args = [] := by
      unfold givenPath
      split
      · simp at hargs
      · rfl
    refine .inr (.inr ⟨by rw [hgiven]; decide, fun h => hargs h.1, s.said [.usage], ?_, rfl, rfl⟩)
    rw [quoteMain, if_pos hcount, if_neg (fun h => hargs h.1)]
    rfl

end SgxErlang.Attestation
