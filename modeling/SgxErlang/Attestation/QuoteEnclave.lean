import SgxErlang.Attestation.Enclave

/-!
# The enclave that checks a quote verification

`QuoteVerificationServer/Enclave/Enclave.cpp`.  The quote verification enclave of the vendor
says in a report what it has found out about a quote: the report data is a hash of the quote,
of the result, and of what else belongs to it.  `ecall_verify_report` gets the report and,
one by one, the data that are supposed to be in it, and says whether they are.

The libraries of the vendor are parameters: the hash, the check of a report's MAC, and the
checks of the identity of the quote verification enclave, the latter with the hard-coded
certificate built in.

## Main definitions

* `ecallVerifyReport` — the function.
* `VerifyArgs.hashed` — the data that are hashed, one after the other.

## Main results

* `accepted_iff_faultless` — what is accepted, whatever fails.
* `alike_of_accepted` — how far a report says what its data are.
* `accepted_moved`, `accepted_reframed_iff` — and how far it does not.
-/

namespace SgxErlang.Attestation

/-! ## What the code depends on -/

/-- `sgx_report_t`, as far as the code looks into it. -/
structure SgxReport where
  before : Vector Byte 320
  reportData : Vector Byte 64
  after : Vector Byte 48

/-- `sgx_report_t` in memory. -/
def SgxReport.layout : Layout SgxReport :=
  ((Layout.array 320).prod ((Layout.array 64).prod (Layout.array 48))).iso
    ⟨fun r => ⟨r.1, r.2.1, r.2.2⟩, fun r => (r.before, r.reportData, r.after), fun _ => rfl,
      fun _ => rfl⟩

/-- The libraries of the vendor. -/
structure Qvl where
  /-- `sgx_sha256_init`, `sgx_sha256_update` and `sgx_sha256_get_hash`. -/
  sha256 : List Byte → Vector Byte 32
  /-- The error that `sgx_verify_report` returns, if it does. -/
  verifyReport : SgxReport → Option ℕ
  /-- `sgxAttestationVerifyEnclaveIdentity` says `STATUS_OK`. -/
  verifyEnclaveIdentity : List Byte → List Byte → List Byte → UInt64 → Bool
  /-- `sgxAttestationVerifyEnclaveReport` says `STATUS_OK`. -/
  verifyEnclaveReport : SgxReport → List Byte → Bool

/-- The calls of the hash. -/
inductive ShaStep where
  | init | nonce | quote | checkDate | collateral | result | supplemental | getHash
  deriving DecidableEq

/-- A pointer to a buffer that is copied into the enclave; its size is passed in a type of `w`
bits. -/
abbrev InBuffer (w : ℕ) := Option { bs : List Byte // bs.length < 2 ^ w }

namespace InBuffer

variable {w : ℕ}

/-- What the pointer points to. -/
def bytes (b : InBuffer w) : List Byte := b.elim [] Subtype.val

/-- Neither the pointer nor the size is zero. -/
def present (b : InBuffer w) : Bool := !b.bytes.isEmpty

/-- A buffer with the given content. -/
def of (bs : List Byte) (h : bs.length < 2 ^ w) : InBuffer w := some ⟨bs, h⟩

@[simp] theorem bytes_of (bs : List Byte) (h : bs.length < 2 ^ w) : (of bs h).bytes = bs := rfl

theorem length_bytes_lt (b : InBuffer w) : b.bytes.length < 2 ^ w := by
  cases b with
  | none => exact Nat.two_pow_pos w
  | some bs => exact bs.2

end InBuffer

/-- The arguments of `ecall_verify_report`. -/
structure VerifyArgs where
  report : InBuffer 64
  rand : InBuffer 16
  quote : InBuffer 64
  qveid : InBuffer 32
  qveidIssueChain : InBuffer 32
  rootCaCrl : InBuffer 32
  /-- `expiration_check_date`, by its bits. -/
  checkDate : UInt64
  collateralExpirationStatus : UInt32
  verificationResult : UInt32
  supplemental : InBuffer 32

/-! ## The code -/

/-- The test at the start of `ecall_verify_report`. -/
def VerifyArgs.wellFormed (a : VerifyArgs) : Bool :=
  a.report.bytes.length == 432 && a.rand.present && a.quote.present && a.qveid.present &&
    a.qveidIssueChain.present && a.rootCaCrl.present &&
    (a.supplemental.isNone || a.supplemental.present)

/-- A part of the block of `ecall_verify_report`.  The state is `ret`, and breaking out of the
block is an error. -/
abbrev ReportBlock (α : Type) := ExceptT Unit (StateM SgxStatus) α

/-- Run a part of the block: whether it breaks, and the `ret` that it leaves. -/
def ReportBlock.exec {α : Type} (p : ReportBlock α) (ret : SgxStatus) :
    Except Unit α × SgxStatus :=
  (ExceptT.run p).run ret

/-- `sgx_sha256_update` with its `SGX_ERR_BREAK`, which looks at `sgx_status` and leaves `ret`
as it is. -/
def shaUpdate (ok : ShaStep → Bool) (step : ShaStep) (ctx bytes : List Byte) :
    ReportBlock (List Byte) :=
  if ok step then pure (ctx ++ bytes) else throw ()

/-- The quote, as far as it is hashed: its size is cast to 32 bits. -/
def VerifyArgs.quotePart (a : VerifyArgs) : List Byte :=
  a.quote.bytes.take (a.quote.bytes.length % 2 ^ 32)

/-- The part of the block that computes the hash. -/
def hashReportData (Q : Qvl) (ok : ShaStep → Bool) (a : VerifyArgs) :
    ReportBlock (Vector Byte 32) := do
  let ctx ← shaUpdate ok .init [] []
  let ctx ← shaUpdate ok .nonce ctx a.rand.bytes
  let ctx ← shaUpdate ok .quote ctx a.quotePart
  let ctx ← shaUpdate ok .checkDate ctx (Layout.uint64.put a.checkDate)
  let ctx ← shaUpdate ok .collateral ctx (Layout.uint32.put a.collateralExpirationStatus)
  let ctx ← shaUpdate ok .result ctx (Layout.uint32.put a.verificationResult)
  let ctx ← if a.supplemental.isSome then shaUpdate ok .supplemental ctx a.supplemental.bytes
    else pure ctx
  let ctx ← shaUpdate ok .getHash ctx []
  pure (Q.sha256 ctx)

/-- A test; if it fails, `ret` is `SGX_ERROR_UNEXPECTED` and the block is left. -/
def ensure (c : Bool) : ReportBlock Unit :=
  if c then pure () else do
    set SgxStatus.unexpected
    throw ()

/-- `report_data`: the hash, filled up with zeros. -/
def qveReportData (hash : Vector Byte 32) : List Byte := hash.toList ++ List.replicate 32 0

/-- The part of the block after the hash. -/
def checkReport (Q : Qvl) (a : VerifyArgs) (report : SgxReport) (hash : Vector Byte 32) :
    ReportBlock Unit := do
  ensure (report.reportData.toList == qveReportData hash)
  ensure (Q.verifyEnclaveIdentity a.qveid.bytes a.qveidIssueChain.bytes a.rootCaCrl.bytes
    a.checkDate)
  ensure (Q.verifyEnclaveReport report a.qveid.bytes)

/-- The report. -/
def VerifyArgs.sgxReport (a : VerifyArgs) : SgxReport := SgxReport.layout.get a.report.bytes

/-- The block of `ecall_verify_report`. -/
def verifyReportBlock (Q : Qvl) (ok : ShaStep → Bool) (a : VerifyArgs) : ReportBlock Unit :=
  match Q.verifyReport a.sgxReport with
  | some code => do
      set (SgxStatus.other code)
      throw ()
  | none => do
      set SgxStatus.success
      let hash ← hashReportData Q ok a
      checkReport Q a a.sgxReport hash
      set SgxStatus.success

/-- `ecall_verify_report`. -/
def ecallVerifyReport (Q : Qvl) (ok : ShaStep → Bool) (a : VerifyArgs) : SgxStatus :=
  if a.wellFormed then ((verifyReportBlock Q ok a).exec .unexpected).2 else .unexpected

/-! ## Leaving the block -/

namespace ReportBlock

variable {α β : Type} {p : ReportBlock α} {ret ret' : SgxStatus}

@[simp] theorem exec_pure (a : α) (ret : SgxStatus) :
    exec (pure a : ReportBlock α) ret = (.ok a, ret) := rfl
@[simp] theorem exec_set (ret ret' : SgxStatus) :
    exec (set ret' : ReportBlock PUnit) ret = (.ok ⟨⟩, ret') := rfl

theorem exec_bind (p : ReportBlock α) (f : α → ReportBlock β) (ret : SgxStatus) :
    exec (p >>= f) ret = match exec p ret with
      | (.ok a, ret') => exec (f a) ret'
      | (.error e, ret') => (.error e, ret') := by
  simp only [exec, ExceptT.run_bind, StateT.run_bind]
  rcases (ExceptT.run p).run ret with ⟨_ | _, _⟩ <;> rfl

/-- After a part that does not break the rest runs. -/
theorem exec_bind_ok {a : α} (h : exec p ret = (.ok a, ret')) (f : α → ReportBlock β) :
    exec (p >>= f) ret = exec (f a) ret' := by
  rw [exec_bind, h]

/-- After a break nothing runs, and `ret` stays. -/
theorem exec_bind_error (h : exec p ret = (.error (), ret')) (f : α → ReportBlock β) :
    exec (p >>= f) ret = (.error (), ret') := by
  rw [exec_bind, h]

end ReportBlock

/-! ## What is accepted -/

variable {Q : Qvl} {ok : ShaStep → Bool} {a b : VerifyArgs} {ret : SgxStatus}

/-- The calls of the hash that are made for some arguments, and what is hashed by each. -/
def VerifyArgs.updates (a : VerifyArgs) : List (ShaStep × List Byte) :=
  [(.init, []), (.nonce, a.rand.bytes), (.quote, a.quotePart),
    (.checkDate, Layout.uint64.put a.checkDate),
    (.collateral, Layout.uint32.put a.collateralExpirationStatus),
    (.result, Layout.uint32.put a.verificationResult)] ++
    (if a.supplemental.isSome then [(.supplemental, a.supplemental.bytes)] else []) ++
    [(.getHash, [])]

/-- The data that are hashed. -/
def VerifyArgs.hashed (a : VerifyArgs) : List Byte :=
  a.rand.bytes ++ a.quotePart ++ Layout.uint64.put a.checkDate ++
    Layout.uint32.put a.collateralExpirationStatus ++ Layout.uint32.put a.verificationResult ++
    a.supplemental.bytes

/-- Some call of the hash fails. -/
def VerifyArgs.HashFails (a : VerifyArgs) (ok : ShaStep → Bool) : Prop :=
  ∃ call ∈ a.updates, ok call.1 = false

/-- The report says what the arguments say, and comes from where it should come from. -/
def VerifyArgs.Confirmed (a : VerifyArgs) (Q : Qvl) : Prop :=
  a.sgxReport.reportData.toList = qveReportData (Q.sha256 a.hashed) ∧
    Q.verifyEnclaveIdentity a.qveid.bytes a.qveidIssueChain.bytes a.rootCaCrl.bytes a.checkDate ∧
      Q.verifyEnclaveReport a.sgxReport a.qveid.bytes

/-- A list of updates, one after the other. -/
def shaUpdates (ok : ShaStep → Bool) :
    List (ShaStep × List Byte) → List Byte → ReportBlock (List Byte)
  | [], ctx => pure ctx
  | (step, bytes) :: calls, ctx => do
      let ctx ← shaUpdate ok step ctx bytes
      shaUpdates ok calls ctx

theorem exec_shaUpdate (ok : ShaStep → Bool) (step : ShaStep) (ctx bytes : List Byte)
    (ret : SgxStatus) : (shaUpdate ok step ctx bytes).exec ret =
      if ok step then (.ok (ctx ++ bytes), ret) else (.error (), ret) := by
  rw [shaUpdate]
  split_ifs <;> rfl

theorem shaUpdates_of_forall {calls : List (ShaStep × List Byte)}
    (h : ∀ call ∈ calls, ok call.1 = true) (ctx : List Byte) (ret : SgxStatus) :
    (shaUpdates ok calls ctx).exec ret = (.ok (ctx ++ calls.flatMap Prod.snd), ret) := by
  induction calls generalizing ctx with
  | nil => simp [shaUpdates]
  | cons call calls ih =>
      obtain ⟨hok, hrest⟩ := List.forall_mem_cons.mp h
      have hcall := exec_shaUpdate ok call.1 ctx call.2 ret
      rw [if_pos hok] at hcall
      rw [shaUpdates, ReportBlock.exec_bind_ok hcall, ih hrest, List.flatMap_cons,
        List.append_assoc]

/-- The first call that fails ends the block, and `ret` is what it was before. -/
theorem shaUpdates_of_fails {calls : List (ShaStep × List Byte)}
    (h : ∃ call ∈ calls, ok call.1 = false) (ctx : List Byte) (ret : SgxStatus) :
    (shaUpdates ok calls ctx).exec ret = (.error (), ret) := by
  induction calls generalizing ctx with
  | nil =>
      obtain ⟨call, hmem, -⟩ := h
      simp at hmem
  | cons call calls ih =>
      have hcall := exec_shaUpdate ok call.1 ctx call.2 ret
      by_cases hok : ok call.1 = true
      · have hrest : ∃ call ∈ calls, ok call.1 = false := by
          obtain ⟨call', hmem, hno⟩ := h
          rcases List.mem_cons.mp hmem with rfl | hmem
          · rw [hok] at hno
            exact absurd hno (by simp)
          · exact ⟨call', hmem, hno⟩
        rw [if_pos hok] at hcall
        rw [shaUpdates, ReportBlock.exec_bind_ok hcall, ih hrest]
      · rw [if_neg hok] at hcall
        rw [shaUpdates, ReportBlock.exec_bind_error hcall]

theorem hashReportData_eq (Q : Qvl) (ok : ShaStep → Bool) (a : VerifyArgs) :
    hashReportData Q ok a = (shaUpdates ok a.updates [] >>= fun ctx => pure (Q.sha256 ctx)) := by
  cases hsuppl : a.supplemental <;>
    simp [hashReportData, VerifyArgs.updates, hsuppl, shaUpdates]

theorem flatMap_updates (a : VerifyArgs) : a.updates.flatMap Prod.snd = a.hashed := by
  cases hsuppl : a.supplemental <;>
    simp [VerifyArgs.updates, VerifyArgs.hashed, hsuppl, InBuffer.bytes]

/-- Every call is made, except that for supplemental data which are not there. -/
theorem hashFails_iff : a.HashFails ok ↔
    ∃ step, ok step = false ∧ (step = .supplemental → a.supplemental.isSome) := by
  constructor
  · intro ⟨call, hmem, hno⟩
    refine ⟨call.1, hno, fun hsuppl => ?_⟩
    by_contra hnone
    have hfst : call.1 ∈ a.updates.map Prod.fst := List.mem_map_of_mem hmem
    rw [hsuppl] at hfst
    simp [VerifyArgs.updates, hnone] at hfst
  · intro ⟨step, hno, hsuppl⟩
    suffices hfst : step ∈ a.updates.map Prod.fst by
      obtain ⟨call, hmem, rfl⟩ := List.mem_map.mp hfst
      exact ⟨call, hmem, hno⟩
    cases step with
    | supplemental => simp [VerifyArgs.updates, hsuppl rfl]
    | _ => simp [VerifyArgs.updates]

/-- The hash is computed if no call fails. -/
theorem hashReportData_of_not_fails (h : ¬a.HashFails ok) (ret : SgxStatus) :
    (hashReportData Q ok a).exec ret = (.ok (Q.sha256 a.hashed), ret) := by
  have hall : ∀ call ∈ a.updates, ok call.1 = true := by
    intro call hmem
    by_contra hno
    exact h ⟨call, hmem, by simpa using hno⟩
  rw [hashReportData_eq, ReportBlock.exec_bind_ok (shaUpdates_of_forall hall [] ret),
    ReportBlock.exec_pure, flatMap_updates, List.nil_append]

/-- Otherwise the block is left, with the `ret` from before. -/
theorem hashReportData_of_fails (h : a.HashFails ok) (ret : SgxStatus) :
    (hashReportData Q ok a).exec ret = (.error (), ret) := by
  rw [hashReportData_eq, ReportBlock.exec_bind_error (shaUpdates_of_fails h [] ret)]

theorem exec_ensure (c : Bool) (ret : SgxStatus) :
    (ensure c).exec ret = if c then (.ok (), ret) else (.error (), .unexpected) := by
  cases c <;> rfl

theorem exec_ensure_bind {α : Type} (c : Bool) (f : Unit → ReportBlock α) (ret : SgxStatus) :
    (ensure c >>= f).exec ret = if c then (f ()).exec ret else (.error (), .unexpected) := by
  have hensure := exec_ensure c ret
  cases c with
  | true => exact ReportBlock.exec_bind_ok hensure f
  | false => exact ReportBlock.exec_bind_error hensure f

theorem exec_checkReport (Q : Qvl) (a : VerifyArgs) (ret : SgxStatus) :
    (checkReport Q a a.sgxReport (Q.sha256 a.hashed)).exec ret = (.ok (), ret) ∧ a.Confirmed Q ∨
      (checkReport Q a a.sgxReport (Q.sha256 a.hashed)).exec ret = (.error (), .unexpected) ∧
        ¬a.Confirmed Q := by
  simp only [checkReport, exec_ensure_bind, exec_ensure, VerifyArgs.Confirmed, beq_iff_eq]
  split_ifs with hdata hid hrep
  · exact .inl ⟨rfl, hdata, hid, hrep⟩
  · exact .inr ⟨rfl, fun h => hrep h.2.2⟩
  · exact .inr ⟨rfl, fun h => hid h.2.1⟩
  · exact .inr ⟨rfl, fun h => hdata h.1⟩

theorem verifyReportBlock_of_some {code : ℕ} (h : Q.verifyReport a.sgxReport = some code) :
    (verifyReportBlock Q ok a).exec ret = (.error (), .other code) := by
  rw [verifyReportBlock, h]
  rfl

/-- With a report that the processor vouches for `ret` is `SGX_SUCCESS` where the hash starts,
so it still is where a call of the hash breaks out of the block. -/
theorem verifyReportBlock_of_fails (h : Q.verifyReport a.sgxReport = none)
    (hfails : a.HashFails ok) : (verifyReportBlock Q ok a).exec ret = (.error (), .success) := by
  rw [verifyReportBlock, h, ReportBlock.exec_bind_ok (ReportBlock.exec_set ret .success),
    ReportBlock.exec_bind_error (hashReportData_of_fails hfails .success)]

theorem verifyReportBlock_of_not_fails (h : Q.verifyReport a.sgxReport = none)
    (hfails : ¬a.HashFails ok) :
    (verifyReportBlock Q ok a).exec ret =
      (checkReport Q a a.sgxReport (Q.sha256 a.hashed)).exec .success := by
  rw [verifyReportBlock, h, ReportBlock.exec_bind_ok (ReportBlock.exec_set ret .success),
    ReportBlock.exec_bind_ok (hashReportData_of_not_fails hfails .success)]
  rcases exec_checkReport Q a .success with ⟨hcheck, -⟩ | ⟨hcheck, -⟩
  · rw [ReportBlock.exec_bind_ok hcheck, hcheck]
    rfl
  · rw [ReportBlock.exec_bind_error hcheck, hcheck]

/-- What is accepted: a report that the processor vouches for, if some call of the hash fails,
and otherwise if the rest is as it should be. -/
theorem ecallVerifyReport_success_iff : ecallVerifyReport Q ok a = .success ↔
    a.wellFormed ∧ Q.verifyReport a.sgxReport = none ∧ (a.HashFails ok ∨ a.Confirmed Q) := by
  cases hwf : a.wellFormed with
  | false => simp [ecallVerifyReport, hwf]
  | true =>
      rw [ecallVerifyReport, if_pos hwf]
      cases hreport : Q.verifyReport a.sgxReport with
      | some code => simp [verifyReportBlock_of_some hreport]
      | none =>
          by_cases hfails : a.HashFails ok
          · simp [verifyReportBlock_of_fails hreport hfails, hfails]
          · rw [verifyReportBlock_of_not_fails hreport hfails]
            rcases exec_checkReport Q a .success with ⟨hcheck, hconf⟩ | ⟨hcheck, hconf⟩
            · simp [hcheck, hconf]
            · simp [hcheck, hfails, hconf]

theorem not_hashFails_of_forall (h : ∀ step, ok step = true) : ¬a.HashFails ok := by
  intro hfails
  obtain ⟨step, hno, -⟩ := hashFails_iff.mp hfails
  rw [h step] at hno
  exact Bool.false_ne_true hno.symm

/-- A call of the hash that fails does not make the function reject anything: it makes it accept
every report that the processor vouches for, whatever the arguments. -/
theorem accepted_iff_faultless : ecallVerifyReport Q ok a = .success ↔
    ecallVerifyReport Q (fun _ => true) a = .success ∨
      (a.wellFormed ∧ Q.verifyReport a.sgxReport = none ∧
        ∃ step, ok step = false ∧ (step = .supplemental → a.supplemental.isSome)) := by
  have hno : ¬a.HashFails fun _ => true := not_hashFails_of_forall fun _ => rfl
  rw [ecallVerifyReport_success_iff, ecallVerifyReport_success_iff, hashFails_iff]
  constructor
  · intro ⟨hwf, hreport, hrest⟩
    exact hrest.symm.imp (fun hconf => ⟨hwf, hreport, .inr hconf⟩) fun hfails =>
      ⟨hwf, hreport, hfails⟩
  · rintro (⟨hwf, hreport, hrest⟩ | ⟨hwf, hreport, hfails⟩)
    · exact ⟨hwf, hreport, .inr (hrest.resolve_left hno)⟩
    · exact ⟨hwf, hreport, .inl hfails⟩

theorem toList_get_array {n : ℕ} {bs : List Byte} (h : n ≤ bs.length) :
    ((Layout.array n).get bs).toList = bs.take n :=
  (Layout.array n).put_get bs h

/-- The same arguments, with a report that says what they are. -/
def VerifyArgs.reported (a : VerifyArgs) (Q : Qvl) : VerifyArgs :=
  let reportData := (Layout.array 64).get (qveReportData (Q.sha256 a.hashed))
  { a with
    report := .of (SgxReport.layout.put ⟨Vector.replicate 320 0, reportData,
        Vector.replicate 48 0⟩) (by
      rw [Layout.length_put]
      decide) }

/-- Only the report is another one. -/
theorem reported_eq (a : VerifyArgs) (Q : Qvl) : a.reported Q =
    { a with report := .of (a.reported Q).report.bytes (a.reported Q).report.length_bytes_lt } :=
  rfl

theorem length_report_reported (Q : Qvl) (a : VerifyArgs) :
    (a.reported Q).report.bytes.length = 432 := by
  rw [VerifyArgs.reported, InBuffer.bytes_of, Layout.length_put]
  rfl

theorem reportData_reported (Q : Qvl) (a : VerifyArgs) :
    (a.reported Q).sgxReport.reportData.toList = qveReportData (Q.sha256 a.hashed) := by
  have hlen : (qveReportData (Q.sha256 a.hashed)).length = 64 := by
    simp [qveReportData]
  have hget : (a.reported Q).sgxReport.reportData =
      (Layout.array 64).get (qveReportData (Q.sha256 a.hashed)) := by
    rw [VerifyArgs.sgxReport, VerifyArgs.reported, InBuffer.bytes_of, Layout.get_put]
  rw [hget]
  generalize qveReportData (Q.sha256 a.hashed) = data at hlen ⊢
  rw [toList_get_array hlen.ge, List.take_of_length_le hlen.le]

/-- Libraries for which every report and every identity is in order. -/
def sampleQvl : Qvl := ⟨sha256, fun _ => none, fun _ _ _ _ => true, fun _ _ => true⟩

/-- A quote of three bytes, with the given revocation list. -/
def sampleArgs (rootCaCrl : Byte) : VerifyArgs :=
  { report := none
    rand := .of (List.replicate 16 1) (by decide)
    quote := .of [1, 2, 3] (by decide)
    qveid := .of [0] (by decide)
    qveidIssueChain := .of [0] (by decide)
    rootCaCrl := .of [rootCaCrl] (by simp)
    checkDate := 0
    collateralExpirationStatus := 0
    verificationResult := 5
    supplemental := .of (List.replicate 20 0) (by decide) : VerifyArgs }.reported sampleQvl

/-- Such libraries accept a report that says what the arguments are. -/
theorem accepted_reported (h : (a.reported sampleQvl).wellFormed) :
    ecallVerifyReport sampleQvl ok (a.reported sampleQvl) = .success :=
  ecallVerifyReport_success_iff.mpr ⟨h, rfl, .inr ⟨reportData_reported _ _, rfl, rfl⟩⟩

theorem accepted_sampleArgs (rootCaCrl : Byte) :
    ecallVerifyReport sampleQvl (fun _ => true) (sampleArgs rootCaCrl) = .success := by
  apply accepted_reported
  simp [VerifyArgs.wellFormed, InBuffer.present, VerifyArgs.reported]
  decide

/-! ## What a report says -/

theorem length_hashed (a : VerifyArgs) :
    a.hashed.length = a.rand.bytes.length + a.quotePart.length + 16 +
      a.supplemental.bytes.length := by
  simp only [VerifyArgs.hashed, List.length_append, Layout.length_put]
  change _ + _ + 8 + 4 + 4 + _ = _
  omega

/-- If the sizes of the random number and of the supplemental data are the same, the hashed
strings are the same only for the same data. -/
theorem eq_of_hashed_eq (hrand : a.rand.bytes.length = b.rand.bytes.length)
    (hsuppl : a.supplemental.bytes.length = b.supplemental.bytes.length)
    (h : a.hashed = b.hashed) :
    a.rand.bytes = b.rand.bytes ∧ a.quotePart = b.quotePart ∧ a.checkDate = b.checkDate ∧
      a.collateralExpirationStatus = b.collateralExpirationStatus ∧
      a.verificationResult = b.verificationResult ∧
      a.supplemental.bytes = b.supplemental.bytes := by
  have hquote : a.quotePart.length = b.quotePart.length := by
    have hlen := congrArg List.length h
    rw [length_hashed, length_hashed] at hlen
    omega
  simp only [VerifyArgs.hashed, List.append_assoc] at h
  obtain ⟨h₁, h⟩ := List.append_inj h hrand
  obtain ⟨h₂, h⟩ := List.append_inj h hquote
  obtain ⟨h₃, h⟩ := List.append_inj h (by rw [Layout.length_put, Layout.length_put])
  obtain ⟨h₄, h⟩ := List.append_inj h (by rw [Layout.length_put, Layout.length_put])
  obtain ⟨h₅, h₆⟩ := List.append_inj h (by rw [Layout.length_put, Layout.length_put])
  exact ⟨h₁, h₂, Layout.uint64.put_injective h₃, Layout.uint32.put_injective h₄,
    Layout.uint32.put_injective h₅, h₆⟩

theorem qveReportData_inj {x y : Vector Byte 32} (h : qveReportData x = qveReportData y) :
    x = y := by
  apply Vector.toList_inj.mp
  exact (List.append_inj h (by rw [Vector.length_toList, Vector.length_toList])).1

/-- One report is not accepted for different data, unless two strings with the same hash are
at hand; but the sizes of the random number and of the supplemental data have to be known. -/
theorem alike_of_accepted {ok' : ShaStep → Bool} (hreport : a.report.bytes = b.report.bytes)
    (hrand : a.rand.bytes.length = b.rand.bytes.length)
    (hsuppl : a.supplemental.bytes.length = b.supplemental.bytes.length)
    (ha : ecallVerifyReport Q ok a = .success) (hok : ¬a.HashFails ok)
    (hb : ecallVerifyReport Q ok' b = .success) (hok' : ¬b.HashFails ok') :
    (a.rand.bytes = b.rand.bytes ∧ a.quotePart = b.quotePart ∧ a.checkDate = b.checkDate ∧
      a.collateralExpirationStatus = b.collateralExpirationStatus ∧
      a.verificationResult = b.verificationResult ∧
      a.supplemental.bytes = b.supplemental.bytes) ∨
    (a.hashed ≠ b.hashed ∧ Q.sha256 a.hashed = Q.sha256 b.hashed) := by
  have hconf := (ecallVerifyReport_success_iff.mp ha).2.2.resolve_left hok
  have hconf' := (ecallVerifyReport_success_iff.mp hb).2.2.resolve_left hok'
  have hsha : Q.sha256 a.hashed = Q.sha256 b.hashed := by
    apply qveReportData_inj
    rw [← hconf.1, ← hconf'.1, VerifyArgs.sgxReport, VerifyArgs.sgxReport, hreport]
  by_cases hhashed : a.hashed = b.hashed
  · exact .inl (eq_of_hashed_eq hrand hsuppl hhashed)
  · exact .inr ⟨hhashed, hsha⟩

theorem alike_of_sampleArgs :
    ((sampleArgs 0).rand.bytes = (sampleArgs 1).rand.bytes ∧
      (sampleArgs 0).quotePart = (sampleArgs 1).quotePart ∧
      (sampleArgs 0).checkDate = (sampleArgs 1).checkDate ∧
      (sampleArgs 0).collateralExpirationStatus = (sampleArgs 1).collateralExpirationStatus ∧
      (sampleArgs 0).verificationResult = (sampleArgs 1).verificationResult ∧
      (sampleArgs 0).supplemental.bytes = (sampleArgs 1).supplemental.bytes) ∨
    ((sampleArgs 0).hashed ≠ (sampleArgs 1).hashed ∧
      sampleQvl.sha256 (sampleArgs 0).hashed = sampleQvl.sha256 (sampleArgs 1).hashed) :=
  alike_of_accepted rfl rfl rfl (accepted_sampleArgs 0) (not_hashFails_of_forall fun _ => rfl)
    (accepted_sampleArgs 1) (not_hashFails_of_forall fun _ => rfl)

/-! ## What a report does not say -/

/-- A quote that is hashed as a whole. -/
theorem quotePart_of_lt (h : a.quote.bytes.length < 2 ^ 32) : a.quotePart = a.quote.bytes := by
  rw [VerifyArgs.quotePart, Nat.mod_eq_of_lt h, List.take_length]

/-- The first `k` bytes of the quote are passed as the last ones of the random number. -/
def VerifyArgs.moved (a : VerifyArgs) (k : ℕ) (h : a.rand.bytes.length + k < 2 ^ 16) : VerifyArgs :=
  { a with
    rand := .of (a.rand.bytes ++ a.quote.bytes.take k) (by
      rw [List.length_append, List.length_take]
      omega)
    quote := .of (a.quote.bytes.drop k) (by
      have := a.quote.length_bytes_lt
      rw [List.length_drop]
      omega) }

/-- The date, the status and the result, one after the other. -/
def verdictLayout : Layout (UInt64 × UInt32 × UInt32) :=
  Layout.uint64.prod (Layout.uint32.prod Layout.uint32)

/-- The data up to the last 16 bytes are passed as the quote, and these as the date, the
status and the result. -/
def VerifyArgs.reframed (a : VerifyArgs)
    (h : a.quote.bytes.length + a.supplemental.bytes.length < 2 ^ 32) : VerifyArgs :=
  let n := a.supplemental.bytes.length - 16
  let verdict := verdictLayout.get (a.supplemental.bytes.drop n)
  { a with
    quote := .of (a.quote.bytes ++
        verdictLayout.put (a.checkDate, a.collateralExpirationStatus, a.verificationResult) ++
        a.supplemental.bytes.take n) (by
      simp only [List.length_append, Layout.length_put, List.length_take]
      change _ + 16 + _ < _
      omega)
    checkDate := verdict.1
    collateralExpirationStatus := verdict.2.1
    verificationResult := verdict.2.2
    supplemental := none }

theorem hashed_moved {k : ℕ} (h : a.rand.bytes.length + k < 2 ^ 16)
    (hquote : a.quote.bytes.length < 2 ^ 32) : (a.moved k h).hashed = a.hashed := by
  have hmoved : (a.moved k h).quotePart = a.quote.bytes.drop k := by
    apply quotePart_of_lt
    change (a.quote.bytes.drop k).length < 2 ^ 32
    rw [List.length_drop]
    omega
  simp only [VerifyArgs.hashed, hmoved, quotePart_of_lt hquote]
  simp [VerifyArgs.moved]

/-- Nothing tells the end of the random number from the start of the quote: with some bytes of
it moved across, a call is accepted as before. -/
theorem accepted_moved {k : ℕ} (h : a.rand.bytes.length + k < 2 ^ 16)
    (hquote : a.quote.bytes.length < 2 ^ 32) (hk : k < a.quote.bytes.length)
    (ha : ecallVerifyReport Q ok a = .success) :
    ecallVerifyReport Q ok (a.moved k h) = .success := by
  obtain ⟨hwf, hreport, hrest⟩ := ecallVerifyReport_success_iff.mp ha
  refine ecallVerifyReport_success_iff.mpr ⟨?_, hreport, ?_⟩
  · have hrand : a.rand.bytes ≠ [] := by
      intro hnil
      simp [VerifyArgs.wellFormed, InBuffer.present, hnil] at hwf
    have hdrop : a.quote.bytes.drop k ≠ [] := by simpa using hk
    simp only [VerifyArgs.wellFormed, InBuffer.present, Bool.and_eq_true] at hwf ⊢
    simp_all [VerifyArgs.moved]
  · refine hrest.imp (fun hfails => ?_) fun ⟨hdata, hid, hrep⟩ => ⟨?_, hid, hrep⟩
    · have hcall := hashFails_iff.mp hfails
      exact hashFails_iff.mpr hcall
    · rw [hashed_moved h hquote]
      exact hdata

theorem accepted_moved_sampleArgs : ecallVerifyReport sampleQvl (fun _ => true)
    ((sampleArgs 0).moved 2 (by decide)) = .success :=
  accepted_moved (by decide) (by decide) (by decide) (accepted_sampleArgs 0)

theorem hashed_eq (a : VerifyArgs) : a.hashed = a.rand.bytes ++ a.quotePart ++
    verdictLayout.put (a.checkDate, a.collateralExpirationStatus, a.verificationResult) ++
      a.supplemental.bytes := by
  simp [VerifyArgs.hashed, verdictLayout, Layout.prod]

theorem hashed_reframed (h : a.quote.bytes.length + a.supplemental.bytes.length < 2 ^ 32)
    (hsuppl : 16 ≤ a.supplemental.bytes.length) : (a.reframed h).hashed = a.hashed := by
  have hpart : (a.reframed h).quotePart = (a.reframed h).quote.bytes := by
    apply quotePart_of_lt
    simp only [VerifyArgs.reframed, InBuffer.bytes_of, List.length_append, Layout.length_put,
      List.length_take]
    change _ + 16 + _ < _
    omega
  have hquote : a.quotePart = a.quote.bytes := quotePart_of_lt (by omega)
  have htail : verdictLayout.put (verdictLayout.get
      (a.supplemental.bytes.drop (a.supplemental.bytes.length - 16))) =
        a.supplemental.bytes.drop (a.supplemental.bytes.length - 16) := by
    have hlen : (a.supplemental.bytes.drop (a.supplemental.bytes.length - 16)).length = 16 := by
      rw [List.length_drop]
      omega
    rw [verdictLayout.put_get _ hlen.ge]
    exact List.take_of_length_le hlen.le
  rw [hashed_eq, hashed_eq, hpart, hquote]
  simp only [VerifyArgs.reframed, InBuffer.bytes_of, List.append_assoc, htail]
  simp [InBuffer.bytes, List.take_append_drop]

/-- Nor does anything tell where the quote ends: a report with supplemental data is accepted
for a longer quote without them, and for the date, the status and the result that their last
16 bytes are, if only the identity passes for that date. -/
theorem accepted_reframed_iff
    (h : a.quote.bytes.length + a.supplemental.bytes.length < 2 ^ 32)
    (hsuppl : 16 ≤ a.supplemental.bytes.length) (ha : ecallVerifyReport Q ok a = .success)
    (hok : ¬a.HashFails ok) :
    ecallVerifyReport Q ok (a.reframed h) = .success ↔
      Q.verifyEnclaveIdentity a.qveid.bytes a.qveidIssueChain.bytes a.rootCaCrl.bytes
        (a.reframed h).checkDate := by
  obtain ⟨hwf, hreport, hrest⟩ := ecallVerifyReport_success_iff.mp ha
  obtain ⟨hdata, -, hrep⟩ := hrest.resolve_left hok
  have hok' : ¬(a.reframed h).HashFails ok := by
    intro hfails
    obtain ⟨step, hno, hnone⟩ := hashFails_iff.mp hfails
    exact hok (hashFails_iff.mpr ⟨step, hno, fun hstep => nomatch hnone hstep⟩)
  have hwf' : (a.reframed h).wellFormed = true := by
    have hput : verdictLayout.put
        (a.checkDate, a.collateralExpirationStatus, a.verificationResult) ≠ [] := by
      apply List.ne_nil_of_length_pos
      rw [Layout.length_put]
      decide
    simp only [VerifyArgs.wellFormed, InBuffer.present, Bool.and_eq_true] at hwf ⊢
    simp_all [VerifyArgs.reframed]
  rw [ecallVerifyReport_success_iff]
  constructor
  · intro hacc
    exact (hacc.2.2.resolve_left hok').2.1
  · intro hid
    refine ⟨hwf', hreport, .inr ⟨?_, hid, hrep⟩⟩
    rw [hashed_reframed h hsuppl]
    exact hdata

/-- The result in the report is 5, and 0 is accepted. -/
theorem accepted_reframed_sampleArgs : ∃ h : (sampleArgs 0).quote.bytes.length +
      (sampleArgs 0).supplemental.bytes.length < 2 ^ 32,
    ecallVerifyReport sampleQvl (fun _ => true) ((sampleArgs 0).reframed h) = .success ∧
      ((sampleArgs 0).reframed h).verificationResult = 0 :=
  ⟨by decide, (accepted_reframed_iff (by decide) (by decide) (accepted_sampleArgs 0)
    (not_hashFails_of_forall fun _ => rfl)).mpr rfl, by decide⟩

end SgxErlang.Attestation
