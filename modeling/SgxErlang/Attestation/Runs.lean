import SgxErlang.Attestation.Reference
import SgxErlang.Attestation.Session

/-!
# Sessions over whole runs

The service provider keeps one session for all its callers, and serves any request at any
time.  What it holds after a run is a matter of the requests alone: every field is what the
last `msg1` has stored that reached it, and zeros if there was none.  From this follows what
a released secret stands for.

## Main definitions

* `registers`, `writes` — what the requests of a run do, read off the requests.
* `currentSession` — the session of the last `msg1` that was served.

## Main results

* `db_of_run` — the session after any run.
* `att_result_iff_of_run` — when the secret is released, and under which keys.
* `defined_run_iff` — the runs in which memory is read only where it may be.
* `msg0_answers_of_run` — which attestation key each caller is asked for.
-/

namespace SgxErlang.Attestation

open Handler StagedWrite

variable (L : Libcrypto) (k : Kdf)

/-- The request registers the service provider. -/
def registers (i : Env × Request) : Bool :=
  i.2.type == 0 && (i.2.body.length == 4 && Layout.uint32.get i.2.body == 0)

/-- The request is a `msg1` of the right size. -/
def isMsg1 (i : Env × Request) : Bool := i.2.type == 1 && i.2.body.length == 68

/-- The `msg1`s of a run that are served, in order. -/
def servedMsg1s : Bool → List (Env × Request) → List (Env × EcPub)
  | _, [] => []
  | registered, i :: is =>
      (if registered && isMsg1 i then [(i.1, (Msg1.layout.get i.2.body).gA)] else []) ++
        servedMsg1s (registered || registers i) is

/-- What such a list writes. -/
def writes (ms : List (Env × EcPub)) : List (StagedWrite Slot (List Byte)) :=
  ms.map fun m => msg1Write L k m.1 m.2

/-- The session of the last `msg1` of a run that got as far as a field. -/
def reached (is : List (Env × Request)) (slot : Slot) : SpDbItem :=
  match ((servedMsg1s false is).filter fun m => k.rank slot < m.1.reach k).getLast? with
  | none => .zero
  | some m => session L k m.1.priv m.2

/-- The session that a run leaves, read off the requests: each field is of the last `msg1`
that got as far as it. -/
def storedSession (is : List (Env × Request)) : SpDbItem where
  gA := (reached L k is .gA).gA
  gB := (reached L k is .gB).gB
  vkKey := (reached L k is .vkKey).vkKey
  mkKey := (reached L k is .mkKey).mkKey
  skKey := (reached L k is .skKey).skKey
  smkKey := (reached L k is .smkKey).smkKey
  b := (reached L k is .b).b
  psSecProp := Vector.replicate 256 0

/-! ## One step -/

/-- What serving a request amounts to, whatever the request is. -/
structure Serves (i : Env × Request) (s : Sp) (r : Except ℤ Response) (s' : Sp) : Prop where
  valid : s'.Valid
  registered : s'.isSpRegistered = (s.isSpRegistered || registers i)
  read : s'.db.read = writeAll k.rank (writes L k (servedMsg1s s.isSpRegistered [i])) s.db.read
  listed : s'.returnEcdsaAttKeyId = (s.returnEcdsaAttKeyId && !(i.2.type == 0 && r.isOk))
  msg0 : i.2.type = 0 → ∀ resp, r = .ok resp ↔
    i.2.body.length = 4 ∧ i.1.ok .msg0Malloc ∧ resp = msg0Response s.returnEcdsaAttKeyId
  msg3 : i.2.type = 3 → ∀ resp, r = .ok resp ↔
    Accepts L i.1 s i.2.body ∧ resp = attResultResponse L i.1 s.db

variable {L k} {i : Env × Request} {s s' : Sp}

theorem Sp.Valid.register (hs : s.Valid) (id : UInt32) : (s.register id).Valid := by
  rw [Sp.register]
  split_ifs
  · exact ⟨rfl, fun _ => rfl⟩
  · exact hs

theorem Sp.register_isSpRegistered (id : UInt32) :
    (s.register id).isSpRegistered = (s.isSpRegistered || id == 0) := by
  by_cases h : id = 0 <;> simp [Sp.register, h]

theorem Sp.register_db (id : UInt32) : (s.register id).db = s.db := by
  by_cases h : id = 0 <;> simp [Sp.register, h]

theorem Sp.register_returnEcdsaAttKeyId (id : UInt32) :
    (s.register id).returnEcdsaAttKeyId = s.returnEcdsaAttKeyId := by
  by_cases h : id = 0 <;> simp [Sp.register, h]

/-- Each request goes to the handler of its type. -/
theorem run_raNetworkSendReceive (L : Libcrypto) (k : Kdf) (i : Env × Request) (s : Sp) :
    (raNetworkSendReceive L k i).run s =
      if i.2.type = 0 then exec (spRaProcMsg0Req i.1 i.2.body) s
      else if i.2.type = 1 then exec (spRaProcMsg1Req L k i.1 i.2.body) s
      else if i.2.type = 3 then exec (spRaProcMsg3Req L i.1 i.2.body) s
      else .ret (.error (-1), s) := by
  change exec (if i.2.type = RaMsgType.msg0.toByte then _ else _) s = _
  rw [exec_ite, exec_ite, exec_ite]
  rfl

theorem serves_msg0 (hs : s.Valid) (hi : i.2.type = 0) :
    ∃ r s', (raNetworkSendReceive L k i).run s = .ret (r, s') ∧ Serves L k i s r s' := by
  have hrun : (raNetworkSendReceive L k i).run s = exec (spRaProcMsg0Req i.1 i.2.body) s := by
    rw [run_raNetworkSendReceive, if_pos hi]
  have hnone : ∀ b, servedMsg1s b [i] = [] := fun b => by simp [servedMsg1s, isMsg1, hi]
  rw [hrun, exec_msg0 hs]
  split_ifs with hlen hm
  · refine ⟨_, _, rfl, ?_, ?_, ?_, ?_, ?_, ?_⟩
    · exact ⟨(hs.register _).group_eq, (hs.register _).spid_eq⟩
    · simp [registers, hi, hlen, Sp.register_isSpRegistered]
    · simp [hnone, writes, Sp.register_db]
    · simp [hi, Except.isOk, Except.toBool]
    · intro _ resp
      simp [hlen, hm, eq_comm]
    · intro h
      simp [hi] at h
  · refine ⟨_, _, rfl, ?_, ?_, ?_, ?_, ?_, ?_⟩
    · exact hs.register _
    · simp [registers, hi, hlen, Sp.register_isSpRegistered]
    · simp [hnone, writes, Sp.register_db]
    · simp [hi, Except.isOk, Except.toBool, Sp.register_returnEcdsaAttKeyId]
    · intro _ resp
      simp [hm]
    · intro h
      simp [hi] at h
  · refine ⟨_, _, rfl, hs, ?_, ?_, ?_, ?_, ?_⟩
    · simp [registers, hi, hlen]
    · simp [hnone, writes]
    · simp [hi, Except.isOk, Except.toBool]
    · intro _ resp
      simp [hlen]
    · intro h
      simp [hi] at h

theorem serves_msg1 (hs : s.Valid) (hi : i.2.type = 1) :
    ∃ r s', (raNetworkSendReceive L k i).run s = .ret (r, s') ∧ Serves L k i s r s' := by
  have hrun : (raNetworkSendReceive L k i).run s = exec (spRaProcMsg1Req L k i.1 i.2.body) s := by
    rw [run_raNetworkSendReceive, if_neg (by rw [hi]; decide), if_pos hi]
  rw [hrun]
  by_cases h : i.2.body.length = 68 ∧ s.isSpRegistered
  · obtain ⟨r, db, hexec, hread, -, -, -⟩ := exec_msg1 (L := L) (k := k) (e := i.1) hs h.1 h.2
    refine ⟨r, _, hexec, ⟨hs.group_eq, hs.spid_eq⟩, ?_, ?_, ?_, ?_, ?_⟩
    · simp [registers, hi]
    · simpa [servedMsg1s, writes, isMsg1, hi, h, writeAll] using hread
    · simp [hi]
    · intro h
      simp [hi] at h
    · intro h
      simp [hi] at h
  · obtain ⟨c, -, hexec⟩ := exec_msg1_refused (L := L) (k := k) (e := i.1) h
    refine ⟨_, s, hexec, hs, ?_, ?_, ?_, ?_, ?_⟩
    · simp [registers, hi]
    · have hnone : servedMsg1s s.isSpRegistered [i] = [] := by
        rw [servedMsg1s, if_neg]
        · rfl
        · simpa [isMsg1, hi, and_comm] using h
      simp [hnone, writes]
    · simp [hi]
    · intro h
      simp [hi] at h
    · intro h
      simp [hi] at h

theorem serves_other (hs : s.Valid) (h₀ : i.2.type ≠ 0) (h₁ : i.2.type ≠ 1) (h₃ : i.2.type ≠ 3) :
    (raNetworkSendReceive L k i).run s = .ret (.error (-1), s) ∧
      Serves L k i s (.error (-1)) s := by
  refine ⟨?_, hs, ?_, ?_, ?_, fun h => absurd h h₀, fun h => absurd h h₃⟩
  · rw [run_raNetworkSendReceive, if_neg h₀, if_neg h₁, if_neg h₃]
  · simp [registers, h₀]
  · simp [servedMsg1s, writes, isMsg1, h₁]
  · simp [h₀]

/-- Every request is served, unless it makes the service provider read past its end. -/
theorem serves_or_overReads (hs : s.Valid) (i : Env × Request) :
    (i.2.type = 3 ∧ OverReads L i.1 s i.2.body ∧
      (raNetworkSendReceive L k i).run s = .undefined) ∨
    (¬(i.2.type = 3 ∧ OverReads L i.1 s i.2.body) ∧
      ∃ r s', (raNetworkSendReceive L k i).run s = .ret (r, s') ∧ Serves L k i s r s') := by
  by_cases h₃ : i.2.type = 3
  · have hrun : (raNetworkSendReceive L k i).run s = exec (spRaProcMsg3Req L i.1 i.2.body) s := by
      rw [run_raNetworkSendReceive, if_neg (by rw [h₃]; decide), if_neg (by rw [h₃]; decide),
        if_pos h₃]
    rcases exec_msg3 L i.1 hs i.2.body with
      ⟨hover, hexec⟩ | ⟨hno, r, ps, hexec, hok, -⟩
    · exact .inl ⟨h₃, hover, hrun.trans hexec⟩
    · refine .inr ⟨fun h => hno h.2, r, _, hrun.trans hexec, hs.withPsSecProp ps, ?_, ?_, ?_, ?_,
        fun _ => hok⟩
      · simp [registers, h₃, Sp.withPsSecProp]
      · have hnone : servedMsg1s s.isSpRegistered [i] = [] := by simp [servedMsg1s, isMsg1, h₃]
        rw [hnone]
        rfl
      · simp [h₃, Sp.withPsSecProp]
      · intro h
        simp [h₃] at h
  · refine .inr ⟨fun h => h₃ h.1, ?_⟩
    by_cases h₀ : i.2.type = 0
    · exact serves_msg0 hs h₀
    · by_cases h₁ : i.2.type = 1
      · exact serves_msg1 hs h₁
      · exact ⟨_, s, serves_other hs h₀ h₁ h₃⟩

/-- What a request that is served amounts to. -/
theorem serves_of_run (hs : s.Valid) {r : Except ℤ Response}
    (h : (raNetworkSendReceive L k i).run s = .ret (r, s')) : Serves L k i s r s' := by
  rcases serves_or_overReads (L := L) (k := k) hs i with ⟨-, -, hrun⟩ | ⟨-, r', t, hrun, hserves⟩
  · rw [hrun] at h
    cases h
  · obtain ⟨rfl, rfl⟩ := Outcome.pair_inj (hrun.symm.trans h)
    exact hserves

/-! ## Runs -/

/-- The session after a run from any valid state. -/
theorem db_of_run_from {is : List (Env × Request)} {os : List (Except ℤ Response)} (hs : s.Valid)
    (h : (runAll (raNetworkSendReceive L k) is).run s = .ret (os, s')) :
    s'.Valid ∧ s'.isSpRegistered = (s.isSpRegistered || is.any registers) ∧
      s'.db.read = writeAll k.rank (writes L k (servedMsg1s s.isSpRegistered is)) s.db.read := by
  induction is generalizing s os with
  | nil =>
      obtain ⟨-, rfl⟩ := Outcome.pair_inj h
      exact ⟨hs, by simp, rfl⟩
  | cons i is ih =>
      obtain ⟨o, t, os', hi, his, -⟩ := runAll_cons_eq_ret_iff.mp h
      have hserves := serves_of_run hs hi
      obtain ⟨hvalid, hreg, hread⟩ := ih hserves.valid his
      refine ⟨hvalid, ?_, ?_⟩
      · rw [hreg, hserves.registered, List.any_cons, Bool.or_assoc]
      · rw [hread, hserves.read, hserves.registered]
        simp only [servedMsg1s, writes, writeAll, List.append_nil, List.map_append,
          List.foldl_append]

/-- A field after a run is that of the last `msg1` that got as far as it. -/
theorem writeAll_read_eq_reached (L : Libcrypto) (k : Kdf) (is : List (Env × Request))
    (slot : Slot) :
    writeAll k.rank (writes L k (servedMsg1s false is)) SpDbItem.zero.read slot =
      (reached L k is slot).read slot := by
  have hlast : lastReaching k.rank slot (writes L k (servedMsg1s false is)) =
      (((servedMsg1s false is).filter fun m => k.rank slot < m.1.reach k).getLast?).map
        fun m => msg1Write L k m.1 m.2 := by
    rw [lastReaching, writes, List.filter_map, List.getLast?_map]
    rfl
  rw [writeAll_apply, hlast, reached]
  cases ((servedMsg1s false is).filter fun m => k.rank slot < m.1.reach k).getLast? <;> rfl

/-- The session after any run is the one that can be read off the requests. -/
theorem db_of_run {is : List (Env × Request)} {os : List (Except ℤ Response)}
    (h : (runAll (raNetworkSendReceive L k) is).run Sp.init = .ret (os, s)) :
    s.Valid ∧ s.isSpRegistered = is.any registers ∧
      s.db = { storedSession L k is with psSecProp := s.db.psSecProp } := by
  obtain ⟨hvalid, hreg, hread⟩ := db_of_run_from Sp.valid_init h
  refine ⟨hvalid, by rw [hreg]; rfl, SpDbItem.ext_read ?_ rfl⟩
  rw [hread]
  funext slot
  refine (writeAll_read_eq_reached L k is slot).trans ?_
  cases slot <;> rfl

/-! ## Memory -/

/-- A run gets through unless a message makes the service provider read past its end. -/
theorem exists_run_iff (L : Libcrypto) (k : Kdf) (is : List (Env × Request)) :
    (∃ os s, (runAll (raNetworkSendReceive L k) is).run Sp.init = .ret (os, s)) ↔
      Along (raNetworkSendReceive L k)
        (fun s i => ¬(i.2.type = 3 ∧ OverReads L i.1 s i.2.body)) Sp.init is := by
  refine exists_runAll_iff_along ?_ (fun s i o s' hs h => (serves_of_run hs h).valid)
    Sp.valid_init
  intro s i hs
  rcases serves_or_overReads (L := L) (k := k) hs i with
    ⟨hi, hover, hrun⟩ | ⟨hno, r, t, hrun, -⟩
  · refine ⟨fun h => absurd ⟨hi, hover⟩ h, ?_⟩
    rintro ⟨o, s', h⟩
    rw [hrun] at h
    cases h
  · exact ⟨fun _ => ⟨r, t, hrun⟩, fun _ => hno⟩

/-- No request makes the service provider follow a null pointer. -/
theorem not_stopped_of_mem_trace {is : List (Env × Request)} (hs : s.Valid)
    {o : Outcome (Except ℤ Response)} (ho : o ∈ trace (raNetworkSendReceive L k) s is) :
    o ≠ .crashed ∧ o ≠ .aborted := by
  induction is generalizing s with
  | nil => simp at ho
  | cons i is ih =>
      rcases serves_or_overReads (L := L) (k := k) hs i with
        ⟨-, -, hrun⟩ | ⟨-, r, t, hrun, hserves⟩
      · simp only [trace, hrun, List.mem_singleton] at ho
        simp [ho]
      · rw [trace_cons_ret hrun, List.mem_cons] at ho
        rcases ho with rfl | ho
        · simp
        · exact ih hserves.valid ho

/-- The service provider reads within the messages it is sent as long as no message passes
for one of its session and stops short of the report data; and it never follows a null
pointer. -/
theorem defined_run_iff (L : Libcrypto) (k : Kdf) (is : List (Env × Request)) :
    ((∃ os s, (runAll (raNetworkSendReceive L k) is).run Sp.init = .ret (os, s)) ↔
      Along (raNetworkSendReceive L k)
        (fun s i => ¬(i.2.type = RaMsgType.msg3.toByte ∧ OverReads L i.1 s i.2.body))
        Sp.init is) ∧
    ∀ o ∈ trace (raNetworkSendReceive L k) Sp.init is, o ≠ .crashed ∧ o ≠ .aborted :=
  ⟨exists_run_iff L k is, fun _ ho => not_stopped_of_mem_trace Sp.valid_init ho⟩

/-- A `msg1` is served only after a registration. -/
theorem any_registers_of_served {is : List (Env × Request)} {m : Env × EcPub} {r : Bool}
    (h : m ∈ servedMsg1s r is) : r || is.any registers := by
  induction is generalizing r with
  | nil => simp [servedMsg1s] at h
  | cons i is ih =>
      rw [servedMsg1s, List.mem_append] at h
      rcases h with h | h
      · cases r with
        | true => simp
        | false => simp at h
      · have hrest := ih h
        rw [Bool.or_assoc] at hrest
        rwa [List.any_cons]

theorem any_registers_of_concat {is : List (Env × Request)} {ms : List (Env × EcPub)}
    {m : Env × EcPub} (hms : servedMsg1s false is = ms ++ [m]) : is.any registers := by
  have hmem : m ∈ servedMsg1s false is := by
    rw [hms]
    exact List.mem_append_right _ (List.mem_singleton_self m)
  simpa using any_registers_of_served hmem

/-! ## Sessions of one `msg1`, and of two -/

/-- When the last `msg1` breaks off after one that got through, the session is of both of
them. -/
theorem read_storedSession_of_torn {is : List (Env × Request)} {ms : List (Env × EcPub)}
    {e e' : Env} {gA gA' : EcPub}
    (hms : servedMsg1s false is = ms ++ [(e, gA)] ++ [(e', gA')]) (he : e.reach k = k.stages) :
    (storedSession L k is).read =
      (msg1Write L k e' gA').apply k.rank (session L k e.priv gA).read := by
  have hwhole : (msg1Write L k e gA).Whole k.rank := whole_msg1Write_iff.mpr he
  have hwrites : writes L k (servedMsg1s false is) =
      (writes L k ms ++ [msg1Write L k e gA]) ++ [msg1Write L k e' gA'] := by
    rw [hms, writes, List.map_append, List.map_append]
    rfl
  have hread : (storedSession L k is).read =
      writeAll k.rank (writes L k (servedMsg1s false is)) SpDbItem.zero.read := by
    funext slot
    rw [writeAll_read_eq_reached]
    cases slot <;> rfl
  rw [hread, hwrites, writeAll_snoc, writeAll_eq_of_whole hwhole]
  rfl

/-- When the last `msg1` got through, the session is its own. -/
theorem storedSession_of_whole {is : List (Env × Request)} {ms : List (Env × EcPub)} {e : Env}
    {gA : EcPub} (hms : servedMsg1s false is = ms ++ [(e, gA)]) (he : e.reach k = k.stages) :
    storedSession L k is = session L k e.priv gA := by
  have hwhole : (msg1Write L k e gA).Whole k.rank := whole_msg1Write_iff.mpr he
  have hlast : ∀ slot, reached L k is slot = session L k e.priv gA := by
    intro slot
    have hrank : k.rank slot < e.reach k := hwhole slot
    rw [reached, hms, List.filter_append, List.filter_singleton]
    simp [hrank]
  simp only [storedSession, hlast]
  rfl

/-- When the last `msg1` breaks off before it has a key pair, the session of the one before
it goes on under the new public key. -/
theorem storedSession_of_broken_off {is : List (Env × Request)} {ms : List (Env × EcPub)}
    {e e' : Env} {gA gA' : EcPub}
    (hms : servedMsg1s false is = ms ++ [(e, gA)] ++ [(e', gA')]) (he : e.reach k = k.stages)
    (he' : (e'.ok .openContext && e'.ok .createKeyPair) = false) :
    storedSession L k is = { session L k e.priv gA with gA := gA' } := by
  have hreach : e'.reach k = 1 := by cases k <;> simp [Env.reach, Env.gates, he']
  refine SpDbItem.ext_read ?_ rfl
  rw [read_storedSession_of_torn hms he]
  funext slot
  simp only [StagedWrite.apply, msg1Write, hreach]
  cases k <;> cases slot <;> rfl

/-! ## A sample run -/

/-- Nothing fails. -/
def Env.fine (priv : EcPriv) : Env := ⟨fun _ => true, none, priv, numBytes 5⟩

def sampleMsg0 : Request := ⟨RaMsgType.msg0.toByte, [0, 0, 0, 0], by decide⟩

def sampleMsg1 (gA : EcPub) : Request where
  type := RaMsgType.msg1.toByte
  body := Msg1.layout.put ⟨gA, Vector.replicate 4 0⟩
  size_lt := by
    rw [Layout.length_put]
    decide

/-- The service provider is registered, and then starts one session after the other. -/
def sampleRun (ms : List (Env × EcPub)) : List (Env × Request) :=
  (.fine (numBytes 3), sampleMsg0) :: ms.map fun m => (m.1, sampleMsg1 m.2)

theorem servedMsg1s_sampleRun (ms : List (Env × EcPub)) :
    servedMsg1s false (sampleRun ms) = ms := by
  have hserved : servedMsg1s true (ms.map fun m => (m.1, sampleMsg1 m.2)) = ms := by
    induction ms with
    | nil => rfl
    | cons m ms ih =>
        have hmsg1 : isMsg1 (m.1, sampleMsg1 m.2) := by
          simp [isMsg1, sampleMsg1, RaMsgType.toByte]
        have hget : (Msg1.layout.get (sampleMsg1 m.2).body).gA = m.2 := by
          rw [sampleMsg1, Layout.get_put]
        simp [servedMsg1s, hmsg1, hget, ih]
  exact hserved

theorem exists_run_sampleRun (L : Libcrypto) (k : Kdf) (ms : List (Env × EcPub)) :
    ∃ os s, (runAll (raNetworkSendReceive L k) (sampleRun ms)).run Sp.init = .ret (os, s) := by
  have h₀ : (0 : Byte) ≠ 3 := by decide
  have h₁ : (1 : Byte) ≠ 3 := by decide
  have hrest : ∀ s, Along (raNetworkSendReceive L k)
      (fun s i => ¬(i.2.type = 3 ∧ OverReads L i.1 s i.2.body)) s
      (ms.map fun m => (m.1, sampleMsg1 m.2)) := by
    induction ms with
    | nil => exact fun _ => trivial
    | cons m ms ih => exact fun s => ⟨fun h => h₁ h.1, fun _ s' _ => ih s'⟩
  exact (exists_run_iff L k _).mpr ⟨fun h => h₀ h.1, fun _ s _ => hrest s⟩

/-! ## The messages that are accepted -/

/-- The `msg3` that a holder of the session's keys builds around a quote.  Of the quote,
`before` is what precedes the report data and `tail` is what follows it. -/
def msg3Bytes (L : Libcrypto) (db : SpDbItem) (psSecProp : Vector Byte 256)
    (before : Vector Byte 368) (tail : List Byte) : List Byte :=
  let rest := Msg3Head.layout.put ⟨db.gA, psSecProp⟩ ++
    (Quote.layout.put ⟨before, expectedReportData L db⟩ ++ tail)
  Msg3.layout.put ⟨L.cmac db.smkKey rest, ⟨db.gA, psSecProp⟩⟩ ++
    (Quote.layout.put ⟨before, expectedReportData L db⟩ ++ tail)

/-- Behind its MAC a `msg3` is what the MAC is taken over. -/
theorem drop_mac (m : Msg3) (quote : List Byte) :
    (Msg3.layout.put m ++ quote).drop 16 = Msg3Head.layout.put m.head ++ quote := by
  rw [Msg3.put_eq, List.append_assoc]
  exact (Layout.array 16).drop_put_append m.mac _

/-- The messages that are authentic, long enough and committed to the session are the ones
that a holder of its keys builds. -/
theorem accepted_iff_exists_msg3Bytes (L : Libcrypto) (s : Sp) (body : List Byte) :
    (Authentic L s body ∧ 768 ≤ body.length ∧ Committed L s.db body) ↔
      s.isSpRegistered ∧ ∃ ps before tail, body = msg3Bytes L s.db ps before tail := by
  constructor
  · rintro ⟨hauth, hlen, hcommitted⟩
    have hfixed : Msg3.layout.put (Msg3.layout.get body) ++ body.drop 336 = body :=
      Msg3.layout.put_get_append_drop hauth.size_le
    have hquote : Quote.layout.put (Quote.layout.get (body.drop 336)) ++
        (body.drop 336).drop 432 = body.drop 336 := by
      apply Quote.layout.put_get_append_drop
      rw [List.length_drop, Quote.size_layout]
      omega
    have hmac := hauth.mac_eq
    rw [← hfixed, drop_mac, hfixed] at hmac
    refine ⟨hauth.registered, (Msg3.layout.get body).head.psSecProp,
      (Quote.layout.get (body.drop 336)).before, (body.drop 336).drop 432, ?_⟩
    have hhead : (⟨s.db.gA, (Msg3.layout.get body).head.psSecProp⟩ : Msg3Head) =
        (Msg3.layout.get body).head := by
      rw [hauth.gA_eq]
    have hq : (⟨(Quote.layout.get (body.drop 336)).before, expectedReportData L s.db⟩ : Quote) =
        Quote.layout.get (body.drop 336) := by
      rw [hcommitted]
    rw [msg3Bytes, hhead, hq, hquote, ← hmac]
    exact hfixed.symm
  · rintro ⟨hreg, ps, before, tail, rfl⟩
    have hget : Msg3.layout.get (msg3Bytes L s.db ps before tail) =
        ⟨L.cmac s.db.smkKey _, ⟨s.db.gA, ps⟩⟩ := Msg3.layout.get_put_append _ _
    have hdrop : (msg3Bytes L s.db ps before tail).drop 336 =
        Quote.layout.put ⟨before, expectedReportData L s.db⟩ ++ tail :=
      Msg3.layout.drop_put_append _ _
    have hlen : 768 ≤ (msg3Bytes L s.db ps before tail).length := by
      simp only [msg3Bytes, List.length_append, Layout.length_put, Msg3.size_layout,
        Quote.size_layout]
      omega
    refine ⟨⟨hreg, by omega, by rw [hget], ?_⟩, hlen, ?_⟩
    · have hrest : (msg3Bytes L s.db ps before tail).drop 16 =
          Msg3Head.layout.put ⟨s.db.gA, ps⟩ ++ _ := drop_mac _ _
      rw [hget, hrest]
    · rw [Committed, hdrop, Quote.layout.get_put_append]

/-- The calls that serving `msg3` makes. -/
def Env.servesMsg3 (e : Env) : Bool :=
  e.ok .msg3Cmac && e.hashesQuote && e.verifies && e.assemblesAttResult

/-- A `msg3` is answered with the secret exactly if it has been built with the keys of the
session that is stored. -/
theorem answered_iff_of_run {is : List (Env × Request)} {os : List (Except ℤ Response)}
    (h : (runAll (raNetworkSendReceive L k) is).run Sp.init = .ret (os, s)) {i : Env × Request}
    (hi : i.2.type = 3) (resp : Response) :
    (∃ s', (raNetworkSendReceive L k i).run s = .ret (.ok resp, s')) ↔
      is.any registers ∧ i.1.servesMsg3 ∧
        (∃ ps before tail, i.2.body = msg3Bytes L (storedSession L k is) ps before tail) ∧
        resp = attResultResponse L i.1 (storedSession L k is) := by
  obtain ⟨hs, hreg, hdb⟩ := db_of_run h
  have hanswer : attResultResponse L i.1 s.db = attResultResponse L i.1 (storedSession L k is) := by
    rw [hdb]
    rfl
  have hbytes : msg3Bytes L s.db = msg3Bytes L (storedSession L k is) := by
    rw [hdb]
    rfl
  have haccepted := accepted_iff_exists_msg3Bytes L s i.2.body
  rw [hbytes, hreg] at haccepted
  simp only [Env.servesMsg3, Bool.and_eq_true]
  rcases serves_or_overReads (L := L) (k := k) hs i with
    ⟨-, hover, hrun⟩ | ⟨hno, r, t, hrun, hserves⟩
  · have hshort := hover.size_lt
    constructor
    · rintro ⟨s', hs'⟩
      rw [hrun] at hs'
      cases hs'
    · rintro ⟨hr, -, hex, -⟩
      have hlen := (haccepted.mpr ⟨hr, hex⟩).2.1
      omega
  · rw [hrun]
    have hmsg3 := hserves.msg3 hi resp
    constructor
    · rintro ⟨s', hs'⟩
      obtain ⟨rfl, -⟩ := Outcome.pair_inj hs'
      obtain ⟨hacc, hresp⟩ := hmsg3.mp rfl
      have hlen : 768 ≤ i.2.body.length := by
        by_contra hlen
        exact hno ⟨hi, hacc.authentic, hacc.cmac, hacc.hashes, by omega⟩
      obtain ⟨hr, hex⟩ := haccepted.mp ⟨hacc.authentic, hlen, hacc.committed⟩
      exact ⟨hr, ⟨⟨⟨hacc.cmac, hacc.hashes⟩, hacc.verifies⟩, hacc.assembles⟩, hex,
        hresp.trans hanswer⟩
    · rintro ⟨hr, ⟨⟨⟨hc, hh⟩, hv⟩, ha⟩, hex, hresp⟩
      obtain ⟨hauth, -, hcommitted⟩ := haccepted.mpr ⟨hr, hex⟩
      exact ⟨t, by rw [hmsg3.mpr ⟨⟨hauth, hcommitted, hc, hh, hv, ha⟩, hresp.trans hanswer.symm⟩]⟩

/-- When the secret is released, and what it is sealed with: after any run, exactly the
messages built with the keys of the stored session are answered with it, and the stored
session is that of the last `msg1` if this got through. -/
theorem att_result_iff_of_run {is : List (Env × Request)} {os : List (Except ℤ Response)}
    (h : (runAll (raNetworkSendReceive L k) is).run Sp.init = .ret (os, s)) {i : Env × Request}
    (hi : i.2.type = RaMsgType.msg3.toByte) (resp : Response) :
    ((∃ s', (raNetworkSendReceive L k i).run s = .ret (.ok resp, s')) ↔
      is.any registers ∧ i.1.servesMsg3 ∧
        (∃ ps before tail, i.2.body = msg3Bytes L (storedSession L k is) ps before tail) ∧
        resp = attResultResponse L i.1 (storedSession L k is)) ∧
    ∀ ms e gA, servedMsg1s false is = ms ++ [(e, gA)] → e.reach k = k.stages →
      storedSession L k is = session L k e.priv gA :=
  ⟨answered_iff_of_run h hi resp, fun _ _ _ hms he => storedSession_of_whole hms he⟩

/-- A `msg3` with the keys of a session. -/
def sampleMsg3 (L : Libcrypto) (db : SpDbItem) : Request where
  type := RaMsgType.msg3.toByte
  body := msg3Bytes L db (Vector.replicate 256 0) (Vector.replicate 368 0) []
  size_lt := by
    simp only [msg3Bytes, List.append_nil, List.length_append, Layout.length_put,
      Msg3.size_layout, Quote.size_layout]
    decide

theorem att_result_of_sampleRun : ∃ os s s',
    (runAll (raNetworkSendReceive reference .standard)
      (sampleRun [(.fine (numBytes 3), p256PublicOf (numBytes 2))])).run Sp.init = .ret (os, s) ∧
    (raNetworkSendReceive reference .standard (.fine (numBytes 3), sampleMsg3 reference
      (session reference .standard (numBytes 3) (p256PublicOf (numBytes 2))))).run s =
        .ret (.ok (attResultResponse reference (.fine (numBytes 3))
          (session reference .standard (numBytes 3) (p256PublicOf (numBytes 2)))), s') := by
  obtain ⟨os, s, h⟩ := exists_run_sampleRun reference .standard
    [(.fine (numBytes 3), p256PublicOf (numBytes 2))]
  obtain ⟨hiff, hstored⟩ := att_result_iff_of_run h
    (i := (.fine (numBytes 3), sampleMsg3 reference
      (session reference .standard (numBytes 3) (p256PublicOf (numBytes 2))))) rfl
    (attResultResponse reference (.fine (numBytes 3))
      (session reference .standard (numBytes 3) (p256PublicOf (numBytes 2))))
  have hsession := hstored [] _ _ (servedMsg1s_sampleRun _) rfl
  obtain ⟨s', hs'⟩ := hiff.mpr ⟨rfl, rfl, ⟨_, _, _, by rw [hsession]; rfl⟩,
    by rw [hsession]; rfl⟩
  exact ⟨os, s, s', h, hs'⟩

/-- After a `msg1` that breaks off before it has a key pair, the secret is released to
whoever holds the keys of the session before it, sealed for them, under the public key of
the `msg1` that broke off. -/
theorem att_result_iff_of_broken_off {is : List (Env × Request)} {os : List (Except ℤ Response)}
    (h : (runAll (raNetworkSendReceive L k) is).run Sp.init = .ret (os, s))
    {ms : List (Env × EcPub)} {e e' : Env} {gA gA' : EcPub}
    (hms : servedMsg1s false is = ms ++ [(e, gA)] ++ [(e', gA')]) (he : e.reach k = k.stages)
    (he' : (e'.ok .openContext && e'.ok .createKeyPair) = false) {i : Env × Request}
    (hi : i.2.type = RaMsgType.msg3.toByte) (resp : Response) :
    (∃ s', (raNetworkSendReceive L k i).run s = .ret (.ok resp, s')) ↔
      i.1.servesMsg3 ∧
        (∃ ps before tail,
          i.2.body = msg3Bytes L { session L k e.priv gA with gA := gA' } ps before tail) ∧
        resp = attResultResponse L i.1 (session L k e.priv gA) := by
  have hreg : (is.any registers : Prop) := any_registers_of_concat hms
  rw [answered_iff_of_run h hi, storedSession_of_broken_off hms he he']
  simp only [hreg, true_and]
  rfl

/-- The key pair cannot be made. -/
def Env.noContext : Env :=
  { Env.fine (numBytes 3) with ok := fun | .openContext => false | _ => true }

theorem att_result_of_broken_off_sampleRun : ∃ os s s',
    (runAll (raNetworkSendReceive reference .supplied)
      (sampleRun [(.fine (numBytes 3), p256PublicOf (numBytes 2)),
        (.noContext, p256PublicOf (numBytes 4))])).run Sp.init = .ret (os, s) ∧
    (raNetworkSendReceive reference .supplied (.fine (numBytes 3), sampleMsg3 reference
      { session reference .supplied (numBytes 3) (p256PublicOf (numBytes 2)) with
        gA := p256PublicOf (numBytes 4) })).run s =
        .ret (.ok (attResultResponse reference (.fine (numBytes 3))
          (session reference .supplied (numBytes 3) (p256PublicOf (numBytes 2)))), s') := by
  obtain ⟨os, s, h⟩ := exists_run_sampleRun reference .supplied
    [(.fine (numBytes 3), p256PublicOf (numBytes 2)), (.noContext, p256PublicOf (numBytes 4))]
  have hms : servedMsg1s false (sampleRun [(.fine (numBytes 3), p256PublicOf (numBytes 2)),
      (.noContext, p256PublicOf (numBytes 4))]) =
        [] ++ [(.fine (numBytes 3), p256PublicOf (numBytes 2))] ++
          [(.noContext, p256PublicOf (numBytes 4))] := servedMsg1s_sampleRun _
  have hiff := att_result_iff_of_broken_off h hms rfl rfl
    (i := (.fine (numBytes 3), sampleMsg3 reference
      { session reference .supplied (numBytes 3) (p256PublicOf (numBytes 2)) with
        gA := p256PublicOf (numBytes 4) })) rfl
    (attResultResponse reference (.fine (numBytes 3))
      (session reference .supplied (numBytes 3) (p256PublicOf (numBytes 2))))
  obtain ⟨s', hs'⟩ := hiff.mpr ⟨rfl, ⟨_, _, _, rfl⟩, rfl⟩
  exact ⟨os, s, s', h, hs'⟩

/-! ## The attestation keys that are asked for -/

/-- The answers to `msg0` among the answers of a run. -/
def msg0Answers (is : List (Env × Request)) (os : List (Except ℤ Response)) : List Response :=
  (is.zip os).filterMap fun p => if p.1.2.type = RaMsgType.msg0.toByte then p.2.toOption else none

theorem msg0Answers_cons_of_ok {is : List (Env × Request)} {os : List (Except ℤ Response)}
    {resp : Response} (hi : i.2.type = 0) :
    msg0Answers (i :: is) (.ok resp :: os) = resp :: msg0Answers is os := by
  rw [msg0Answers, List.zip_cons_cons, List.filterMap_cons_some]
  · rfl
  · exact if_pos hi

theorem msg0Answers_cons_of_not {is : List (Env × Request)} {o : Except ℤ Response}
    {os : List (Except ℤ Response)} (h : ¬(i.2.type = 0 ∧ ∃ resp, o = .ok resp)) :
    msg0Answers (i :: is) (o :: os) = msg0Answers is os := by
  rw [msg0Answers, List.zip_cons_cons, List.filterMap_cons_none]
  · rfl
  · by_cases hi : i.2.type = 0
    · cases o with
      | error c => exact if_pos hi
      | ok resp => exact absurd ⟨hi, resp, rfl⟩ h
    · exact if_neg hi

/-- The answers to `msg0` from a state on. -/
theorem msg0Answers_eq {is : List (Env × Request)} {os : List (Except ℤ Response)} (hs : s.Valid)
    (h : (runAll (raNetworkSendReceive L k) is).run s = .ret (os, s')) :
    msg0Answers is os = [] ∨
      ∃ n, msg0Answers is os = msg0Response s.returnEcdsaAttKeyId ::
        List.replicate n (msg0Response false) := by
  induction is generalizing s os with
  | nil =>
      obtain ⟨rfl, -⟩ := Outcome.pair_inj h
      exact .inl rfl
  | cons i is ih =>
      obtain ⟨o, t, os', hi, his, rfl⟩ := runAll_cons_eq_ret_iff.mp h
      have hserves := serves_of_run hs hi
      have hrest := ih hserves.valid his
      rw [hserves.listed] at hrest
      by_cases hok : i.2.type = 0 ∧ ∃ resp, o = .ok resp
      · obtain ⟨hi₀, resp, rfl⟩ := hok
        obtain ⟨-, -, rfl⟩ := (hserves.msg0 hi₀ resp).mp rfl
        rw [msg0Answers_cons_of_ok hi₀]
        -- this answer clears the flag, so all that follow are of the other kind
        have hflag : (s.returnEcdsaAttKeyId && !(i.2.type == 0 &&
            (Except.ok (ε := ℤ) (msg0Response s.returnEcdsaAttKeyId)).isOk)) = false := by
          simp [hi₀, Except.isOk, Except.toBool]
        rw [hflag] at hrest
        rcases hrest with hnil | ⟨n, hn⟩
        · exact .inr ⟨0, by rw [hnil]; rfl⟩
        · exact .inr ⟨n + 1, by rw [hn, List.replicate_succ]⟩
      · rw [msg0Answers_cons_of_not hok]
        have hflag : (s.returnEcdsaAttKeyId && !(i.2.type == 0 && o.isOk)) =
            s.returnEcdsaAttKeyId := by
          cases o with
          | error c => simp [Except.isOk, Except.toBool]
          | ok resp =>
              have hi₀ : i.2.type ≠ 0 := fun h => hok ⟨h, resp, rfl⟩
              simp [hi₀]
        rwa [hflag] at hrest

/-- Whatever group it is asked about, the service provider answers a `msg0` of the right size
if there is memory for the answer.  The first answer of a run asks for the ECDSA key, and all
others for the EPID key. -/
theorem msg0_answers_of_run {is : List (Env × Request)} {os : List (Except ℤ Response)}
    (h : (runAll (raNetworkSendReceive L k) is).run Sp.init = .ret (os, s)) :
    (msg0Answers is os = [] ∨
      ∃ n, msg0Answers is os = msg0Response true :: List.replicate n (msg0Response false)) ∧
    ∀ p ∈ is.zip os, p.1.2.type = RaMsgType.msg0.toByte →
      ((∃ resp, p.2 = .ok resp) ↔ p.1.2.body.length = 4 ∧ p.1.1.ok .msg0Malloc) := by
  refine ⟨msg0Answers_eq Sp.valid_init h, ?_⟩
  have hall : ∀ {is : List (Env × Request)} {s t : Sp} {os : List (Except ℤ Response)},
      s.Valid → (runAll (raNetworkSendReceive L k) is).run s = .ret (os, t) →
      ∀ p ∈ is.zip os, p.1.2.type = RaMsgType.msg0.toByte →
        ((∃ resp, p.2 = .ok resp) ↔ p.1.2.body.length = 4 ∧ p.1.1.ok .msg0Malloc) := by
    intro is
    induction is with
    | nil => simp
    | cons i is ih =>
        intro s t os hs hrun p hp htype
        obtain ⟨o, u, os', hi, his, rfl⟩ := runAll_cons_eq_ret_iff.mp hrun
        have hserves := serves_of_run hs hi
        rw [List.zip_cons_cons, List.mem_cons] at hp
        rcases hp with rfl | hp
        · have hmsg0 := hserves.msg0 htype
          constructor
          · rintro ⟨resp, hresp⟩
            obtain ⟨hlen, hm, -⟩ := (hmsg0 resp).mp hresp
            exact ⟨hlen, hm⟩
          · rintro ⟨hlen, hm⟩
            exact ⟨_, (hmsg0 _).mpr ⟨hlen, hm, rfl⟩⟩
        · exact ih hserves.valid his p hp htype
  exact hall Sp.valid_init h

/-- There is no memory for the answer to `msg0`. -/
def Env.noMemory : Env :=
  { Env.fine (numBytes 3) with ok := fun | .msg0Malloc => false | _ => true }

/-- A `msg0` for the given group. -/
def msg0Of (extendedEpidGroupId : UInt32) : Request where
  type := RaMsgType.msg0.toByte
  body := Layout.uint32.put extendedEpidGroupId
  size_lt := by
    rw [Layout.length_put]
    decide

theorem length_body_msg0Of (extendedEpidGroupId : UInt32) :
    (msg0Of extendedEpidGroupId).body.length = 4 :=
  Layout.uint32.length_put extendedEpidGroupId

/-- Three callers: the first asks about another group, for the second there is no memory. -/
def sampleMsg0s : List (Env × Request) :=
  [(.fine (numBytes 3), msg0Of 7), (.noMemory, msg0Of 0), (.fine (numBytes 3), msg0Of 0)]

theorem msg0_answers_of_sampleRun : ∃ os s,
    (runAll (raNetworkSendReceive reference .standard) sampleMsg0s).run Sp.init = .ret (os, s) ∧
    msg0Answers sampleMsg0s os = [msg0Response true, msg0Response false] := by
  have hrun : ∃ os s,
      (runAll (raNetworkSendReceive reference .standard) sampleMsg0s).run Sp.init =
        .ret (os, s) := by
    have h₀ : (0 : Byte) ≠ 3 := by decide
    exact (exists_run_iff reference .standard _).mpr
      ⟨fun h => h₀ h.1, fun _ _ _ => ⟨fun h => h₀ h.1, fun _ _ _ =>
        ⟨fun h => h₀ h.1, fun _ _ _ => trivial⟩⟩⟩
  obtain ⟨os, s, h⟩ := hrun
  obtain ⟨hanswers, hserved⟩ := msg0_answers_of_run h
  refine ⟨os, s, h, ?_⟩
  obtain ⟨o₁, _, _, -, h₁, rfl⟩ := runAll_cons_eq_ret_iff.mp h
  obtain ⟨o₂, _, _, -, h₂, rfl⟩ := runAll_cons_eq_ret_iff.mp h₁
  obtain ⟨o₃, _, _, -, h₃, rfl⟩ := runAll_cons_eq_ret_iff.mp h₂
  obtain ⟨rfl, -⟩ := Outcome.pair_inj h₃
  obtain ⟨resp₁, rfl⟩ := (hserved ((.fine (numBytes 3), msg0Of 7), o₁) (by simp [sampleMsg0s])
    rfl).mpr ⟨length_body_msg0Of _, rfl⟩
  obtain ⟨resp₃, rfl⟩ := (hserved ((.fine (numBytes 3), msg0Of 0), o₃) (by simp [sampleMsg0s])
    rfl).mpr ⟨length_body_msg0Of _, rfl⟩
  have hnone : ¬∃ resp, o₂ = .ok resp := by
    intro hresp
    have hmem := (hserved ((.noMemory, msg0Of 0), o₂) (by simp [sampleMsg0s]) rfl).mp hresp
    exact Bool.false_ne_true hmem.2
  have heq : msg0Answers sampleMsg0s [.ok resp₁, o₂, .ok resp₃] = [resp₁, resp₃] := by
    rw [sampleMsg0s, msg0Answers_cons_of_ok rfl, msg0Answers_cons_of_not fun h => hnone h.2,
      msg0Answers_cons_of_ok rfl]
    rfl
  rw [heq] at hanswers ⊢
  rcases hanswers with hnil | ⟨n, hn⟩
  · simp at hnil
  · obtain ⟨rfl, hrest⟩ := List.cons.inj hn
    match n with
    | 1 => rw [hrest]; rfl
    | 0 => simp at hrest
    | n + 2 => simp [List.replicate_succ] at hrest

end SgxErlang.Attestation
