import Mathlib.Data.List.DropRight
import SgxErlang.Rsa.Counter
import SgxErlang.Rsa.Lifecycle
import SgxErlang.Rsa.Sizes

/-!
# What a code reload does to the state of the library

Without SGX the state of the library is its static data, which all instances of the module
share: an upgrade leaves it as it is.  With SGX the state is in an enclave, and every upgrade
that succeeds creates another one.  From then on all calls go there, also those of the old
instance.  So what a caller sees after a reload is a library that has just been loaded, and
the enclave that was replaced is never seen again.

## Main definitions

* `callsSince` — the calls since the last event of a kind.
* `NoSgx.onEvent` — the life cycle of the build without SGX.

## Main results

* `answers_of_run` — every call is answered as if the calls before the last enclave had not
  been made.
* `rtrn_alike_iff` — when the counters of the two builds agree after a reload.
* `replaced_of_run` — what becomes of an enclave that an upgrade has replaced.
-/

namespace SgxErlang.Rsa

variable {o : OpenSSL}

/-! ## The build without SGX -/

namespace NoSgx

/-- `load` of `App_no-sgx/App.c`. -/
def load : Exec Enclave ℤ := pure 0

/-- `upgrade` of `App_no-sgx/App.c`. -/
def upgrade : Exec Enclave ℤ := load

/-- `unload` of `App_no-sgx/App.c`. -/
def unload : Exec Enclave Unit := pure ()

/-- One event.  The module is loaded together with the library, whose static data is
initialised then. -/
def onEvent : Event o → Exec Enclave (Option Term)
  | .load _ => do
      set Enclave.init
      let _ ← load
      pure none
  | .upgrade _ => do
      let _ ← upgrade
      pure none
  | .unload _ => do
      unload
      pure none
  | .call _ x => do
      let t ← nif o .noSgx x
      pure (some t)

end NoSgx

/-! ## The calls since an event -/

namespace Event

/-- The call of the event, if it is one. -/
def call? : Event o → Option (NifCall o × Memory)
  | .call _ x => some x
  | _ => none

/-- The callback creates an enclave. -/
def creates : Event o → Bool
  | .load (some _) => true
  | .upgrade (some _) => true
  | _ => false

/-- The module is loaded. -/
def isLoad : Event o → Bool
  | .load _ => true
  | _ => false

end Event

/-- The calls since the last event of a kind. -/
def callsSince (p : Event o → Bool) (events : List (Event o)) : List (NifCall o × Memory) :=
  (events.rtakeWhile fun e => !p e).filterMap Event.call?

section callsSince

variable {p : Event o → Bool} {e : Event o} {events : List (Event o)}

@[simp] theorem callsSince_nil (p : Event o → Bool) : callsSince p [] = [] := rfl

/-- An event of the kind starts anew. -/
theorem callsSince_concat_of_pos (he : p e) : callsSince p (events ++ [e]) = [] := by
  rw [callsSince, List.rtakeWhile_concat_neg _ _ _ (by simpa using he)]
  rfl

/-- Another one adds its call. -/
theorem callsSince_concat_of_neg (he : p e = false) :
    callsSince p (events ++ [e]) = callsSince p events ++ e.call?.toList := by
  rw [callsSince, List.rtakeWhile_concat_pos _ _ _ (by simpa using he), List.filterMap_append]
  cases hcall : e.call? <;> simp [callsSince, hcall]

end callsSince

/-! ## The enclave that the calls go to -/

variable {s s' : Vm}

/-- The current enclave is one that has seen the calls since it was created, and nothing
else. -/
theorem current_of_run {events : List (Event o)} {outs : List (Option Term)}
    (hrun : (runAll onEvent events).run .init = .ret (outs, s')) {m : Enclave}
    (hm : s'.enclaves s'.globalEid = some m) : ∃ ts,
      (runAll (nif o .sgx) (callsSince Event.creates events)).run .init = .ret (ts, m) := by
  induction events using List.reverseRecOn generalizing outs s' m with
  | nil =>
      obtain ⟨-, rfl⟩ := Outcome.pair_inj hrun
      simp [Vm.init] at hm
  | append_singleton events e ih =>
      obtain ⟨outs', s, t, hevents, he, -⟩ := runAll_append_singleton_eq_ret_iff.mp hrun
      have hfresh : ∀ eid, s' = s.created eid → e.creates = true →
          ∃ ts, (runAll (nif o .sgx) (callsSince Event.creates (events ++ [e]))).run .init =
            .ret (ts, m) := by
        intro eid hs he
        rw [callsSince_concat_of_pos he]
        rw [hs] at hm
        have hinit : m = .init := by simpa [Vm.created] using hm.symm
        exact ⟨[], by rw [hinit]; rfl⟩
      cases e with
      | load created =>
          obtain ⟨-, rfl⟩ := Outcome.pair_inj ((run_load created s).symm.trans he)
          cases created with
          | none =>
              rw [callsSince_concat_of_neg rfl]
              simpa [Event.call?] using ih hevents hm
          | some eid => exact hfresh eid rfl rfl
      | upgrade created =>
          obtain ⟨-, rfl⟩ := Outcome.pair_inj ((run_upgrade created s).symm.trans he)
          cases created with
          | none =>
              rw [callsSince_concat_of_neg rfl]
              simpa [Event.call?] using ih hevents hm
          | some eid => exact hfresh eid rfl rfl
      | unload inst =>
          obtain ⟨-, rfl⟩ := Outcome.pair_inj ((run_unload inst s).symm.trans he)
          simp [Vm.afterUnload] at hm
      | call inst x =>
          obtain ⟨m₀, m', u, hm₀, hnif, -, rfl⟩ := nif_of_call he
          obtain rfl : m' = m := by simpa using hm
          obtain ⟨ts, hts⟩ := ih hevents hm₀
          rw [callsSince_concat_of_neg rfl]
          exact ⟨ts ++ [u], runAll_append_singleton_ret hts hnif⟩

/-- The static data of the build without SGX has seen the calls since the module was
loaded. -/
theorem static_of_run {events : List (Event o)} {outs : List (Option Term)} {m : Enclave}
    (hrun : (runAll NoSgx.onEvent events).run .init = .ret (outs, m)) : ∃ ts,
      (runAll (nif o .noSgx) (callsSince Event.isLoad events)).run .init = .ret (ts, m) := by
  induction events using List.reverseRecOn generalizing outs m with
  | nil =>
      obtain ⟨-, rfl⟩ := Outcome.pair_inj hrun
      exact ⟨[], rfl⟩
  | append_singleton events e ih =>
      obtain ⟨outs', m₀, t, hevents, he, -⟩ := runAll_append_singleton_eq_ret_iff.mp hrun
      cases e with
      | load created =>
          obtain ⟨-, rfl⟩ := Outcome.pair_inj he
          rw [callsSince_concat_of_pos rfl]
          exact ⟨[], rfl⟩
      | upgrade created =>
          obtain ⟨-, rfl⟩ := Outcome.pair_inj he
          rw [callsSince_concat_of_neg rfl]
          simpa [Event.call?] using ih hevents
      | unload inst =>
          obtain ⟨-, rfl⟩ := Outcome.pair_inj he
          rw [callsSince_concat_of_neg rfl]
          simpa [Event.call?] using ih hevents
      | call inst x =>
          obtain ⟨ts, hts⟩ := ih hevents
          rw [callsSince_concat_of_neg rfl]
          simp only [NoSgx.onEvent, StateT.run_bind, Outcome.bind_eq_ret_iff] at he
          obtain ⟨⟨u, m'⟩, hnif, hret⟩ := he
          obtain ⟨-, rfl⟩ := Outcome.pair_inj hret
          exact ⟨ts ++ [u], runAll_append_singleton_ret hts hnif⟩

/-- With SGX a call is answered as in a library that has seen the calls since the last
enclave was created, whichever instances they came from; without it, as in one that has seen
the calls since the module was loaded. -/
theorem answers_of_run {events : List (Event o)} {inst : ℕ} {x : NifCall o × Memory} {t : Term} :
    (∀ outs s', (runAll onEvent (events ++ [.call inst x])).run .init =
        .ret (outs ++ [some t], s') →
      ∃ ts m, s'.enclaves s'.globalEid = some m ∧
        (runAll (nif o .sgx) (callsSince Event.creates events ++ [x])).run .init =
          .ret (ts ++ [t], m)) ∧
    ∀ outs m, (runAll NoSgx.onEvent (events ++ [.call inst x])).run .init =
        .ret (outs ++ [some t], m) →
      ∃ ts, (runAll (nif o .noSgx) (callsSince Event.isLoad events ++ [x])).run .init =
        .ret (ts ++ [t], m) := by
  constructor
  · intro outs s' hrun
    obtain ⟨outs', s, u, hevents, hcall, houts⟩ := runAll_append_singleton_eq_ret_iff.mp hrun
    obtain ⟨-, hu⟩ := List.append_inj' houts rfl
    obtain ⟨m₀, m', t', hm₀, hnif, ht', rfl⟩ := nif_of_call hcall
    obtain rfl : t = t' := by simpa [ht'] using hu
    obtain ⟨ts, hts⟩ := current_of_run hevents hm₀
    exact ⟨ts, m', by simp, runAll_append_singleton_ret hts hnif⟩
  · intro outs m hrun
    obtain ⟨outs', m₀, u, hevents, hcall, houts⟩ := runAll_append_singleton_eq_ret_iff.mp hrun
    obtain ⟨-, hu⟩ := List.append_inj' houts rfl
    simp only [NoSgx.onEvent, StateT.run_bind, Outcome.bind_eq_ret_iff] at hcall
    obtain ⟨⟨t', m'⟩, hnif, hret⟩ := hcall
    obtain ⟨ht', rfl⟩ := Outcome.pair_inj hret
    obtain rfl : t = t' := by simpa [← ht'] using hu
    obtain ⟨ts, hts⟩ := static_of_run hevents
    exact ⟨ts, runAll_append_singleton_ret hts hnif⟩

/-- A life cycle with an upgrade that succeeds, and a call of either instance after it. -/
def reloaded : List (Event reference) :=
  [.load (some 1), .call 1 (.increment, ⟨fun _ => 0, fun _ => 0⟩), .upgrade (some 2),
    .call 1 (.increment, ⟨fun _ => 0, fun _ => 0⟩), .call 2 (.increment, ⟨fun _ => 0, fun _ => 0⟩)]

/-- The answers to the calls before the last one. -/
def reloadedAnswers : List (Option Term) := [none, some (.int 0), none, some (.int 0), some (.int 0)]

theorem answers_of_reloaded : ∃ ts m,
    (runAll (nif reference .sgx) (callsSince Event.creates reloaded ++
      [(.rtrn, ⟨fun _ => 0, fun _ => 0⟩)])).run .init = .ret (ts ++ [.int 2], m) := by
  have hrun : (runAll onEvent (reloaded ++ [.call 1 (.rtrn, ⟨fun _ => 0, fun _ => 0⟩)])).run .init =
      .ret (reloadedAnswers ++ [some (.int 2)], _) := rfl
  obtain ⟨ts, m, -, hfresh⟩ := answers_of_run.1 _ _ hrun
  exact ⟨ts, m, hfresh⟩

/-! ## The counter -/

/-- The events of a module that has only the counter. -/
def CounterOnly (events : List (Event o)) : Prop :=
  ∀ inst x, .call inst x ∈ events → x.1.isRsa = false

theorem isRsa_of_mem_callsSince {p : Event o → Bool} {events : List (Event o)}
    (h : CounterOnly events) : ∀ x ∈ callsSince p events, x.1.isRsa = false := by
  intro x hx
  obtain ⟨e, he, hcall⟩ := List.mem_filterMap.mp hx
  have hmem : e ∈ events := List.rtakeWhile_suffix _ _ |>.subset he
  cases e with
  | call inst y =>
      obtain rfl : y = x := by simpa [Event.call?] using hcall
      exact h inst y hmem
  | load => simp [Event.call?] at hcall
  | upgrade => simp [Event.call?] at hcall
  | unload => simp [Event.call?] at hcall

/-- Calls of the counter leave the counter to each other. -/
theorem leavesCounter_of_isRsa {b : Build} {calls : List (NifCall o × Memory)}
    (h : ∀ x ∈ calls, x.1.isRsa = false) (s : Enclave) :
    Along (nif o b) (LeavesCounter b) s calls := by
  induction calls generalizing s with
  | nil => trivial
  | cons x calls ih =>
      obtain ⟨hx, hcalls⟩ := List.forall_mem_cons.mp h
      refine ⟨fun hrsa => ?_, fun _ s' _ => ih hcalls s'⟩
      rw [hx] at hrsa
      exact absurd hrsa Bool.false_ne_true

/-- What `rtrn` returns after some calls of the counter. -/
theorem rtrn_of_calls {b : Build} {calls : List (NifCall o × Memory)} {mem : Memory}
    {ts : List Term} {t : Term} {m : Enclave} (h : ∀ x ∈ calls, x.1.isRsa = false)
    (hrun : (runAll (nif o b) (calls ++ [(.rtrn, mem)])).run .init = .ret (ts ++ [t], m)) :
    t = .int (BitVec.ofNat 32 (increments calls)).toInt := by
  obtain ⟨ts', s, u, hcalls, hrtrn, hts⟩ := runAll_append_singleton_eq_ret_iff.mp hrun
  obtain ⟨-, hu⟩ := List.append_inj' hts rfl
  obtain ⟨rfl, -⟩ := Outcome.pair_inj ((run_rtrnNif s).symm.trans hrtrn)
  have ha := a_of_run (leavesCounter_of_isRsa h .init) hcalls
  rw [List.singleton_inj.mp hu, ha]
  simp [Enclave.init]

/-- After any life cycle of the counter module `rtrn` returns, with SGX, the number of
increments since the last enclave was created, and without it, since the module was loaded.
So the builds agree exactly if the calls before the last enclave do not show modulo `2 ^ 32`. -/
theorem rtrn_alike_iff {events : List (Event o)} (hcalls : CounterOnly events) {inst : ℕ}
    {mem : Memory} {t t' : Term} {outs outs' : List (Option Term)} {m : Enclave}
    (hsgx : (runAll onEvent (events ++ [.call inst (.rtrn, mem)])).run .init =
      .ret (outs ++ [some t], s'))
    (hplain : (runAll NoSgx.onEvent (events ++ [.call inst (.rtrn, mem)])).run .init =
      .ret (outs' ++ [some t'], m)) :
    t = .int (BitVec.ofNat 32 (increments (callsSince Event.creates events))).toInt ∧
      t' = .int (BitVec.ofNat 32 (increments (callsSince Event.isLoad events))).toInt ∧
      (t = t' ↔ increments (callsSince Event.creates events) % 2 ^ 32 =
        increments (callsSince Event.isLoad events) % 2 ^ 32) := by
  obtain ⟨ts, m₁, -, hrun⟩ := answers_of_run.1 outs s' hsgx
  obtain ⟨ts', hrun'⟩ := answers_of_run.2 outs' m hplain
  have ht := rtrn_of_calls (isRsa_of_mem_callsSince hcalls) hrun
  have ht' := rtrn_of_calls (isRsa_of_mem_callsSince hcalls) hrun'
  refine ⟨ht, ht', ?_⟩
  rw [ht, ht', Term.int.injEq, BitVec.toInt_inj, ← BitVec.toNat_inj, BitVec.toNat_ofNat,
    BitVec.toNat_ofNat]

theorem counterOnly_reloaded : CounterOnly reloaded := by
  intro inst x hx
  simp only [reloaded, List.mem_cons, reduceCtorEq, Event.call.injEq, List.not_mem_nil, or_false,
    false_or] at hx
  rcases hx with ⟨-, rfl⟩ | ⟨-, rfl⟩ | ⟨-, rfl⟩ <;> rfl

/-- The increment before the upgrade is lost with SGX. -/
theorem rtrn_not_alike_of_reloaded : increments (callsSince Event.creates reloaded) % 2 ^ 32 ≠
    increments (callsSince Event.isLoad reloaded) % 2 ^ 32 := by
  have hsgx : (runAll onEvent (reloaded ++ [.call 1 (.rtrn, ⟨fun _ => 0, fun _ => 0⟩)])).run .init =
      .ret (reloadedAnswers ++ [some (.int 2)], _) := rfl
  have hplain : (runAll NoSgx.onEvent
      (reloaded ++ [.call 1 (.rtrn, ⟨fun _ => 0, fun _ => 0⟩)])).run .init =
      .ret (reloadedAnswers ++ [some (.int 3)], _) := rfl
  have hne : Term.int 2 ≠ .int 3 := by simp
  exact fun h => hne ((rtrn_alike_iff counterOnly_reloaded hsgx hplain).2.2.mpr h)

/-! ## The keys -/

/-- With SGX, from the creation of an enclave to the next key generation, every call that
signs or encrypts ends the VM: it aborts, unless the cleartext overflows the stack before. -/
theorem aborted_of_no_keyGen {events : List (Event o)} {outs : List (Option Term)}
    (hrun : (runAll onEvent events).run .init = .ret (outs, s'))
    (hno : ∀ x ∈ callsSince Event.creates events, ∀ r, x.1 ≠ .rsaKeyGen r) (inst : ℕ)
    {payload : List Byte} (hcount : payload.length + 1 < 2 ^ 32) (r : o.Rand) (mem : Memory) :
    (onEvent (.call inst (.rsaSign (.ofBytes payload) r, mem))).run s' =
        (if payload.length + 1 ≤ o.stack.room then .aborted else .crashed) ∧
      (onEvent (.call inst (.rsaEncrypt (.ofBytes payload) r, mem))).run s' =
        (if payload.length + 1 ≤ o.stack.room then .aborted else .crashed) := by
  by_cases hfits : payload.length + 1 ≤ o.stack.room
  case neg =>
    have hread := readArgument_of_lt o (Nat.lt_of_not_le hfits) hcount
    simp [run_call, NifCall.reads, hread, hfits]
  have hread := readArgument_of_le o hfits
  cases hm : s'.enclaves s'.globalEid with
  | none => simp [run_call, NifCall.reads, hread, hfits, run_enterEnclave_of_none hm]
  | some m =>
      obtain ⟨ts, hts⟩ := current_of_run hrun hm
      have hview : m.keypairView = .unset := by
        rw [(sameKeys_of_run hno hts).keypairView]
        rfl
      have hop : ∀ op : Option Key → OpResult, Build.sgx.operation m r op = .aborted := by
        intro op
        simp only [Build.operation, hview]
        rfl
      simp [run_call, NifCall.reads, hread, hfits, run_enterEnclave_of_some hm, nif,
        run_rsaSignNif, run_rsaEncryptNif, hop]

theorem aborted_of_reloaded : ∃ (outs : List (Option Term)) (s : Vm),
    (runAll onEvent reloaded).run .init = .ret (outs, s) ∧
      (onEvent (.call 1 (.rsaSign (.ofBytes [1]) sampleRand, ⟨fun _ => 0, fun _ => 0⟩) :
        Event reference)).run s = .aborted := by
  have hrun : (runAll onEvent reloaded).run .init = .ret (reloadedAnswers, _) := rfl
  have hno : ∀ x ∈ callsSince Event.creates reloaded, ∀ r, x.1 ≠ .rsaKeyGen r := by
    intro x hx r heq
    have hrsa := isRsa_of_mem_callsSince counterOnly_reloaded x hx
    rw [heq] at hrsa
    exact Bool.false_ne_true hrsa.symm
  exact ⟨_, _, hrun, (aborted_of_no_keyGen hrun hno 1 (by decide) sampleRand _).1⟩

/-! ## What is left behind -/

/-- An enclave that is not the current one stays as it is, whatever the runtime does. -/
theorem frozen_of_run {events : List (Event o)} {outs : List (Option Term)} {eid : ℕ}
    (hissued : eid ∈ s.issued) (hne : s.globalEid ≠ eid)
    (hallowed : Along onEvent Allowed s events)
    (hrun : (runAll onEvent events).run s = .ret (outs, s')) :
    s'.enclaves eid = s.enclaves eid ∧ s'.globalEid ≠ eid := by
  induction events generalizing s outs with
  | nil =>
      obtain ⟨-, rfl⟩ := Outcome.pair_inj hrun
      exact ⟨rfl, hne⟩
  | cons e events ih =>
      obtain ⟨t, s₁, rest, he, hrest, -⟩ := runAll_cons_eq_ret_iff.mp hrun
      have hstep : eid ∈ s₁.issued ∧ s₁.globalEid ≠ eid ∧ s₁.enclaves eid = s.enclaves eid := by
        have hload : ∀ created, s.Fresh created → s₁ = s.afterLoad created →
            eid ∈ s₁.issued ∧ s₁.globalEid ≠ eid ∧ s₁.enclaves eid = s.enclaves eid := by
          intro created hfresh hs₁
          cases created with
          | none =>
              rw [hs₁]
              exact ⟨hissued, hne, rfl⟩
          | some new =>
              have hnew : eid ≠ new := by
                rintro rfl
                exact hfresh eid rfl hissued
              rw [hs₁]
              refine ⟨List.mem_cons_of_mem _ hissued, Ne.symm hnew, ?_⟩
              exact Function.update_of_ne hnew _ _
        cases e with
        | load created =>
            obtain ⟨-, rfl⟩ := Outcome.pair_inj ((run_load created s).symm.trans he)
            exact hload created hallowed.1.2 rfl
        | upgrade created =>
            obtain ⟨-, rfl⟩ := Outcome.pair_inj ((run_upgrade created s).symm.trans he)
            exact hload created hallowed.1.2 rfl
        | unload inst =>
            obtain ⟨-, rfl⟩ := Outcome.pair_inj ((run_unload inst s).symm.trans he)
            exact ⟨hissued, hne, Function.update_of_ne (Ne.symm hne) _ _⟩
        | call inst x =>
            obtain ⟨m, m', -, -, -, -, rfl⟩ := nif_of_call he
            exact ⟨hissued, hne, Function.update_of_ne (Ne.symm hne) _ _⟩
      obtain ⟨hissued₁, hne₁, heq⟩ := hstep
      obtain ⟨hrest', hend⟩ := ih hissued₁ hne₁ (hallowed.2 t s₁ he) hrest
      exact ⟨hrest'.trans heq, hend⟩

/-- The enclaves that exist have been given out. -/
def Vm.Known (s : Vm) : Prop := ∀ eid, (s.enclaves eid).isSome → eid ∈ s.issued

theorem known_step {e : Event o} {t : Option Term} (hs : s.Known)
    (hrun : (onEvent e).run s = .ret (t, s')) : s'.Known := by
  intro eid hex
  have hload : ∀ created, s' = s.afterLoad created → eid ∈ s'.issued := by
    intro created hs'
    subst hs'
    cases created with
    | none => exact hs eid hex
    | some new =>
        by_cases heq : eid = new
        · rw [heq]
          exact List.mem_cons_self
        · exact List.mem_cons_of_mem _ (hs eid (by simpa [Vm.afterLoad, Vm.created, heq] using hex))
  cases e with
  | load created =>
      exact hload created (Outcome.pair_inj ((run_load created s).symm.trans hrun)).2.symm
  | upgrade created =>
      exact hload created (Outcome.pair_inj ((run_upgrade created s).symm.trans hrun)).2.symm
  | unload inst =>
      obtain ⟨-, rfl⟩ := Outcome.pair_inj ((run_unload inst s).symm.trans hrun)
      by_cases heq : eid = s.globalEid
      · simp [Vm.afterUnload, heq] at hex
      · exact hs eid (by simpa [Vm.afterUnload, heq] using hex)
  | call inst x =>
      obtain ⟨m, m', -, hm, -, -, rfl⟩ := nif_of_call hrun
      by_cases heq : eid = s.globalEid
      · exact hs eid (by rw [heq, hm, Option.isSome_some])
      · exact hs eid (by simpa [heq] using hex)

theorem known_of_run {events : List (Event o)} {outs : List (Option Term)}
    (hrun : (runAll onEvent events).run .init = .ret (outs, s')) : s'.Known := by
  have hall : Along onEvent (fun _ _ => True) Vm.init events :=
    Along.of_forall (fun _ _ => trivial) events Vm.init
  have hinit : Vm.init.Known := fun eid hex => by simp [Vm.init] at hex
  exact Along.inv_of_run (fun _ _ _ _ hs _ he => known_step hs he) hinit hall hrun

/-- An enclave that an upgrade has replaced is neither entered nor destroyed any more: it
keeps its counter and its private key, whatever is called and unloaded later, and the calls
go to another one. -/
theorem replaced_of_run {pre post : List (Event o)} {new : ℕ} {outs outs' : List (Option Term)}
    (hpre : (runAll onEvent pre).run .init = .ret (outs, s)) {m : Enclave}
    (hm : s.enclaves s.globalEid = some m)
    (hallowed : Along onEvent Allowed s (.upgrade (some new) :: post))
    (hrun : (runAll onEvent (.upgrade (some new) :: post)).run s = .ret (outs', s')) :
    s'.enclaves s.globalEid = some m ∧ s'.globalEid ≠ s.globalEid := by
  obtain ⟨t, s₁, rest, he, hrest, -⟩ := runAll_cons_eq_ret_iff.mp hrun
  obtain ⟨-, rfl⟩ := Outcome.pair_inj ((run_upgrade (some new) s).symm.trans he)
  have hissued : s.globalEid ∈ s.issued := known_of_run hpre _ (by rw [hm, Option.isSome_some])
  have hnew : new ≠ s.globalEid := by
    rintro rfl
    exact hallowed.1.2 _ rfl hissued
  obtain ⟨hkept, hne⟩ := frozen_of_run (s := s.created new) (List.mem_cons_of_mem _ hissued) hnew
    (hallowed.2 _ _ he) hrest
  refine ⟨hkept.trans ?_, hne⟩
  rw [← hm]
  exact Function.update_of_ne (Ne.symm hnew) _ _

theorem replaced_of_reloaded : ∃ (s' : Vm) (m : Enclave), s'.instances = [2] ∧
    s'.enclaves 1 = some m ∧ m.a = 1 := by
  let pre : List (Event reference) :=
    [.load (some 1), .call 1 (.increment, ⟨fun _ => 0, fun _ => 0⟩)]
  let s : Vm := { Vm.init.created 1 with
    enclaves := Function.update (Vm.init.created 1).enclaves 1 (some { Enclave.init with a := 1 }) }
  have hpre : (runAll onEvent pre).run .init = .ret ([none, some (.int 0)], s) := rfl
  have hallowed : Along onEvent Allowed s [.upgrade (some 2), (.unload 1 : Event reference)] := by
    rw [along_cons_of_ret (run_upgrade _ _), along_cons_of_ret (run_unload _ _)]
    refine ⟨⟨List.cons_ne_nil _ _, ?_⟩, ⟨by decide, by decide⟩, trivial⟩
    intro eid h
    obtain rfl := Option.some.inj h
    decide
  have hm : s.enclaves s.globalEid = some { Enclave.init with a := 1 } := rfl
  have hrun : (runAll onEvent [.upgrade (some 2), (.unload 1 : Event reference)]).run s =
      .ret ([none, none], (s.created 2).afterUnload 1) := rfl
  exact ⟨_, _, rfl, (replaced_of_run hpre hm hallowed hrun).1, rfl⟩

end SgxErlang.Rsa
