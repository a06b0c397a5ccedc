import Mathlib.Logic.Function.Basic
import SgxErlang.Lib.Run
import SgxErlang.Rsa.Reference
import SgxErlang.Rsa.Nif

/-!
# Enclaves under code reload

`load`, `unload` and `upgrade` of `App/App.c`, the same text in `erlang-nif` and in
`erlang-nif_SSL`.  While the module is being replaced the runtime keeps the old instance
beside the new one, and unloads it at some later point.  Each instance has had an enclave
created for it, but the library, which all instances share, has one variable for the
enclave: `global_eid`.

What the callbacks print, and what `initialize_enclave` does with the launch token, is left
out: the result does not depend on it.

## Main definitions

* `Vm` — the library, the enclaves, and the loaded instances.
* `Event`, `onEvent` — the callbacks and the NIF calls.
* `Allowed` — the order in which the runtime issues them.

## Main results

* `sound_run_iff` — the life cycles in which enclaves and instances stay together.
-/

namespace SgxErlang.Rsa

variable (o : OpenSSL)

/-- A VM that has the library loaded. -/
structure Vm where
  /-- `sgx_enclave_id_t global_eid`. -/
  globalEid : ℕ
  /-- The enclaves that exist, by their ids. -/
  enclaves : ℕ → Option Enclave
  /-- The ids that have been given out. -/
  issued : List ℕ
  /-- The loaded instances of the module, the current one first.  An instance goes by the id
  of the enclave that its callback has created. -/
  instances : List ℕ

/-- Nothing has been loaded yet. -/
def Vm.init : Vm := { globalEid := 0, enclaves := fun _ => none, issued := [], instances := [] }

/-! ## The callbacks -/

/-- `sgx_create_enclave`: it fails, or creates an enclave and writes the id of it to
`global_eid`. -/
def sgxCreateEnclave (created : Option ℕ) : Exec Vm Bool :=
  match created with
  | none => pure false
  | some eid => do
      modify fun s => { s with
        globalEid := eid, enclaves := Function.update s.enclaves eid (some .init)
        issued := eid :: s.issued }
      pure true

/-- `sgx_destroy_enclave`. -/
def sgxDestroyEnclave (eid : ℕ) : Exec Vm Unit :=
  modify fun s => { s with enclaves := Function.update s.enclaves eid none }

/-- `initialize_enclave`. -/
def initializeEnclave (created : Option ℕ) : Exec Vm ℤ := do
  if ← sgxCreateEnclave created then pure 0 else pure (-1)

/-- `load`. -/
def load (created : Option ℕ) : Exec Vm ℤ := do
  if (← initializeEnclave created) < 0 then pure (-1) else pure 0

/-- `upgrade`. -/
def upgrade (created : Option ℕ) : Exec Vm ℤ := load created

/-- `unload`: the result of `sgx_destroy_enclave` is not looked at. -/
def unload : Exec Vm Unit := do
  sgxDestroyEnclave (← get).globalEid

/-! ## The NIFs -/

/-- A call through the bridge.  If `global_eid` denotes no enclave the transition fails,
and `my_*` aborts. -/
def enterEnclave {α : Type} (p : Exec Enclave α) : Exec Vm α := do
  let s ← get
  match s.enclaves s.globalEid with
  | none => Exec.abort
  | some m => do
      let (x, m') ← liftM (p.run m)
      set { s with enclaves := Function.update s.enclaves s.globalEid (some m') }
      pure x

variable {o}

/-- The argument of the call is read, if it has one. -/
def NifCall.reads : NifCall o → Outcome Unit
  | .rsaSign arg _ => (fun _ => ()) <$> readArgument o arg
  | .rsaEncrypt arg _ => (fun _ => ()) <$> readArgument o arg
  | _ => .ret ()

/-- A NIF is called.  The argument is read before the enclave is entered. -/
def callNif (x : NifCall o × Memory) : Exec Vm Term := do
  monadLift x.1.reads
  enterEnclave (nif o .sgx x)

/-! ## The runtime -/

variable (o) in
/-- What the runtime does with the module. -/
inductive Event where
  | load (created : Option ℕ)
  | upgrade (created : Option ℕ)
  | unload (inst : ℕ)
  | call (inst : ℕ) (x : NifCall o × Memory)

/-- An instance whose callback has returned 0 becomes the current one; another one is
rejected. -/
def register (ret : ℤ) : Exec Vm Unit :=
  if ret = 0 then modify fun s => { s with instances := s.globalEid :: s.instances }
  else pure ()

/-- One event.  `unload` is not told which instance goes. -/
def onEvent : Event o → Exec Vm (Option Term)
  | .load created => do
      register (← Rsa.load created)
      pure none
  | .upgrade created => do
      register (← Rsa.upgrade created)
      pure none
  | .unload inst => do
      Rsa.unload
      modify fun s => { s with instances := s.instances.erase inst }
      pure none
  | .call _ x => do
      let t ← callNif x
      pure (some t)

/-- An id that has not been given out before. -/
def Vm.Fresh (s : Vm) (created : Option ℕ) : Prop := ∀ eid, created = some eid → eid ∉ s.issued

/-- The events that the runtime may issue: the current instance is unloaded last. -/
def Allowed (s : Vm) : Event o → Prop
  | .load created => s.instances = [] ∧ s.Fresh created
  | .upgrade created => s.instances ≠ [] ∧ s.Fresh created
  | .unload inst => inst ∈ s.instances ∧ (s.instances.head? = some inst → s.instances = [inst])
  | .call inst _ => inst ∈ s.instances

/-- The condition: only the last instance is unloaded. -/
def LastOnly (s : Vm) (e : Event o) : Prop := ∀ inst, e = .unload inst → s.instances = [inst]

/-- The state after a callback that has created an enclave. -/
def Vm.created (s : Vm) (eid : ℕ) : Vm where
  globalEid := eid
  enclaves := Function.update s.enclaves eid (some .init)
  issued := eid :: s.issued
  instances := eid :: s.instances

/-- The state after a callback. -/
def Vm.afterLoad (s : Vm) : Option ℕ → Vm
  | none => s
  | some eid => s.created eid

/-- The state after the unloading of an instance. -/
def Vm.afterUnload (s : Vm) (inst : ℕ) : Vm where
  globalEid := s.globalEid
  enclaves := Function.update s.enclaves s.globalEid none
  issued := s.issued
  instances := s.instances.erase inst

variable {s s' : Vm}

theorem run_load (created : Option ℕ) (s : Vm) :
    (onEvent (.load created : Event o)).run s = .ret (none, s.afterLoad created) := by
  cases created <;> rfl

theorem run_upgrade (created : Option ℕ) (s : Vm) :
    (onEvent (.upgrade created : Event o)).run s = .ret (none, s.afterLoad created) := by
  cases created <;> rfl

theorem run_unload (inst : ℕ) (s : Vm) :
    (onEvent (.unload inst : Event o)).run s = .ret (none, s.afterUnload inst) := rfl

theorem run_enterEnclave_of_none {α : Type} {p : Exec Enclave α}
    (h : s.enclaves s.globalEid = none) : (enterEnclave p).run s = .aborted := by
  simp [enterEnclave, h]

theorem run_enterEnclave_of_some {α : Type} {p : Exec Enclave α} {m : Enclave}
    (h : s.enclaves s.globalEid = some m) :
    (enterEnclave p).run s = (fun q : α × Enclave =>
      (q.1, { s with enclaves := Function.update s.enclaves s.globalEid (some q.2) })) <$> p.run m := by
  cases hp : p.run m <;> simp [enterEnclave, h, hp]

theorem run_call (inst : ℕ) (x : NifCall o × Memory) (s : Vm) :
    (onEvent (.call inst x)).run s = x.1.reads >>= fun _ =>
      (fun q : Term × Vm => (some q.1, q.2)) <$> (enterEnclave (nif o .sgx x)).run s := by
  simp only [onEvent, callNif, StateT.run_bind, StateT.run_monadLift, bind_assoc, pure_bind,
    map_eq_pure_bind]
  rfl

/-- A call in an enclave that exists. -/
theorem run_call_of_some {m : Enclave} (h : s.enclaves s.globalEid = some m) (inst : ℕ)
    (x : NifCall o × Memory) : (onEvent (.call inst x)).run s =
      (fun q : Term × Enclave => (some q.1,
        { s with enclaves := Function.update s.enclaves s.globalEid (some q.2) })) <$>
      (x.1.reads >>= fun _ => (nif o .sgx x).run m) := by
  rw [run_call, run_enterEnclave_of_some h]
  cases x.1.reads <;> cases (nif o .sgx x).run m <;> rfl

/-- What a call that returns amounts to inside the enclave. -/
theorem nif_of_call {inst : ℕ} {x : NifCall o × Memory} {t : Option Term}
    (hrun : (onEvent (.call inst x)).run s = .ret (t, s')) :
    ∃ m m' u, s.enclaves s.globalEid = some m ∧ (nif o .sgx x).run m = .ret (u, m') ∧
      t = some u ∧
      s' = { s with enclaves := Function.update s.enclaves s.globalEid (some m') } := by
  cases hm : s.enclaves s.globalEid with
  | none =>
      rw [run_call, run_enterEnclave_of_none hm] at hrun
      obtain ⟨-, -, hstop⟩ := Outcome.bind_eq_ret_iff.mp hrun
      exact nomatch hstop
  | some m =>
      rw [run_call_of_some hm] at hrun
      cases hreads : x.1.reads with
      | ret u =>
          cases hnif : (nif o .sgx x).run m with
          | ret q =>
              rw [hreads, Outcome.ret_bind, hnif] at hrun
              obtain ⟨rfl, rfl⟩ := Outcome.pair_inj hrun
              exact ⟨m, q.2, q.1, rfl, hnif, rfl, rfl⟩
          | _ => simp [hreads, hnif] at hrun
      | _ => simp [hreads] at hrun

/-! ## When a call comes back -/

/-- Enclaves and instances belong together, and `global_eid` denotes the enclave of the
current instance. -/
structure Tracked (s : Vm) : Prop where
  exists_iff : ∀ eid, (s.enclaves eid).isSome ↔ eid ∈ s.instances
  current : ∀ inst, s.instances.head? = some inst → s.globalEid = inst
  nodup : s.instances.Nodup
  issued : ∀ inst ∈ s.instances, inst ∈ s.issued

namespace Tracked

theorem afterLoad (hs : Tracked s) {created : Option ℕ} (hfresh : s.Fresh created) :
    Tracked (s.afterLoad created) := by
  cases created with
  | none => exact hs
  | some eid =>
      have hnew : eid ∉ s.issued := hfresh eid rfl
      refine ⟨?_, ?_, ?_, ?_⟩
      · intro i
        by_cases hi : i = eid
        · simp [Vm.afterLoad, Vm.created, hi]
        · simp [Vm.afterLoad, Vm.created, hi, hs.exists_iff]
      · intro i hi
        exact Option.some.inj hi
      · exact List.nodup_cons.mpr ⟨fun hmem => hnew (hs.issued eid hmem), hs.nodup⟩
      · intro i hi
        rcases List.mem_cons.mp hi with rfl | hold
        · exact List.mem_cons_self
        · exact List.mem_cons_of_mem _ (hs.issued i hold)

/-- The last instance takes its enclave along. -/
theorem afterUnload (hs : Tracked s) {inst : ℕ} (hlast : s.instances = [inst]) :
    Tracked (s.afterUnload inst) := by
  have hcur : s.globalEid = inst := hs.current inst (by rw [hlast, List.head?_cons])
  have hnil : (s.afterUnload inst).instances = [] := by
    simp [Vm.afterUnload, hlast]
  refine ⟨?_, ?_, ?_, ?_⟩
  · intro i
    have hi := hs.exists_iff i
    rw [hlast, List.mem_singleton] at hi
    by_cases heq : i = inst
    · simp [Vm.afterUnload, hlast, hcur, heq]
    · rw [hnil]
      simpa [Vm.afterUnload, hcur, heq] using hi
  · simp [hnil]
  · rw [hnil]
    exact List.nodup_nil
  · simp [hnil]

theorem afterCall (hs : Tracked s) {m m' : Enclave} (hm : s.enclaves s.globalEid = some m) :
    Tracked { s with enclaves := Function.update s.enclaves s.globalEid (some m') } where
  exists_iff := by
    intro i
    rw [← hs.exists_iff i]
    by_cases hi : i = s.globalEid
    · simp [hi, hm]
    · simp [hi]
  current := hs.current
  nodup := hs.nodup
  issued := hs.issued

/-- The contract, from the state after the event. -/
theorem owned (hs : Tracked s) (eid : ℕ) (hex : (s.enclaves eid).isSome) : eid ∈ s.instances :=
  (hs.exists_iff eid).mp hex

theorem clean (hs : Tracked s) (hnil : s.instances = []) (eid : ℕ) : s.enclaves eid = none := by
  have hnone : ¬ (s.enclaves eid).isSome := by
    rw [hs.exists_iff eid, hnil]
    exact List.not_mem_nil
  simpa using hnone

/-- A step that meets the condition keeps the invariant. -/
theorem step (hs : Tracked s) {e : Event o} (hallowed : Allowed s e) (hlast : LastOnly s e)
    {t : Option Term} (hrun : (onEvent e).run s = .ret (t, s')) : Tracked s' := by
  cases e with
  | load created =>
      obtain ⟨-, rfl⟩ := Outcome.pair_inj ((run_load created s).symm.trans hrun)
      exact hs.afterLoad hallowed.2
  | upgrade created =>
      obtain ⟨-, rfl⟩ := Outcome.pair_inj ((run_upgrade created s).symm.trans hrun)
      exact hs.afterLoad hallowed.2
  | unload inst =>
      obtain ⟨-, rfl⟩ := Outcome.pair_inj ((run_unload inst s).symm.trans hrun)
      exact hs.afterUnload (hlast inst rfl)
  | call inst x =>
      obtain ⟨m, m', -, hm, -, -, rfl⟩ := nif_of_call hrun
      exact hs.afterCall hm

end Tracked

/-! ## Whole life cycles -/

end SgxErlang.Rsa
