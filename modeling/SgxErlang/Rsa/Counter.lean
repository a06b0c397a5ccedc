import SgxErlang.Lib.Run
import SgxErlang.Rsa.Reference
import SgxErlang.Rsa.Nif

/-!
# The counter beside the keys

The counter that `increment` and `rtrn` work on is a global of the same file as the keys.
The RSA functions have no business with it: `rtrn` should return the number of `increment`s
whatever else has been called in between.  But `rsa_key_gen` sets the counter to 0 when it
gets to its end.

## Main definitions

* `CounterIndependent` — the RSA calls of a run do not show in the counter.
* `KeepsCounter` — the condition at one call.

## Main results

* `counterIndependent_iff` — the runs in which the counter is independent.
-/

namespace SgxErlang.Rsa

variable {o : OpenSSL} {b : Build}

namespace NifCall

/-- The call is an `increment`. -/
def isIncrement : NifCall o → Bool
  | .increment => true
  | _ => false

/-- The call is an `rtrn`. -/
def isRtrn : NifCall o → Bool
  | .rtrn => true
  | _ => false

/-- The call is one of an RSA function. -/
def isRsa (call : NifCall o) : Bool := !call.isIncrement && !call.isRtrn

end NifCall

/-- The number of `increment`s among some calls. -/
def increments (calls : List (NifCall o × Memory)) : ℕ := calls.countP fun x => x.1.isIncrement

/-- What the `rtrn`s among some calls have returned. -/
def rtrns (calls : List (NifCall o × Memory)) (results : List Term) : List Term :=
  ((calls.zip results).filter fun x => x.1.1.isRtrn).map Prod.snd

/-- The calls without those of the RSA functions. -/
def withoutRsa (calls : List (NifCall o × Memory)) : List (NifCall o × Memory) :=
  calls.filter fun x => !x.1.isRsa

/-- No RSA call changes the counter. -/
def LeavesCounter (b : Build) (s : Enclave) (x : NifCall o × Memory) : Prop :=
  x.1.isRsa = true → ∀ t s', (nif o b x).run s = .ret (t, s') → s'.a = s.a

/-- The counter is independent of the RSA calls: every `rtrn` that is reached returns the
number of `increment`s before it, no RSA call changes the counter, and without the RSA calls
the `rtrn`s return the same. -/
structure CounterIndependent (b : Build) (calls : List (NifCall o × Memory)) : Prop where
  rtrn : ∀ pre mem post, calls = pre ++ (.rtrn, mem) :: post → ∀ results s,
    (runAll (nif o b) pre).run .init = .ret (results, s) →
    (nif o b (.rtrn, mem)).run s = .ret (.int (BitVec.ofNat 32 (increments pre)).toInt, s)
  frame : Along (nif o b) (LeavesCounter b) .init calls
  deletion : ∀ pre post, calls = pre ++ post → ∀ results s,
    (runAll (nif o b) pre).run .init = .ret (results, s) →
    ∃ results' s', (runAll (nif o b) (withoutRsa pre)).run .init = .ret (results', s') ∧
      rtrns (withoutRsa pre) results' = rtrns pre results

/-- The condition: a key generation that gets to its end, and returns, finds the counter at
0. -/
def KeepsCounter (b : Build) (s : Enclave) (x : NifCall o × Memory) : Prop :=
  match x.1 with
  | .rsaKeyGen r => r.finishes = true → (b = .noSgx → r.initCrypto = 1) → s.a = 0
  | _ => True

/-! ## One call -/

@[simp] theorem a_keyGenStart (b : Build) (s : Enclave) : (b.keyGenStart s).a = s.a := by
  cases b <;> rfl

/-- The condition is exact at every call. -/
theorem leavesCounter_iff (s : Enclave) (x : NifCall o × Memory) :
    LeavesCounter b s x ↔ KeepsCounter b s x := by
  obtain ⟨call, mem⟩ := x
  constructor
  · intro h
    cases call with
    | rsaKeyGen r =>
        intro hfin hinit
        have ha := h rfl _ _ (run_rsaKeyGenNif_of_init hinit s)
        rw [r.a_after, if_pos hfin] at ha
        exact ha.symm
    | _ => trivial
  · intro h hrsa t s' hrun
    have hleaves := leaves_of_nif hrun
    cases call with
    | increment => exact absurd hrsa Bool.false_ne_true
    | rtrn => exact absurd hrsa Bool.false_ne_true
    | rsaKeyGen r =>
        obtain ⟨hinit, rfl⟩ := hleaves
        rw [r.a_after, a_keyGenStart]
        split_ifs with hfin
        · exact (h hfin hinit).symm
        · rfl
    | rsaSign arg r =>
        rw [show s' = s.afterPrints r from hleaves]
        rfl
    | rsaEncrypt arg r =>
        rw [show s' = s.afterPrints r from hleaves]
        rfl
    | rsaGetPubkey r =>
        rcases hleaves with rfl | rfl
        · rfl
        · rfl

/-! ## Whole runs -/

/-- After a run whose steps all meet the condition, the `increment`s have been counted. -/
theorem a_of_run {calls : List (NifCall o × Memory)} {s s' : Enclave} {results : List Term}
    (hkeep : Along (nif o b) (LeavesCounter b) s calls)
    (hrun : (runAll (nif o b) calls).run s = .ret (results, s')) :
    s'.a = s.a + BitVec.ofNat 32 (increments calls) := by
  induction calls generalizing s results with
  | nil =>
      obtain ⟨-, rfl⟩ := Outcome.pair_inj hrun
      simp [increments]
  | cons x calls ih =>
      obtain ⟨t, s₁, rest, hx, hrest, -⟩ := runAll_cons_eq_ret_iff.mp hrun
      rw [ih (hkeep.2 t s₁ hx) hrest]
      obtain ⟨call, mem⟩ := x
      have hframe := hkeep.1
      have hleaves := leaves_of_nif hx
      cases call with
      | increment =>
          rw [show s₁ = { s with a := s.a + 1 } from hleaves]
          simp only [increments, List.countP_cons, NifCall.isIncrement, if_true, BitVec.ofNat_add]
          rw [BitVec.add_assoc, BitVec.add_comm (1 : BitVec 32)]
          rfl
      | rtrn =>
          rw [show s₁ = s from hleaves]
          rfl
      | _ =>
          rw [hframe rfl t s₁ hx]
          rfl

/-- The other calls alone do the same to the counter, and return the same. -/
theorem run_withoutRsa {calls : List (NifCall o × Memory)} {s u s' : Enclave}
    {results : List Term} (ha : s.a = u.a) (hkeep : Along (nif o b) (LeavesCounter b) s calls)
    (hrun : (runAll (nif o b) calls).run s = .ret (results, s')) :
    ∃ results' u', (runAll (nif o b) (withoutRsa calls)).run u = .ret (results', u') ∧
      rtrns (withoutRsa calls) results' = rtrns calls results := by
  induction calls generalizing s u results with
  | nil =>
      obtain ⟨rfl, -⟩ := Outcome.pair_inj hrun
      exact ⟨[], u, rfl, rfl⟩
  | cons x calls ih =>
      obtain ⟨t, s₁, rest, hx, hrest, rfl⟩ := runAll_cons_eq_ret_iff.mp hrun
      obtain ⟨call, mem⟩ := x
      have hframe := hkeep.1
      have htail := hkeep.2 t s₁ hx
      cases call with
      | increment =>
          -- both count it
          have ha₁ : s₁.a = ({ u with a := u.a + 1 } : Enclave).a := by
            rw [show s₁ = { s with a := s.a + 1 } from leaves_of_nif hx]
            exact congrArg (· + 1) ha
          obtain ⟨results', u', hrun', heq⟩ := ih ha₁ htail hrest
          exact ⟨_, u', runAll_cons_eq_ret_iff.mpr ⟨_, _, _, run_incrementNif u, hrun', rfl⟩, heq⟩
      | rtrn =>
          -- both return it
          obtain ⟨rfl, rfl⟩ := Outcome.pair_inj ((run_rtrnNif s).symm.trans hx)
          obtain ⟨results', u', hrun', heq⟩ := ih ha htail hrest
          refine ⟨_, u', runAll_cons_eq_ret_iff.mpr ⟨_, _, _, run_rtrnNif u, hrun', rfl⟩, ?_⟩
          rw [ha]
          exact congrArg (Term.int u.a.toInt :: ·) heq
      | _ =>
          have ha₁ : s₁.a = u.a := (hframe rfl t s₁ hx).trans ha
          exact ih ha₁ htail hrest

/-- **The counter is independent of the RSA calls exactly if every key generation that gets
to its end finds it at 0.** -/
theorem counterIndependent_iff (b : Build) (calls : List (NifCall o × Memory)) :
    CounterIndependent b calls ↔ Along (nif o b) (KeepsCounter b) .init calls := by
  constructor
  · intro h
    exact h.frame.mono fun s x => (leavesCounter_iff s x).mp
  · intro h
    have hframe : Along (nif o b) (LeavesCounter b) .init calls :=
      h.mono fun s x => (leavesCounter_iff s x).mpr
    refine ⟨?_, hframe, ?_⟩
    · rintro pre mem post rfl results s hrun
      have ha : s.a = BitVec.ofNat 32 (increments pre) :=
        (a_of_run hframe.of_append hrun).trans (BitVec.zero_add _)
      rw [← ha]
      exact run_rtrnNif s
    · rintro pre post rfl results s hrun
      exact run_withoutRsa rfl hframe.of_append hrun

/-- A key generation in which every step succeeds. -/
def sampleKeyGen : KeyGenResults reference :=
  ⟨1, true, true, true, some sampleKey, true, true, sampleRand⟩

/-- An `increment`, a key generation, and an `rtrn`: it returns 0. -/
theorem not_counterIndependent_keyGen :
    let calls : List (NifCall reference × Memory) := [(.increment, ⟨fun _ => 0, fun _ => 0⟩),
      (.rsaKeyGen sampleKeyGen, ⟨fun _ => 0, fun _ => 0⟩), (.rtrn, ⟨fun _ => 0, fun _ => 0⟩)]
    ¬ CounterIndependent .sgx calls ∧ ¬ CounterIndependent .noSgx calls := by
  intro calls
  have hchanged : ∀ b : Build, ¬ CounterIndependent b calls := by
    intro b h
    have hrun := run_rsaKeyGenNif_of_init (b := b) (r := sampleKeyGen) (fun _ => rfl)
      { Enclave.init with a := Enclave.init.a + 1 }
    have ha := (h.frame.2 _ _ (run_incrementNif _)).1 rfl _ _ hrun
    have hfin : sampleKeyGen.finishes = true := rfl
    rw [KeyGenResults.a_after, if_pos hfin] at ha
    exact absurd ha (by decide)
  exact ⟨hchanged .sgx, hchanged .noSgx⟩

end SgxErlang.Rsa
