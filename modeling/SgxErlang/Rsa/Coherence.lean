import Mathlib.Tactic.IntervalCases
import SgxErlang.Lib.Run
import SgxErlang.Rsa.Fidelity

/-!
# The two key globals, while keys are being generated

NIF calls run on several schedulers, so that other calls, and other key generations, can
run between any two statements of `rsa_key_gen`.  The state of the machine is the enclave
together with all key generations that have been started and what is left of each.

`keypair` and `evp_pkey` should at all times denote one and the same complete key, or
nothing.  But `keypair` is overwritten with an empty key as soon as `RSA_new` succeeds,
long before `evp_pkey` is assigned.

## Main results

* `coherentRun_iff` — the runs in which the two globals stay coherent.
-/

namespace SgxErlang.Rsa

variable (o : OpenSSL) (b : Build)

/-- A key generation that has been started: what is left of it, and its locals.  Nothing is
left once it has returned. -/
structure Thread where
  results : KeyGenResults o
  rest : List KeyGenStmt
  frame : Frame

/-- The enclave, and the key generations in it. -/
structure Machine where
  enclave : Enclave
  threads : List (Thread o)

/-- Nothing has been called yet. -/
def Machine.init : Machine o := ⟨.init, []⟩

/-- What can happen next. -/
inductive Action where
  /-- A NIF is called. -/
  | call (x : NifCall o × Memory)
  /-- A key generation executes its next statement. -/
  | advance (n : ℕ)

variable {o}

/-- The next statement of a key generation. -/
def Thread.next (th : Thread o) (s : Enclave) : Outcome (Thread o × Enclave) :=
  match th.rest with
  | [] => .ret (th, s)
  | st :: rest => do
      let (f, s') ← (st.exec o th.results th.frame).run s
      match f with
      | some f' => pure ({ th with rest := rest, frame := f' }, s')
      | none => pure ({ th with rest := [] }, s')

/-- One action.  A call of `rsa_key_gen` only starts the key generation.  It sets neither
`printCB` nor the status of `OPENSSL_init_crypto`, which is what the NIF answers: neither of the
two key globals depends on them. -/
def act : Action o → Exec (Machine o) Unit
  | .call (.rsaKeyGen r, _) =>
      modify fun m => { m with threads := m.threads ++ [⟨r, KeyGenStmt.body, .start⟩] }
  | .call x => fun m => do
      let (_, s') ← (nif o b x).run m.enclave
      pure ((), { m with enclave := s' })
  | .advance n => fun m =>
      match m.threads[n]? with
      | none => .ret ((), m)
      | some th => do
          let (th', s') ← th.next m.enclave
          pure ((), ⟨s', m.threads.set n th'⟩)

/-- Both globals are unset, or both denote one and the same completely generated key. -/
def Enclave.Coherent (s : Enclave) : Prop :=
  (s.keypair = none ∧ s.evpPkey = none) ∨
    ∃ i j obj k, s.keypair = some i ∧ s.evpPkey = some j ∧ s.pkeys[j]? = some ⟨true, some i⟩ ∧
      s.rsas[i]? = some obj ∧ obj.refs ≠ 0 ∧ obj.key = some k

/-- The globals are coherent at every point of a run. -/
def CoherentRun (actions : List (Action o)) : Prop :=
  ∀ pre post, actions = pre ++ post → ∀ results m,
    (runAll (act b) pre).run (.init o) = .ret (results, m) → m.enclave.Coherent

/-- The action is a call of `RSA_new` that succeeds. -/
def NewRsaSucceeds (m : Machine o) : Action o → Prop
  | .advance n => ∃ th rest, m.threads[n]? = some th ∧ th.rest = .rsaNew :: rest ∧
      th.results.rsaNew = true
  | _ => False

variable {b}

theorem run_act_advance (n : ℕ) (m : Machine o) :
    (act b (.advance n)).run m = match m.threads[n]? with
      | none => .ret ((), m)
      | some th => (th.next m.enclave >>= fun p => .ret ((), ⟨p.2, m.threads.set n p.1⟩)) := rfl

/-! ## As long as no key is begun -/

/-- Neither global is set, and no key generation has come past its first test of `keypair`. -/
structure Unset (m : Machine o) : Prop where
  keypair : m.enclave.keypair = none
  evpPkey : m.enclave.evpPkey = none
  threads : ∀ th ∈ m.threads, th.rest = [] ∨ ∃ n < 4, th.rest = KeyGenStmt.body.drop n

theorem unset_init : Unset (.init o) :=
  ⟨rfl, rfl, fun _ hth => absurd hth List.not_mem_nil⟩

/-- One statement of a key generation that has not begun a key. -/
theorem Thread.next_of_unset {th th' : Thread o} {s s' : Enclave} {n : ℕ} (hn : n < 4)
    (hrest : th.rest = KeyGenStmt.body.drop n) (hkeypair : s.keypair = none)
    (hevp : s.evpPkey = none)
    (hno : ∀ rest, th.rest = .rsaNew :: rest → th.results.rsaNew = false)
    (hrun : th.next s = .ret (th', s')) :
    s'.keypair = none ∧ s'.evpPkey = none ∧
      (th'.rest = [] ∨ ∃ n < 4, th'.rest = KeyGenStmt.body.drop n) := by
  obtain ⟨r, rest, f⟩ := th
  simp only at hrest hno
  subst hrest
  interval_cases n
  · cases hbn : r.bnNew with
    | false =>
        simp [Thread.next, KeyGenStmt.body, KeyGenStmt.exec, hbn] at hrun
        obtain ⟨rfl, rfl⟩ := hrun
        exact ⟨hkeypair, hevp, .inl rfl⟩
    | true =>
        simp [Thread.next, KeyGenStmt.body, KeyGenStmt.exec, hbn] at hrun
        obtain ⟨rfl, rfl⟩ := hrun
        exact ⟨hkeypair, hevp, .inr ⟨1, by decide, rfl⟩⟩
  · cases hword : r.bnSetWord with
    | false =>
        simp [Thread.next, KeyGenStmt.body, KeyGenStmt.exec, hword] at hrun
        obtain ⟨rfl, rfl⟩ := hrun
        exact ⟨hkeypair, hevp, .inl rfl⟩
    | true =>
        simp [Thread.next, KeyGenStmt.body, KeyGenStmt.exec, hword] at hrun
        obtain ⟨rfl, rfl⟩ := hrun
        exact ⟨hkeypair, hevp, .inr ⟨2, by decide, rfl⟩⟩
  · have hrsa : r.rsaNew = false := hno _ rfl
    simp [Thread.next, KeyGenStmt.body, KeyGenStmt.exec, hrsa] at hrun
    obtain ⟨rfl, rfl⟩ := hrun
    exact ⟨rfl, hevp, .inr ⟨3, by decide, rfl⟩⟩
  · -- the test of `keypair` ends it
    simp [Thread.next, KeyGenStmt.body, KeyGenStmt.exec, hkeypair] at hrun
    obtain ⟨rfl, rfl⟩ := hrun
    exact ⟨hkeypair, hevp, .inl rfl⟩

/-- No call sets the globals by itself. -/
theorem unset_call {m m' : Machine o} {x : NifCall o × Memory} {u : Unit} (h : Unset m)
    (hrun : (act b (.call x)).run m = .ret (u, m')) : Unset m' := by
  obtain ⟨call, mem⟩ := x
  by_cases hcall : ∀ r, call ≠ .rsaKeyGen r
  · have hstep : ∃ t s', (nif o b (call, mem)).run m.enclave = .ret (t, s') ∧
        m' = { m with enclave := s' } := by
      cases call with
      | rsaKeyGen r => exact absurd rfl (hcall r)
      | _ =>
          obtain ⟨⟨t, s'⟩, hnif, hm⟩ := Outcome.bind_eq_ret_iff.mp hrun
          exact ⟨t, s', hnif, (Outcome.pair_inj hm).2.symm⟩
    obtain ⟨t, s', hnif, rfl⟩ := hstep
    have hsame := nif_sameKeys hcall hnif
    exact ⟨hsame.keypair.trans h.keypair, hsame.evpPkey.trans h.evpPkey, h.threads⟩
  · obtain ⟨r, rfl⟩ : ∃ r, call = .rsaKeyGen r := by simpa using hcall
    obtain ⟨-, rfl⟩ := Outcome.pair_inj hrun
    refine ⟨h.keypair, h.evpPkey, ?_⟩
    intro th hth
    rcases List.mem_append.mp hth with hth | hth
    · exact h.threads th hth
    · obtain rfl := List.mem_singleton.mp hth
      exact .inr ⟨0, by decide, rfl⟩

/-- Nor does a statement of a key generation, unless it begins a key. -/
theorem unset_advance {m m' : Machine o} {n : ℕ} {u : Unit} (h : Unset m)
    (hno : ¬ NewRsaSucceeds m (.advance n)) (hrun : (act b (.advance n)).run m = .ret (u, m')) :
    Unset m' := by
  rw [run_act_advance] at hrun
  cases hth : m.threads[n]? with
  | none =>
      simp only [hth] at hrun
      obtain ⟨-, rfl⟩ := Outcome.pair_inj hrun
      exact h
  | some th =>
      simp only [hth] at hrun
      obtain ⟨⟨th', s'⟩, hnext, hm⟩ := Outcome.bind_eq_ret_iff.mp hrun
      obtain ⟨-, rfl⟩ := Outcome.pair_inj hm
      have hkeep : s'.keypair = none ∧ s'.evpPkey = none ∧
          (th'.rest = [] ∨ ∃ n < 4, th'.rest = KeyGenStmt.body.drop n) := by
        rcases h.threads th (List.mem_of_getElem? hth) with hdone | ⟨i, hi, hrest⟩
        · simp only [Thread.next, hdone] at hnext
          obtain ⟨rfl, rfl⟩ := Outcome.pair_inj hnext
          exact ⟨h.keypair, h.evpPkey, .inl hdone⟩
        · refine Thread.next_of_unset hi hrest h.keypair h.evpPkey ?_ hnext
          intro rest hrsa
          by_contra hyes
          exact hno ⟨th, rest, hth, hrsa, by simpa using hyes⟩
      refine ⟨hkeep.1, hkeep.2.1, ?_⟩
      intro th₁ hth₁
      rcases List.mem_or_eq_of_mem_set hth₁ with hold | rfl
      · exact h.threads th₁ hold
      · exact hkeep.2.2

/-- Every action keeps the globals unset, unless it begins a key. -/
theorem unset_act {m m' : Machine o} {a : Action o} {u : Unit} (h : Unset m)
    (hno : ¬ NewRsaSucceeds m a) (hrun : (act b a).run m = .ret (u, m')) : Unset m' := by
  cases a with
  | call x => exact unset_call h hrun
  | advance n => exact unset_advance h hno hrun

/-- Once `RSA_new` has succeeded, `keypair` denotes a key that has not been generated. -/
theorem not_coherent_of_newRsaSucceeds {m : Machine o} {a : Action o}
    (h : NewRsaSucceeds m a) :
    ∃ u m', (act b a).run m = .ret (u, m') ∧ ¬ m'.enclave.Coherent := by
  cases a with
  | call x => exact h.elim
  | advance n =>
      obtain ⟨⟨r, rest', f⟩, rest, hth, hrest, hrsa⟩ := h
      simp only at hrest hrsa
      subst hrest
      let s' : Enclave := { m.enclave with
        keypair := some m.enclave.rsas.length, rsas := m.enclave.rsas ++ [⟨1, none⟩] }
      refine ⟨(), ⟨s', m.threads.set n ⟨r, rest, f⟩⟩, ?_, ?_⟩
      · have hexec : (KeyGenStmt.rsaNew.exec o r f).run m.enclave = .ret (some f, s') := by
          simp [KeyGenStmt.exec, hrsa, s']
        simp [run_act_advance, hth, Thread.next, hexec]
      · rintro (⟨hnone, -⟩ | ⟨i, j, obj, k, hi, -, -, hobj, -, hk⟩)
        · cases hnone
        · obtain rfl := Option.some.inj hi
          have hlast : s'.rsas[m.enclave.rsas.length]? = some ⟨1, none⟩ := by simp [s']
          rw [hlast] at hobj
          obtain rfl := Option.some.inj hobj
          cases hk

/-- The runs in which the two globals are coherent throughout: those in which no call of
`RSA_new` succeeds. -/
theorem coherentRun_iff (b : Build) (actions : List (Action o)) :
    CoherentRun b actions ↔
      Along (act b) (fun m a => ¬ NewRsaSucceeds m a) (.init o) actions := by
  constructor
  · intro h
    refine along_iff_forall_split.mpr ?_
    intro pre a post heq results m hrun hnew
    obtain ⟨u, m', hact, hbad⟩ := not_coherent_of_newRsaSucceeds (b := b) hnew
    refine hbad (h (pre ++ [a]) post ?_ (results ++ [u]) m' ?_)
    · rw [heq, List.append_assoc, List.singleton_append]
    · exact runAll_append_singleton_ret hrun hact
  · rintro h pre post rfl results m hrun
    have hunset : Unset m := by
      refine Along.inv_of_run ?_ unset_init h.of_append hrun
      exact fun m a u m' hm hno hact => unset_act hm hno hact
    exact .inl ⟨hunset.keypair, hunset.evpPkey⟩

/-- A first key generation that fails at `RSA_generate_key_ex`: it has returned, and `keypair`
denotes an empty key while `evp_pkey` is unset. -/
theorem not_coherentRun_generate :
    ¬ CoherentRun .sgx [.call (.rsaKeyGen
        (⟨1, true, true, true, none, true, true, sampleRand⟩ : KeyGenResults reference),
        ⟨fun _ => 0, fun _ => 0⟩),
      .advance 0, .advance 0, .advance 0, .advance 0, .advance 0] := by
  intro h
  let s : Enclave := { Enclave.init with keypair := some 0, rsas := [⟨1, none⟩], bns := 1 }
  let r : KeyGenResults reference := ⟨1, true, true, true, none, true, true, sampleRand⟩
  have hcoh := h _ [] (List.append_nil _).symm [(), (), (), (), (), ()]
    ⟨s, [⟨r, [], .start⟩]⟩ ?_
  · rcases hcoh with ⟨hnone, -⟩ | ⟨i, j, obj, k, -, hj, -⟩
    · exact nomatch hnone
    · exact nomatch hj
  · rfl

end SgxErlang.Rsa
