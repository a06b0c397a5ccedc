import SgxErlang.Lib.Run
import SgxErlang.Rsa.Fidelity

/-!
# What the status of a key generation says

`rsa_key_gen` should return 0 exactly when it has installed a new key, and should leave the
old one in place otherwise, so that the key in use is always the one of the last call that
returned 0.  But the status is that of `OPENSSL_init_crypto`, and the function that does
the work overwrites the globals on its way to an error.

## Main results

* `installsNew_iff`, `unchanged_iff` — what one key generation does to the globals.
* `atomic_iff` — the runs in which the status can be relied on.
-/

namespace SgxErlang.Rsa

variable {o : OpenSSL}

/-! ## One key generation -/

/-- A new key has been installed in both globals. -/
structure InstallsNew (s s' : Enclave) (k : Key) : Prop where
  installed : s'.Installed k
  keypair : s'.keypair = some s.rsas.length
  evpPkey : s'.evpPkey = some s.pkeys.length

/-- The key globals are as they were. -/
structure Unchanged (s s' : Enclave) : Prop where
  keypair : s'.keypair = s.keypair
  evpPkey : s'.evpPkey = s.evpPkey

namespace KeyGenResults

/-- No step of the key generation fails, and the new key is not freed at its end. -/
structure Completes (r : KeyGenResults o) : Prop where
  bnNew : r.bnNew = true
  bnSetWord : r.bnSetWord = true
  rsaNew : r.rsaNew = true
  generate : r.generate.isSome = true
  evpNew : r.evpNew = true
  assign : r.assign = true
  layout : o.declaredLayout = false

/-- The key generation fails before it changes a global. -/
def StopsEarly (r : KeyGenResults o) (s : Enclave) : Prop :=
  r.bnNew = false ∨ r.bnSetWord = false ∨ (r.rsaNew = false ∧ s.keypair = none)

theorem Completes.finishes {r : KeyGenResults o} (h : r.Completes) : r.finishes = true := by
  simp [KeyGenResults.finishes, h.bnNew, h.bnSetWord, h.rsaNew, h.generate, h.evpNew]

theorem completes_of_finishes {r : KeyGenResults o} (h : r.finishes = true)
    (hassign : r.assign = true) (hlayout : o.declaredLayout = false) : r.Completes := by
  simp only [KeyGenResults.finishes, Bool.and_eq_true] at h
  obtain ⟨⟨⟨⟨hbn, hword⟩, hrsa⟩, hgen⟩, hevp⟩ := h
  exact ⟨hbn, hword, hrsa, hgen, hevp, hassign, hlayout⟩

/-- The state after a key generation that completes. -/
theorem after_of_completes {r : KeyGenResults o} (h : r.Completes) {k : Key}
    (hk : r.generate = some k) (s : Enclave) : InstallsNew s (r.after s) k := by
  rw [after_of_finishes h.finishes]
  refine ⟨⟨?_, ?_⟩, rfl, rfl⟩
  · simp [Enclave.keypairView, Enclave.viewRsa, finalRsa, h.layout, hk]
  · simp [Enclave.pkeyView, Enclave.viewRsa, finalRsa, h.assign, h.layout, hk]

theorem installsNew_iff (r : KeyGenResults o) {s : Enclave} (hs : s.WellFormed) :
    (∃ k, r.generate = some k ∧ InstallsNew s (r.after s) k) ↔ r.Completes := by
  constructor
  · rintro ⟨k, -, ⟨hkeypair, hpkey⟩, -, hnew⟩
    have hold : s.evpPkey ≠ some s.pkeys.length := fun h => (hs.evpPkey_lt _ h).ne rfl
    have hfinishes : r.finishes = true := finishes_of_evpPkey_after hold hnew
    rw [after_of_finishes hfinishes] at hkeypair hpkey
    have hassign : r.assign = true := by
      by_contra h
      simp [Enclave.pkeyView, h] at hpkey
    refine completes_of_finishes hfinishes hassign ?_
    -- had the key been freed, `keypair` would dangle
    by_contra hlayout
    have hfreed : o.declaredLayout = true := by simpa using hlayout
    simp [Enclave.keypairView, Enclave.viewRsa, finalRsa, hassign, hfreed] at hkeypair
  · intro h
    obtain ⟨k, hk⟩ := Option.isSome_iff_exists.mp h.generate
    exact ⟨k, hk, after_of_completes h hk s⟩

/-- A key generation that fails early leaves the keys as they were. -/
theorem sameKeys_of_stopsEarly {r : KeyGenResults o} {s : Enclave} (h : r.StopsEarly s) :
    s.SameKeys (r.after s) := by
  unfold KeyGenResults.after
  split_ifs with hbn hword hrsa
  · exact ⟨rfl, rfl, rfl, rfl⟩
  · exact ⟨rfl, rfl, rfl, rfl⟩
  · rcases h with h | h | ⟨-, hnone⟩
    · simp [h] at hbn
    · simp [h] at hword
    · exact ⟨hnone.symm, rfl, rfl, rfl⟩
  all_goals
    rcases h with h | h | ⟨h, -⟩
    · simp [h] at hbn
    · simp [h] at hword
    · simp [h] at hrsa

theorem unchanged_iff (r : KeyGenResults o) {s : Enclave} (hs : s.WellFormed) :
    Unchanged s (r.after s) ↔ r.StopsEarly s := by
  constructor
  · rintro ⟨hkeypair, -⟩
    rw [keypair_after] at hkeypair
    split_ifs at hkeypair with hkept hrsa
    · have hearly : r.bnNew = false ∨ r.bnSetWord = false := by simpa using hkept
      exact hearly.imp_right Or.inl
    · exact .inr (.inr ⟨by simpa using hrsa, hkeypair.symm⟩)
    · exact absurd rfl (hs.keypair_lt _ hkeypair.symm).ne
  · intro h
    have hsame := sameKeys_of_stopsEarly h
    exact ⟨hsame.keypair, hsame.evpPkey⟩

end KeyGenResults

/-! ## One call -/

/-- What the status should say: a key generation returns 0 exactly if it has installed a new
key, and has changed nothing if it returns anything else; no other call changes the keys. -/
def Truthful (b : Build) (s : Enclave) (x : NifCall o × Memory) : Prop :=
  ∀ t s', (nif o b x).run s = .ret (t, s') →
    match x.1 with
    | .rsaKeyGen r =>
        (t = .int 0 ↔ ∃ k, r.generate = some k ∧ InstallsNew s s' k) ∧
          (t ≠ .int 0 → Unchanged s s')
    | _ => Unchanged s s'

/-- What it takes for that: `OPENSSL_init_crypto` succeeds together with all other steps, or
fails together with one before the first change.  Without SGX the second kind of failure does
not return. -/
def Accountable (b : Build) (s : Enclave) (x : NifCall o × Memory) : Prop :=
  match x.1 with
  | .rsaKeyGen r =>
      (r.initCrypto = 1 ∧ r.Completes) ∨
        (r.initCrypto ≠ 1 ∧ (b = .noSgx ∨ r.StopsEarly s))
  | _ => True

/-- What has not been changed has not been installed. -/
theorem Unchanged.not_installsNew {s s' : Enclave} (h : Unchanged s s') (hs : s.WellFormed)
    (k : Key) : ¬ InstallsNew s s' k := by
  intro hnew
  exact (hs.keypair_lt _ (h.keypair.symm.trans hnew.keypair)).ne rfl

theorem installsNew_congr {s s₀ : Enclave} (h : s.SameKeys s₀) (s' : Enclave) (k : Key) :
    InstallsNew s₀ s' k ↔ InstallsNew s s' k := by
  constructor
  · exact fun hnew => ⟨hnew.1, h.rsas ▸ hnew.2, h.pkeys ▸ hnew.3⟩
  · exact fun hnew => ⟨hnew.1, h.rsas ▸ hnew.2, h.pkeys ▸ hnew.3⟩

theorem unchanged_congr {s s₀ : Enclave} (h : s.SameKeys s₀) (s' : Enclave) :
    Unchanged s₀ s' ↔ Unchanged s s' := by
  constructor
  · exact fun hsame => ⟨hsame.1.trans h.keypair, hsame.2.trans h.evpPkey⟩
  · exact fun hsame => ⟨hsame.1.trans h.keypair.symm, hsame.2.trans h.evpPkey.symm⟩

/-- A key generation that returned 0. -/
theorem truthful_of_zero {s s₀ : Enclave} {r : KeyGenResults o} {mem : Memory} {b : Build}
    (hs : s.WellFormed) (hkeys : s.SameKeys s₀)
    (hrun : (nif o b (.rsaKeyGen r, mem)).run s = .ret (.int 0, r.after s₀)) :
    Truthful b s (.rsaKeyGen r, mem) ↔ r.Completes := by
  rw [← r.installsNew_iff (hkeys.wellFormed hs)]
  simp [Truthful, hrun, installsNew_congr hkeys]

/-- A key generation that returned something else. -/
theorem truthful_of_one {s s₀ : Enclave} {r : KeyGenResults o} {mem : Memory} {b : Build}
    (hs : s.WellFormed) (hkeys : s.SameKeys s₀)
    (hrun : (nif o b (.rsaKeyGen r, mem)).run s = .ret (.int 1, r.after s₀)) :
    Truthful b s (.rsaKeyGen r, mem) ↔ r.StopsEarly s₀ := by
  rw [← r.unchanged_iff (hkeys.wellFormed hs), unchanged_congr hkeys]
  constructor
  · intro h
    exact (h (.int 1) _ hrun).2 (by simp)
  · intro h t s' hrun'
    obtain ⟨rfl, rfl⟩ := Outcome.pair_inj (hrun.symm.trans hrun')
    refine ⟨⟨fun h1 => absurd h1 (by simp), ?_⟩, fun _ => h⟩
    rintro ⟨k, -, hk⟩
    exact absurd hk (h.not_installsNew hs k)

theorem truthful_iff {b : Build} {s : Enclave} (hs : s.WellFormed) (x : NifCall o × Memory) :
    Truthful b s x ↔ Accountable b s x := by
  obtain ⟨call, mem⟩ := x
  by_cases hcall : ∀ r, call ≠ .rsaKeyGen r
  · have hframe : ∀ t s', (nif o b (call, mem)).run s = .ret (t, s') → Unchanged s s' := by
      intro t s' hrun
      have hsame := nif_sameKeys hcall hrun
      exact ⟨hsame.keypair, hsame.evpPkey⟩
    cases call with
    | rsaKeyGen r => exact absurd rfl (hcall r)
    | _ => exact ⟨fun _ => trivial, fun _ => hframe⟩
  · obtain ⟨r, rfl⟩ : ∃ r, call = .rsaKeyGen r := by simpa using hcall
    by_cases hinit : r.initCrypto = 1
    · have hrun := run_rsaKeyGenNif_of_init (b := b) (fun _ => hinit) s
      rw [if_pos hinit] at hrun
      rw [truthful_of_zero hs (sameKeys_keyGenStart b s) hrun]
      simp [Accountable, hinit]
    · cases b with
      | sgx =>
          have hrun := run_rsaKeyGenNif_of_init (b := .sgx) (r := r)
            (fun h => absurd h (by decide)) s
          rw [if_neg hinit] at hrun
          rw [truthful_of_one hs (sameKeys_keyGenStart .sgx s) hrun]
          -- the callback flag does not matter to the keys
          simp [Accountable, hinit, KeyGenResults.StopsEarly, Build.keyGenStart]
      | noSgx =>
          have hrun := run_rsaKeyGenNif_noSgx hinit s
          simp [Truthful, Accountable, nif, hrun, hinit]

/-! ## Whole runs -/

/-- The key of the most recent call that returned 0. -/
def keyAfter (key : Option Key) : (NifCall o × Memory) × Term → Option Key
  | ((.rsaKeyGen r, _), .int 0) => r.generate
  | _ => key

/-- The key of the last key generation that returned 0, if any did. -/
def lastReturned (calls : List (NifCall o × Memory)) (results : List Term) : Option Key :=
  (calls.zip results).foldl keyAfter none

/-- The key in use: in both globals, or none in either. -/
def InUse (s : Enclave) : Option Key → Prop
  | none => s.keypair = none ∧ s.evpPkey = none
  | some k => s.Installed k

theorem InUse.of_sameKeys {s s' : Enclave} {key : Option Key} (h : InUse s key)
    (hsame : s.SameKeys s') : InUse s' key := by
  cases key with
  | none => exact ⟨hsame.keypair.trans h.1, hsame.evpPkey.trans h.2⟩
  | some k => exact (hsame.installed_iff k).mpr h

/-- A key generation that meets the condition leaves the key in use that its status says. -/
theorem inUse_after {s : Enclave} {r : KeyGenResults o} {key : Option Key}
    (h : InUse s key) (t : Enclave) (hkeys : s.SameKeys t) :
    (r.Completes → InUse (r.after t) r.generate) ∧
      (r.StopsEarly t → InUse (r.after t) key) := by
  constructor
  · intro hdone
    obtain ⟨k, hk⟩ := Option.isSome_iff_exists.mp hdone.generate
    rw [hk]
    exact (KeyGenResults.after_of_completes hdone hk t).installed
  · intro hstop
    exact h.of_sameKeys (hkeys.trans (KeyGenResults.sameKeys_of_stopsEarly hstop))

/-- What one call does to the key in use. -/
theorem inUse_step {b : Build} {s s' : Enclave} {x : NifCall o × Memory} {t : Term}
    {key : Option Key} (hx : Accountable b s x) (h : InUse s key)
    (hrun : (nif o b x).run s = .ret (t, s')) : InUse s' (keyAfter key (x, t)) := by
  obtain ⟨call, mem⟩ := x
  by_cases hcall : ∀ r, call ≠ .rsaKeyGen r
  · have hsame := h.of_sameKeys (nif_sameKeys hcall hrun)
    cases call with
    | rsaKeyGen r => exact absurd rfl (hcall r)
    | _ => exact hsame
  · obtain ⟨r, rfl⟩ : ∃ r, call = .rsaKeyGen r := by simpa using hcall
    have hafter := inUse_after (r := r) h _ (sameKeys_keyGenStart b s)
    obtain ⟨hreturns, rfl⟩ := leaves_of_nif hrun
    have hgen := (run_rsaKeyGenNif_of_init hreturns s).symm.trans hrun
    obtain ⟨rfl, -⟩ := Outcome.pair_inj hgen
    rcases hx with ⟨hinit, hdone⟩ | ⟨hinit, hfail⟩
    · rw [if_pos hinit]
      exact hafter.1 hdone
    · rw [if_neg hinit]
      cases b with
      | sgx => exact hafter.2 (hfail.resolve_left (by decide))
      | noSgx => exact absurd (hreturns rfl) hinit

/-- Every call keeps the pointers in range. -/
theorem wellFormed_nif {b : Build} {s s' : Enclave} {x : NifCall o × Memory} {t : Term}
    (hs : s.WellFormed) (hrun : (nif o b x).run s = .ret (t, s')) : s'.WellFormed := by
  obtain ⟨call, mem⟩ := x
  by_cases hcall : ∀ r, call ≠ .rsaKeyGen r
  · exact (nif_sameKeys hcall hrun).wellFormed hs
  · obtain ⟨r, rfl⟩ : ∃ r, call = .rsaKeyGen r := by simpa using hcall
    obtain ⟨-, rfl⟩ := leaves_of_nif hrun
    exact WellFormed.after ((sameKeys_keyGenStart b s).wellFormed hs) r

/-- Along a run from a state in which `key` is in use. -/
theorem inUse_run {b : Build} {s s' : Enclave} {key : Option Key} {calls : List (NifCall o × Memory)}
    {results : List Term} (h : InUse s key) (hcalls : Along (nif o b) (Accountable b) s calls)
    (hrun : (runAll (nif o b) calls).run s = .ret (results, s')) :
    InUse s' ((calls.zip results).foldl keyAfter key) := by
  induction calls generalizing s key results with
  | nil =>
      obtain ⟨rfl, rfl⟩ := Outcome.pair_inj hrun
      exact h
  | cons x xs ih =>
      obtain ⟨t, s₁, rest, hx, hxs, rfl⟩ := runAll_cons_eq_ret_iff.mp hrun
      exact ih (inUse_step hcalls.1 h hx) (hcalls.2 t s₁ hx) hxs

/-- The status of every key generation says what it did, and the key in use after any number
of calls is the one of the last key generation that returned 0. -/
def Atomic (b : Build) (calls : List (NifCall o × Memory)) : Prop :=
  Along (nif o b) (Truthful b) .init calls ∧
    ∀ pre post, calls = pre ++ post → ∀ results s',
      (runAll (nif o b) pre).run .init = .ret (results, s') →
      InUse s' (lastReturned pre results)

/-- The runs in which the status can be relied on. -/
theorem atomic_iff (b : Build) (calls : List (NifCall o × Memory)) :
    Atomic b calls ↔ Along (nif o b) (Accountable b) .init calls := by
  have hcongr : Along (nif o b) (Truthful b) .init calls ↔
      Along (nif o b) (Accountable b) .init calls :=
    along_congr (fun s x t s' hs hrun => wellFormed_nif hs hrun) (fun s x hs => truthful_iff hs x)
      Enclave.wellFormed_init
  constructor
  · exact fun h => hcongr.mp h.1
  · intro h
    refine ⟨hcongr.mpr h, ?_⟩
    rintro pre post rfl results s' hrun
    exact inUse_run ⟨rfl, rfl⟩ h.of_append hrun

/-- A key generation that fails at `RSA_generate_key_ex`: it returns 0. -/
theorem not_atomic_generate : ¬ Atomic .sgx [(.rsaKeyGen
    (⟨1, true, true, true, none, true, true, sampleRand⟩ : KeyGenResults reference),
    ⟨fun _ => 0, fun _ => 0⟩)] := by
  intro h
  obtain ⟨k, hk, -⟩ := ((h.1.1 (.int 0) _ (run_rsaKeyGenNif (b := .sgx) _ _)).1.mp rfl)
  exact nomatch hk

end SgxErlang.Rsa
