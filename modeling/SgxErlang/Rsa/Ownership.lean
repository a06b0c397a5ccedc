import SgxErlang.Rsa.Interface

/-!
# Who owns the key material

`rsa_key_gen` allocates a BIGNUM, an RSA object and an `EVP_PKEY`, and two DER buffers on
the way; `ecall_rsa_get_pubkey` allocates one.  After each call the live objects should be
the current RSA key and the `EVP_PKEY` that owns it, and nothing else.

The code falls short of that on both sides.  No exit of `rsa_key_gen` destroys the old pair,
the early ones keep the BIGNUM, and with the declared layout of `evp_pkey_st` the last
statement but one destroys the new RSA object, although the `EVP_PKEY` has taken it over.

## Main definitions

* `EnclaveCall`, `onCall` — the functions of `Enclave.cpp`, called with any arguments.
* `Owned` — the objects that are live are the ones in use.

## Main results

* `ledger_of_run` — what a run has left on the heap.
* `owned_run_iff` — the runs in which nothing is lost and nothing dangles.
-/

namespace SgxErlang.Rsa

variable (o : OpenSSL)

/-- A call of a function of `Enclave.cpp`. -/
inductive EnclaveCall where
  | increment
  | returnA
  | rsaKeyGen (r : KeyGenResults o)
  | out (call : OutCall o)

variable {o}

/-- One call: the value it returns. -/
def onCall (b : Build) : EnclaveCall o → Exec Enclave ℤ
  | .increment => do
      ecallIncrement
      pure 0
  | .returnA => do
      let ret ← ecallReturnA
      pure ret.toInt
  | .rsaKeyGen r => ecallRsaKeyGen o b r
  | .out call => do
      let w ← call.ecall
      pure w.status

namespace Enclave

/-- The RSA object at a position is live. -/
def LiveRsa (s : Enclave) (i : ℕ) : Prop := ∃ obj, s.rsas[i]? = some obj ∧ obj.refs ≠ 0

/-- The `EVP_PKEY` at a position is live; nothing frees one. -/
def LivePkey (s : Enclave) (j : ℕ) : Prop := ∃ obj, s.pkeys[j]? = some obj

/-- The live objects are exactly those in use: the RSA object that `keypair` refers to, and
the `EVP_PKEY` that `evp_pkey` refers to and that owns it; or none at all. -/
structure Owned (s : Enclave) : Prop where
  rsa : ∀ i, s.LiveRsa i ↔ s.keypair = some i
  pkey : ∀ j, s.LivePkey j ↔ s.evpPkey = some j
  owner : ∀ j, s.evpPkey = some j → s.pkeys[j]? = some ⟨true, s.keypair⟩ ∧ s.keypair ≠ none
  unowned : s.evpPkey = none → s.keypair = none
  bns : s.bns = 0
  bufs : s.bufs = 0

/-- Nothing has been allocated. -/
structure Pristine (s : Enclave) : Prop where
  keypair : s.keypair = none
  evpPkey : s.evpPkey = none
  rsas : s.rsas = []
  pkeys : s.pkeys = []
  bns : s.bns = 0
  bufs : s.bufs = 0

theorem pristine_init : Enclave.init.Pristine := ⟨rfl, rfl, rfl, rfl, rfl, rfl⟩

/-- The number of live RSA objects. -/
def liveRsas (s : Enclave) : ℕ := s.rsas.countP fun obj => obj.refs != 0

end Enclave

/-- The contract at one call: if it returns, the live objects are those in use. -/
def OwnedAfter (b : Build) (s : Enclave) (call : EnclaveCall o) : Prop :=
  ∀ t s', (onCall b call).run s = .ret (t, s') → s'.Owned

/-- The condition: a key generation does not get beyond its first allocation. -/
def AllocatesNothing (_s : Enclave) (call : EnclaveCall o) : Prop :=
  ∀ r, call = .rsaKeyGen r → r.bnNew = false

/-! ## What a key generation leaves on the heap -/

namespace KeyGenResults

variable (r : KeyGenResults o)

/-- It returns early, with the BIGNUM allocated. -/
def leavesBn : Bool := r.bnNew && !r.finishes

/-- It leaves a live RSA object. -/
def leavesRsa : Bool :=
  r.bnNew && r.bnSetWord && r.rsaNew && !(r.finishes && r.assign && o.declaredLayout)

/-- What a key generation adds to the heap; it takes nothing away. -/
theorem ledger_after (s : Enclave) :
    (r.after s).bns = s.bns + r.leavesBn.toNat ∧
      (r.after s).liveRsas = s.liveRsas + r.leavesRsa.toNat ∧
      (r.after s).pkeys.length = s.pkeys.length + r.finishes.toNat := by
  unfold after leavesBn leavesRsa finishes
  cases r.bnNew
  · exact ⟨rfl, rfl, rfl⟩
  cases r.bnSetWord
  · exact ⟨rfl, rfl, rfl⟩
  cases r.rsaNew
  · exact ⟨rfl, rfl, rfl⟩
  cases hgen : r.generate with
  | none => simp [Enclave.liveRsas]
  | some k =>
      cases r.evpNew
      · simp [Enclave.liveRsas]
      · cases hassign : r.assign <;> cases hlayout : o.declaredLayout <;>
          simp [Enclave.liveRsas, finalRsa, hassign, hlayout]

end KeyGenResults

/-! ## The calls -/

/-- The states that a call may leave when it returns. -/
def EnclaveCall.Leaves (b : Build) (s s' : Enclave) : EnclaveCall o → Prop
  | .increment => s' = { s with a := s.a + 1 }
  | .returnA => s' = s
  | .rsaKeyGen r => s' = r.after (b.keyGenStart s)
  | .out _ => (∃ r : o.Rand, s' = s.afterPrints r) ∨ s' = s ∨ s' = { s with bufs := s.bufs + 1 }

theorem run_onCall_keyGen (b : Build) (r : KeyGenResults o) (s : Enclave) :
    (onCall b (.rsaKeyGen r)).run s =
      .ret (if r.initCrypto = 1 then 0 else 1, r.after (b.keyGenStart s)) := by
  rw [onCall, run_ecallRsaKeyGen]
  cases b <;> rfl

theorem leaves_of_onCall {b : Build} {call : EnclaveCall o} {s s' : Enclave} {t : ℤ}
    (hrun : (onCall b call).run s = .ret (t, s')) : call.Leaves b s s' := by
  cases call with
  | increment => exact (Outcome.pair_inj hrun).2.symm
  | returnA => exact (Outcome.pair_inj hrun).2.symm
  | rsaKeyGen r => exact (Outcome.pair_inj ((run_onCall_keyGen b r s).symm.trans hrun)).2.symm
  | out call =>
      rw [onCall, StateT.run_bind] at hrun
      obtain ⟨⟨w, s₁⟩, he, hrest⟩ := Outcome.bind_eq_ret_iff.mp hrun
      obtain ⟨-, rfl⟩ := Outcome.pair_inj hrest
      cases call with
      | sign p len r => exact .inl ⟨r, AppliesTo.state_eq (run_ecallRsaSign r p len) he⟩
      | encrypt p len r => exact .inl ⟨r, AppliesTo.state_eq (run_ecallRsaEncrypt r p len) he⟩
      | getPubkey len heap r => exact .inr (state_of_getPubkey he)

/-! ## The ledger -/

/-- The key generations among some calls. -/
def keyGens (calls : List (EnclaveCall o)) : List (KeyGenResults o) :=
  calls.filterMap fun
    | .rsaKeyGen r => some r
    | _ => none

/-- What a run leaves on the heap: a BIGNUM for every key generation that returns early, an
RSA object for every one that has not destroyed its own, and an `EVP_PKEY` for every one that
gets to its end. -/
structure Ledger (s s' : Enclave) (gens : List (KeyGenResults o)) : Prop where
  bns : s'.bns = s.bns + gens.countP KeyGenResults.leavesBn
  rsas : s'.liveRsas = s.liveRsas + gens.countP KeyGenResults.leavesRsa
  pkeys : s'.pkeys.length = s.pkeys.length + gens.countP KeyGenResults.finishes

theorem countP_singleton_eq_toNat {α : Type} (p : α → Bool) (x : α) :
    [x].countP p = (p x).toNat := by
  cases hp : p x <;> simp [hp]

/-- What one call adds. -/
theorem ledger_of_onCall {b : Build} {call : EnclaveCall o} {s s' : Enclave} {t : ℤ}
    (hrun : (onCall b call).run s = .ret (t, s')) : Ledger s s' (keyGens [call]) := by
  have hleaves := leaves_of_onCall hrun
  cases call with
  | increment =>
      rw [show s' = _ from hleaves]
      exact ⟨rfl, rfl, rfl⟩
  | returnA =>
      rw [show s' = _ from hleaves]
      exact ⟨rfl, rfl, rfl⟩
  | rsaKeyGen r =>
      have hgens : keyGens [EnclaveCall.rsaKeyGen r] = [r] := rfl
      obtain ⟨hbns, hrsas, hpkeys⟩ := r.ledger_after (b.keyGenStart s)
      rw [show s' = _ from hleaves, hgens]
      refine ⟨?_, ?_, ?_⟩
      · rw [hbns, countP_singleton_eq_toNat]
        cases b <;> rfl
      · rw [hrsas, countP_singleton_eq_toNat]
        cases b <;> rfl
      · rw [hpkeys, countP_singleton_eq_toNat]
        cases b <;> rfl
  | out call =>
      rcases hleaves with ⟨r, rfl⟩ | rfl | rfl
      · exact ⟨rfl, rfl, rfl⟩
      · exact ⟨rfl, rfl, rfl⟩
      · exact ⟨rfl, rfl, rfl⟩

/-- What a run has left on the heap: nothing is ever taken off it again. -/
theorem ledger_of_run {b : Build} {calls : List (EnclaveCall o)} {s s' : Enclave} {ts : List ℤ}
    (hrun : (runAll (onCall b) calls).run s = .ret (ts, s')) : Ledger s s' (keyGens calls) := by
  induction calls generalizing s ts with
  | nil =>
      obtain ⟨-, rfl⟩ := Outcome.pair_inj hrun
      exact ⟨rfl, rfl, rfl⟩
  | cons call calls ih =>
      obtain ⟨t, s₁, rest, hcall, hrest, -⟩ := runAll_cons_eq_ret_iff.mp hrun
      have hone := ledger_of_onCall hcall
      have hmore := ih hrest
      have hgens : keyGens (call :: calls) = keyGens [call] ++ keyGens calls :=
        List.filterMap_append (l := [call])
      rw [hgens]
      refine ⟨?_, ?_, ?_⟩
      · rw [hmore.bns, hone.bns, List.countP_append, Nat.add_assoc]
      · rw [hmore.rsas, hone.rsas, List.countP_append, Nat.add_assoc]
      · rw [hmore.pkeys, hone.pkeys, List.countP_append, Nat.add_assoc]

/-! ## Runs in which nothing is lost -/

namespace Enclave.Pristine

variable {s s' : Enclave}

theorem owned (hs : s.Pristine) : s.Owned where
  rsa := by simp [LiveRsa, hs.rsas, hs.keypair]
  pkey := by simp [LivePkey, hs.pkeys, hs.evpPkey]
  owner := by simp [hs.evpPkey]
  unowned := fun _ => hs.keypair
  bns := hs.bns
  bufs := hs.bufs

/-- A call that meets the condition leaves the heap empty, if it returns. -/
theorem step (hs : s.Pristine) {b : Build} {call : EnclaveCall o}
    (hcall : AllocatesNothing s call) {t : ℤ} (hrun : (onCall b call).run s = .ret (t, s')) :
    s'.Pristine := by
  have hleaves := leaves_of_onCall hrun
  cases call with
  | increment =>
      rw [show s' = _ from hleaves]
      exact ⟨hs.1, hs.2, hs.3, hs.4, hs.5, hs.6⟩
  | returnA =>
      rw [show s' = _ from hleaves]
      exact hs
  | rsaKeyGen r =>
      have hafter : r.after (b.keyGenStart s) = b.keyGenStart s := by
        simp [KeyGenResults.after, hcall r rfl]
      rw [show s' = _ from hleaves, hafter]
      cases b <;> exact ⟨hs.1, hs.2, hs.3, hs.4, hs.5, hs.6⟩
  | out call =>
      have hkeypair : s.keypairView = .unset := by
        rw [Enclave.keypairView, hs.keypair]
        rfl
      have hpkey : s.pkeyView = .unset := by
        rw [Enclave.pkeyView, hs.evpPkey]
      -- without a key the operations fault, and there is no public key to read
      cases call with
      | sign p len r => simp [onCall, OutCall.ecall, run_ecallRsaSign, hkeypair] at hrun
      | encrypt p len r => simp [onCall, OutCall.ecall, run_ecallRsaEncrypt, hkeypair] at hrun
      | getPubkey len heap r =>
          simp only [onCall, OutCall.ecall, StateT.run_bind, run_ecallRsaGetPubkey, if_pos hpkey]
            at hrun
          obtain ⟨-, rfl⟩ := Outcome.pair_inj hrun
          exact hs

/-- A key generation that gets beyond its first allocation loses track of something. -/
theorem not_owned_after (hs : s.Pristine) (hlayout : o.declaredLayout = true)
    {r : KeyGenResults o} (hbn : r.bnNew = true) : ¬ (r.after s).Owned := by
  intro howned
  have hledger := (r.ledger_after s).1
  rw [howned.bns, hs.bns, KeyGenResults.leavesBn, hbn] at hledger
  have hfin : r.finishes = true := by
    cases hf : r.finishes with
    | true => rfl
    | false => simp [hf] at hledger
  have hafter := KeyGenResults.after_of_finishes hfin s
  have hkeypair : (r.after s).keypair = some 0 := by simp [hafter, hs.rsas]
  have hevp : (r.after s).evpPkey = some 0 := by simp [hafter, hs.pkeys]
  cases hassign : r.assign with
  | true =>
      -- the new RSA object has been destroyed
      obtain ⟨obj, hobj, hrefs⟩ := (howned.rsa 0).mpr hkeypair
      have hrsas : (r.after s).rsas = [⟨0, r.generate⟩] := by
        simp [hafter, hs.rsas, KeyGenResults.finalRsa, hassign, hlayout]
      rw [hrsas, List.getElem?_cons_zero] at hobj
      exact hrefs (congrArg RsaObj.refs (Option.some.inj hobj)).symm
  | false =>
      -- the `EVP_PKEY` has not taken it over
      have hpkeys : (r.after s).pkeys = [⟨false, none⟩] := by simp [hafter, hs.pkeys, hassign]
      have hobj := (howned.owner 0 hevp).1
      rw [hpkeys, List.getElem?_cons_zero] at hobj
      exact Bool.false_ne_true (congrArg PkeyObj.typed (Option.some.inj hobj))

/-- The contract holds at a call exactly if the condition does. -/
theorem ownedAfter_iff (hs : s.Pristine) (hlayout : o.declaredLayout = true) {b : Build}
    (call : EnclaveCall o) : OwnedAfter b s call ↔ AllocatesNothing s call := by
  constructor
  · rintro h r rfl
    by_contra hbn
    have hstart : (b.keyGenStart s).Pristine := by
      cases b <;> exact ⟨hs.1, hs.2, hs.3, hs.4, hs.5, hs.6⟩
    have hbn' : r.bnNew = true := by simpa using hbn
    exact hstart.not_owned_after hlayout hbn' (h _ _ (run_onCall_keyGen b r s))
  · intro hcall t s' hrun
    exact (hs.step hcall hrun).owned

end Enclave.Pristine

/-- **Nothing is lost and nothing dangles exactly as long as no key generation gets beyond its
first allocation.** -/
theorem owned_run_iff (hlayout : o.declaredLayout = true) (b : Build)
    (calls : List (EnclaveCall o)) :
    Along (onCall b) (OwnedAfter b) .init calls ↔
      Along (onCall b) AllocatesNothing .init calls := by
  have hstep : ∀ (s : Enclave) (call : EnclaveCall o) (t : ℤ) (s' : Enclave), s.Pristine →
      True → AllocatesNothing s call → (onCall b call).run s = .ret (t, s') → s'.Pristine := by
    intro s call t s' hs _ hcall hrun
    exact hs.step hcall hrun
  have hiff : ∀ (s : Enclave) (call : EnclaveCall o), s.Pristine → True →
      (OwnedAfter b s call ↔ AllocatesNothing s call) := by
    intro s call hs _
    exact hs.ownedAfter_iff hlayout call
  exact along_congr_of hstep hiff Enclave.pristine_init
    (Along.of_forall (fun _ _ => trivial) _ _)

/-- The library, if `evp_pkey_st` has the layout that `Enclave.cpp` declares. -/
def declared : OpenSSL := { reference with declaredLayout := true }

theorem owned_run_bnFailure :
    let calls : List (EnclaveCall declared) := [.increment,
      .rsaKeyGen ⟨1, false, true, true, none, true, true, sampleRand⟩,
      .out (.getPubkey 526 (fun _ => 0) ⟨sampleRand, true, sampleRand⟩)]
    Along (onCall .sgx) (OwnedAfter .sgx) .init calls := by
  intro calls
  refine (owned_run_iff rfl .sgx calls).mpr ?_
  refine ⟨?_, fun _ _ _ => ⟨?_, fun _ _ _ => ⟨?_, fun _ _ _ => trivial⟩⟩⟩
  · intro r h
    cases h
  · intro r h
    cases h
    rfl
  · intro r h
    cases h

/-- One key generation in which every step succeeds: `keypair` refers to an object that has
been destroyed. -/
theorem not_owned_run_keyGen :
    let calls : List (EnclaveCall declared) :=
      [.rsaKeyGen ⟨1, true, true, true, some sampleKey, true, true, sampleRand⟩]
    ¬ Along (onCall .sgx) (OwnedAfter .sgx) .init calls ∧
      ¬ Along (onCall .noSgx) (OwnedAfter .noSgx) .init calls := by
  intro calls
  have hlost : ∀ b : Build, ¬ Along (onCall b) (OwnedAfter b) .init calls := by
    intro b h
    exact absurd ((Enclave.pristine_init.ownedAfter_iff rfl _).mp h.1 _ rfl) Bool.noConfusion
  exact ⟨hlost .sgx, hlost .noSgx⟩

end SgxErlang.Rsa
