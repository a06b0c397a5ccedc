import SgxErlang.Rsa.Enclave

/-!
# What key generation leaves behind

Called alone, `rsa_key_gen` returns from every state.  `KeyGenResults.after` is the state
it leaves, one case for each of its exits.

What the other functions can see of the heap is the key that `keypair` refers to and the
one that `evp_pkey` holds.  `KeyView` and `PkeyView` are these two; they are all that
signing, encrypting and reading the public key depend on.

## Main results

* `run_rsaKeyGen` — what `rsa_key_gen` does.
* `run_ecallRsaSign`, `run_ecallRsaEncrypt`, `run_ecallRsaGetPubkey` — the ecalls, in terms
  of the views.
* `KeyGenResults.views_after` — key generation, in terms of the views.
-/

namespace SgxErlang.Rsa

variable (o : OpenSSL)

/-! ## The statements -/

theorem run_i2dPublicKey_untyped {s : Enclave} {j : ℕ} {ptr : Option ℕ}
    (h : s.pkeys[j]? = some ⟨false, ptr⟩) (r : o.Rand) :
    (i2dPublicKey o r (some j)).run s = .ret (none, s) := by
  simp [i2dPublicKey, run_derefPkey h]

theorem run_i2dPublicKey_typed {s : Enclave} {i j : ℕ} {obj : RsaObj}
    (h : s.pkeys[j]? = some ⟨true, some i⟩) (hi : s.rsas[i]? = some obj) (hrefs : obj.refs ≠ 0)
    (r : o.Rand) : (i2dPublicKey o r (some j)).run s =
      .ret (o.i2dPublicKey r (obj.key.map Key.pub), s) := by
  simp [i2dPublicKey, run_derefPkey h, run_derefRsa hi hrefs]

theorem run_i2dPrivateKey_untyped {s : Enclave} {j : ℕ} {ptr : Option ℕ}
    (h : s.pkeys[j]? = some ⟨false, ptr⟩) (r : o.Rand) :
    (i2dPrivateKey o r (some j)).run s = .ret (none, s) := by
  simp [i2dPrivateKey, run_derefPkey h]

theorem run_i2dPrivateKey_typed {s : Enclave} {i j : ℕ} {obj : RsaObj}
    (h : s.pkeys[j]? = some ⟨true, some i⟩) (hi : s.rsas[i]? = some obj) (hrefs : obj.refs ≠ 0)
    (r : o.Rand) : (i2dPrivateKey o r (some j)).run s = .ret (o.i2dPrivateKey r obj.key, s) := by
  simp [i2dPrivateKey, run_derefPkey h, run_derefRsa hi hrefs]

/-! ### `rsa_key_gen` -/

variable {o}

theorem runStmts_next {r : KeyGenResults o} {st : KeyGenStmt} {rest : List KeyGenStmt}
    {f g : Frame} {s t : Enclave} (h : (st.exec o r f).run s = .ret (some g, t)) :
    (runStmts o r (st :: rest) f).run s = (runStmts o r rest g).run t := by
  simp [runStmts, h]

theorem runStmts_return {r : KeyGenResults o} {st : KeyGenStmt} {rest : List KeyGenStmt}
    {f : Frame} {s t : Enclave} (h : (st.exec o r f).run s = .ret (none, t)) :
    (runStmts o r (st :: rest) f).run s = .ret ((), t) := by
  simp [runStmts, h]

namespace KeyGenResults

variable (r : KeyGenResults o)

/-- The RSA object that a key generation leaves, once it has generated a key: `RSA_free`
destroys it if the `EVP_PKEY` is read as the source declares it. -/
def finalRsa : RsaObj := ⟨if r.assign && o.declaredLayout then 0 else 1, r.generate⟩

/-- The state that `rsa_key_gen` leaves. -/
def after (s : Enclave) : Enclave :=
  if !r.bnNew then s
  else if !r.bnSetWord then { s with bns := s.bns + 1 }
  else if !r.rsaNew then { s with bns := s.bns + 1, keypair := none }
  else if r.generate.isNone then
    { s with
      bns := s.bns + 1, keypair := some s.rsas.length, rsas := s.rsas ++ [⟨1, none⟩]
      uprints := s.uprints ++ printed o s r.rand }
  else if !r.evpNew then
    { s with
      bns := s.bns + 1, keypair := some s.rsas.length, rsas := s.rsas ++ [⟨1, r.generate⟩]
      uprints := s.uprints ++ printed o s r.rand, evpPkey := none }
  else
    { s with
      a := 0, keypair := some s.rsas.length, rsas := s.rsas ++ [r.finalRsa]
      uprints := s.uprints ++ printed o s r.rand, evpPkey := some s.pkeys.length
      pkeys := s.pkeys ++ [if r.assign then ⟨true, some s.rsas.length⟩ else ⟨false, none⟩] }

/-- The key generation gets to its end. -/
def finishes : Bool := r.bnNew && r.bnSetWord && r.rsaNew && r.generate.isSome && r.evpNew

/-- The state after a key generation that gets to its end. -/
theorem after_of_finishes {r : KeyGenResults o} (h : r.finishes = true) (s : Enclave) :
    r.after s = { s with
      a := 0, keypair := some s.rsas.length, rsas := s.rsas ++ [r.finalRsa]
      uprints := s.uprints ++ printed o s r.rand, evpPkey := some s.pkeys.length
      pkeys := s.pkeys ++ [if r.assign then ⟨true, some s.rsas.length⟩ else ⟨false, none⟩] } := by
  simp only [finishes, Bool.and_eq_true, Option.isSome_iff_exists] at h
  obtain ⟨⟨⟨⟨hbn, hword⟩, hrsa⟩, k, hgen⟩, hevp⟩ := h
  simp [after, hbn, hword, hrsa, hgen, hevp]

/-- The counter after a key generation. -/
theorem a_after (s : Enclave) : (r.after s).a = if r.finishes then 0 else s.a := by
  unfold after finishes
  cases r.bnNew
  · rfl
  cases r.bnSetWord
  · rfl
  cases r.rsaNew
  · rfl
  cases r.generate with
  | none => rfl
  | some k => cases r.evpNew <;> rfl

/-- `keypair` after a key generation. -/
theorem keypair_after (s : Enclave) : (r.after s).keypair =
    if !r.bnNew || !r.bnSetWord then s.keypair
    else if !r.rsaNew then none else some s.rsas.length := by
  unfold after
  cases r.bnNew
  · rfl
  cases r.bnSetWord
  · rfl
  cases r.rsaNew
  · rfl
  cases r.generate with
  | none => rfl
  | some k => cases r.evpNew <;> rfl

/-- `evp_pkey` after a key generation. -/
theorem evpPkey_after (s : Enclave) : (r.after s).evpPkey =
    if !r.bnNew || !r.bnSetWord || !r.rsaNew || r.generate.isNone then s.evpPkey
    else if !r.evpNew then none else some s.pkeys.length := by
  unfold after
  cases r.bnNew
  · rfl
  cases r.bnSetWord
  · rfl
  cases r.rsaNew
  · rfl
  cases r.generate with
  | none => rfl
  | some k => cases r.evpNew <;> rfl

/-- Only a key generation that gets to its end has a new `EVP_PKEY` to show for it. -/
theorem finishes_of_evpPkey_after {r : KeyGenResults o} {s : Enclave}
    (hold : s.evpPkey ≠ some s.pkeys.length) (hnew : (r.after s).evpPkey = some s.pkeys.length) :
    r.finishes = true := by
  rw [evpPkey_after] at hnew
  split_ifs at hnew with hkept hevp
  · exact absurd hnew hold
  · simp only [Bool.not_eq_true, Bool.or_eq_false_iff, Bool.not_eq_false',
      Option.isNone_eq_false_iff]
      at hkept hevp
    obtain ⟨⟨⟨hbn, hword⟩, hrsa⟩, hgen⟩ := hkept
    simp [finishes, hbn, hword, hrsa, hgen, hevp]

end KeyGenResults

/-- `evp_pkey` can be encoded: its type has not been set, or it holds a live RSA object. -/
def Enclave.Encodable (s : Enclave) : Prop :=
  ∃ j obj, s.evpPkey = some j ∧ s.pkeys[j]? = some obj ∧
    (obj.typed = false ∨ ∃ i rsa, obj = ⟨true, some i⟩ ∧ s.rsas[i]? = some rsa ∧ rsa.refs ≠ 0)

variable {s : Enclave}

/-- Encoding a half of the key does not look at the buffers, and leaves the state as it was. -/
theorem exists_run_of_encodable (h : s.Encodable)
    {encode : Option ℕ → Exec Enclave (Option (List Byte))} {f : Option Key → Option (List Byte)}
    (huntyped : ∀ {t : Enclave} {j : ℕ} {ptr : Option ℕ}, t.pkeys[j]? = some ⟨false, ptr⟩ →
      (encode (some j)).run t = .ret (none, t))
    (htyped : ∀ {t : Enclave} {i j : ℕ} {obj : RsaObj}, t.pkeys[j]? = some ⟨true, some i⟩ →
      t.rsas[i]? = some obj → obj.refs ≠ 0 → (encode (some j)).run t = .ret (f obj.key, t)) :
    ∃ out, ∀ n, (encode s.evpPkey).run { s with bufs := n } = .ret (out, { s with bufs := n }) := by
  obtain ⟨j, ⟨typed, ptr⟩, hj, hobj, hcase⟩ := h
  rw [hj]
  rcases hcase with hfalse | ⟨i, rsa, heq, hi, hrefs⟩
  · obtain rfl : typed = false := hfalse
    exact ⟨none, fun n => huntyped hobj⟩
  · rw [heq] at hobj
    exact ⟨f rsa.key, fun n => htyped hobj hi hrefs⟩

theorem exists_run_i2dPublicKey (h : s.Encodable) (r : o.Rand) :
    ∃ der, ∀ n, (i2dPublicKey o r s.evpPkey).run { s with bufs := n } =
      .ret (der, { s with bufs := n }) :=
  exists_run_of_encodable h (f := fun key => o.i2dPublicKey r (key.map Key.pub))
    (fun hobj => run_i2dPublicKey_untyped o hobj r)
    (fun hobj hi hrefs => run_i2dPublicKey_typed o hobj hi hrefs r)

theorem exists_run_i2dPrivateKey (h : s.Encodable) (r : o.Rand) :
    ∃ der, ∀ n, (i2dPrivateKey o r s.evpPkey).run { s with bufs := n } =
      .ret (der, { s with bufs := n }) :=
  exists_run_of_encodable h (fun hobj => run_i2dPrivateKey_untyped o hobj r)
    (fun hobj hi hrefs => run_i2dPrivateKey_typed o hobj hi hrefs r)

/-- Printing the two halves of a key leaves the state as it was. -/
theorem run_printKeys (h : s.Encodable) (r : KeyGenResults o) (rest : List KeyGenStmt)
    (f : Frame) :
    ∃ f', (runStmts o r (.lenPublic :: .derPublic :: .printPublic :: .lenPrivate ::
      .derPrivate :: .printPrivate :: rest) f).run s = (runStmts o r rest f').run s := by
  obtain ⟨pub, hpub⟩ := exists_run_i2dPublicKey h r.rand
  obtain ⟨priv, hpriv⟩ := exists_run_i2dPrivateKey h r.rand
  have hpub' : derLen pub ≤ derLen pub + 1 := by omega
  have hpriv' : derLen priv ≤ derLen priv + 1 := by omega
  refine ⟨⟨derLen priv, priv.getD []⟩, ?_⟩
  rw [runStmts_next (t := { s with bufs := s.bufs + 1 }) (g := { f with len := derLen pub }),
    runStmts_next (t := { s with bufs := s.bufs + 1 }) (g := ⟨derLen pub, pub.getD []⟩),
    runStmts_next (t := s) (g := ⟨derLen pub, pub.getD []⟩),
    runStmts_next (t := { s with bufs := s.bufs + 1 }) (g := ⟨derLen priv, pub.getD []⟩),
    runStmts_next (t := { s with bufs := s.bufs + 1 }) (g := ⟨derLen priv, priv.getD []⟩),
    runStmts_next (t := s) (g := ⟨derLen priv, priv.getD []⟩)]
  · simp [KeyGenStmt.exec]
  · simp [KeyGenStmt.exec, hpriv, hpriv']
  · simp [KeyGenStmt.exec, hpriv s.bufs]
  · simp [KeyGenStmt.exec]
  · simp [KeyGenStmt.exec, hpub, hpub']
  · simp [KeyGenStmt.exec, hpub s.bufs]

/-- The exponent has been allocated and set. -/
theorem run_exponent (r : KeyGenResults o) (hbn : r.bnNew = true) (hword : r.bnSetWord = true)
    (rest : List KeyGenStmt) (f : Frame) (s : Enclave) :
    (runStmts o r (.bnNew :: .bnSetWord :: rest) f).run s =
      (runStmts o r rest f).run { s with bns := s.bns + 1 } := by
  rw [runStmts_next (g := f) (t := { s with bns := s.bns + 1 }),
    runStmts_next (g := f) (t := { s with bns := s.bns + 1 })]
  · simp [KeyGenStmt.exec, hword]
  · simp [KeyGenStmt.exec, hbn]

/-- The RSA object has been allocated. -/
theorem run_allocated (r : KeyGenResults o) (hrsa : r.rsaNew = true) (rest : List KeyGenStmt)
    (f : Frame) (s : Enclave) :
    (runStmts o r (.rsaNew :: .checkKeypair :: rest) f).run s =
      (runStmts o r rest f).run { s with
        keypair := some s.rsas.length, rsas := s.rsas ++ [⟨1, none⟩] } := by
  rw [runStmts_next (g := f) (t := { s with
      keypair := some s.rsas.length, rsas := s.rsas ++ [⟨1, none⟩] }),
    runStmts_next (g := f)]
  · simp [KeyGenStmt.exec]
  · simp [KeyGenStmt.exec, hrsa]

/-- The key has been generated. -/
theorem run_generated (r : KeyGenResults o) (hrsa : r.rsaNew = true) {k : Key}
    (hgen : r.generate = some k) (rest : List KeyGenStmt) (f : Frame) (s : Enclave) :
    (runStmts o r (.rsaNew :: .checkKeypair :: .generate :: rest) f).run s =
      (runStmts o r rest f).run { s with
        keypair := some s.rsas.length, rsas := s.rsas ++ [⟨1, r.generate⟩]
        uprints := s.uprints ++ printed o s r.rand } := by
  rw [run_allocated r hrsa, runStmts_next (g := f)]
  simp [KeyGenStmt.exec, derefRsa, hgen, printed]

/-- The statements after the generation of the key, if `EVP_PKEY_new` succeeds. -/
theorem run_installed (r : KeyGenResults o) (hevp : r.evpNew = true) (f : Frame) (s : Enclave) :
    (runStmts o r (.evpNew :: .checkPkey :: .assign :: .lenPublic :: .derPublic ::
      .printPublic :: .lenPrivate :: .derPrivate :: .printPrivate :: [.bnFree, .rsaFree, .clearA])
      f).run { s with
        bns := s.bns + 1, keypair := some s.rsas.length, rsas := s.rsas ++ [⟨1, r.generate⟩] } =
      .ret ((), { s with
        a := 0, keypair := some s.rsas.length, rsas := s.rsas ++ [r.finalRsa]
        evpPkey := some s.pkeys.length
        pkeys := s.pkeys ++ [if r.assign then ⟨true, some s.rsas.length⟩ else ⟨false, none⟩] }) := by
  let s₁ : Enclave := { s with
    bns := s.bns + 1, keypair := some s.rsas.length, rsas := s.rsas ++ [⟨1, r.generate⟩]
    evpPkey := some s.pkeys.length, pkeys := s.pkeys ++ [⟨false, none⟩] }
  let obj : PkeyObj := if r.assign then ⟨true, some s.rsas.length⟩ else ⟨false, none⟩
  let s₂ : Enclave := { s₁ with pkeys := s.pkeys ++ [obj] }
  have henc : s₂.Encodable := by
    refine ⟨s.pkeys.length, obj, rfl, by simp [s₂], ?_⟩
    cases hassign : r.assign with
    | false => exact .inl (by simp [obj, hassign])
    | true =>
        exact .inr ⟨s.rsas.length, ⟨1, r.generate⟩, by simp [obj, hassign], by simp [s₂, s₁],
          Nat.one_ne_zero⟩
  obtain ⟨f', hprint⟩ := run_printKeys henc r [.bnFree, .rsaFree, .clearA] f
  rw [runStmts_next (g := f) (t := s₁), runStmts_next (g := f) (t := s₁),
    runStmts_next (g := f) (t := s₂), hprint,
    runStmts_next (g := f') (t := { s₂ with bns := s.bns }),
    runStmts_next (g := f') (t := { s₂ with bns := s.bns, rsas := s.rsas ++ [r.finalRsa] }),
    runStmts_next (g := f') (t := { s₂ with
      a := 0, bns := s.bns, rsas := s.rsas ++ [r.finalRsa] })]
  · rfl
  · simp [KeyGenStmt.exec]
  · cases hassign : r.assign <;> cases hlayout : o.declaredLayout <;>
      simp [KeyGenStmt.exec, derefPkey, derefRsa, rsaFree, KeyGenResults.finalRsa, s₂, s₁, obj,
        hassign, hlayout]
  · simp [KeyGenStmt.exec, s₂, s₁]
  · cases hassign : r.assign <;>
      simp [KeyGenStmt.exec, derefPkey, rsaFree, s₂, s₁, obj, hassign]
  · simp [KeyGenStmt.exec, s₁]
  · simp [KeyGenStmt.exec, hevp, s₁]

/-- What `rsa_key_gen` does from any state: it returns. -/
theorem run_rsaKeyGen (r : KeyGenResults o) (s : Enclave) :
    (rsaKeyGen o r).run s = .ret ((), r.after s) := by
  rw [rsaKeyGen, KeyGenStmt.body]
  by_cases hbn : r.bnNew = true
  case neg =>
    rw [runStmts_return (t := s)]
    · simp [KeyGenResults.after, hbn]
    · simp [KeyGenStmt.exec, hbn]
  by_cases hword : r.bnSetWord = true
  case neg =>
    rw [runStmts_next (g := .start) (t := { s with bns := s.bns + 1 }),
      runStmts_return (t := { s with bns := s.bns + 1 })]
    · simp [KeyGenResults.after, hbn, hword]
    · simp [KeyGenStmt.exec, hword]
    · simp [KeyGenStmt.exec, hbn]
  rw [run_exponent r hbn hword]
  by_cases hrsa : r.rsaNew = true
  case neg =>
    rw [runStmts_next (g := .start) (t := { s with bns := s.bns + 1, keypair := none }),
      runStmts_return (t := { s with bns := s.bns + 1, keypair := none })]
    · simp [KeyGenResults.after, hbn, hword, hrsa]
    · simp [KeyGenStmt.exec]
    · simp [KeyGenStmt.exec, hrsa]
  cases hgen : r.generate with
  | none =>
      rw [run_allocated r hrsa, runStmts_return (t := r.after s)]
      simp [KeyGenStmt.exec, KeyGenResults.after, derefRsa, hbn, hword, hrsa, hgen, printed]
  | some k =>
      rw [run_generated r hrsa hgen]
      by_cases hevp : r.evpNew = true
      case neg =>
        rw [runStmts_next (g := .start) (t := { s with
            bns := s.bns + 1, keypair := some s.rsas.length, rsas := s.rsas ++ [⟨1, r.generate⟩]
            uprints := s.uprints ++ printed o s r.rand, evpPkey := none }),
          runStmts_return (t := r.after s)]
        · simp [KeyGenStmt.exec, KeyGenResults.after, hbn, hword, hrsa, hgen, hevp]
        · simp [KeyGenStmt.exec, hevp, printed]
      have hrun := run_installed r hevp .start { s with
        uprints := s.uprints ++ printed o s r.rand }
      refine hrun.trans ?_
      simp [KeyGenResults.after, hbn, hword, hrsa, hgen, hevp]

/-! ## What can be seen of the heap -/

/-- What a pointer to an RSA object refers to: nothing, an object that is gone, or a live
object with its key. -/
inductive KeyView where
  | unset
  | dangling
  | live (key : Option Key)
  deriving DecidableEq

/-- What a pointer to an `EVP_PKEY` refers to. -/
inductive PkeyView where
  | unset
  | dangling
  | untyped
  | holds (rsa : KeyView)
  deriving DecidableEq

namespace Enclave

/-- What a pointer to an RSA object refers to. -/
def viewRsa (s : Enclave) : Option ℕ → KeyView
  | none => .unset
  | some i =>
      match s.rsas[i]? with
      | some obj => if obj.refs = 0 then .dangling else .live obj.key
      | none => .dangling

/-- What `keypair` refers to. -/
def keypairView (s : Enclave) : KeyView := s.viewRsa s.keypair

/-- What `evp_pkey` refers to. -/
def pkeyView (s : Enclave) : PkeyView :=
  match s.evpPkey with
  | none => .unset
  | some j =>
      match s.pkeys[j]? with
      | some obj => if obj.typed then .holds (s.viewRsa obj.pkey) else .untyped
      | none => .dangling

/-- The pointers point to objects that have been allocated. -/
structure WellFormed (s : Enclave) : Prop where
  keypair_lt : ∀ i, s.keypair = some i → i < s.rsas.length
  evpPkey_lt : ∀ j, s.evpPkey = some j → j < s.pkeys.length
  pkeys_lt : ∀ obj ∈ s.pkeys, ∀ i, obj.pkey = some i → i < s.rsas.length

theorem wellFormed_init : Enclave.init.WellFormed := ⟨nofun, nofun, nofun⟩

/-- A completely generated key is installed: `keypair` and `evp_pkey` both refer to it. -/
def Installed (s : Enclave) (k : Key) : Prop :=
  s.keypairView = .live (some k) ∧ s.pkeyView = .holds (.live (some k))

/-- The state after an OpenSSL call that printed something. -/
def afterPrints (s : Enclave) (r : o.Rand) : Enclave :=
  { s with uprints := s.uprints ++ printed o s r }

@[simp] theorem keypairView_afterPrints (s : Enclave) (r : o.Rand) :
    (s.afterPrints r).keypairView = s.keypairView := rfl
@[simp] theorem pkeyView_afterPrints (s : Enclave) (r : o.Rand) :
    (s.afterPrints r).pkeyView = s.pkeyView := rfl

end Enclave

/-- `keypair`, as an operation uses it. -/
theorem run_derefKeypair (s : Enclave) :
    derefKeypair.run s = match s.keypairView with
      | .unset => .crashed
      | .dangling => .undefined
      | .live key => .ret (key, s) := by
  cases hkey : s.keypair with
  | none => simp [derefKeypair, Enclave.keypairView, Enclave.viewRsa, hkey]
  | some i =>
      cases hobj : s.rsas[i]? with
      | none => simp [derefKeypair, derefRsa, Enclave.keypairView, Enclave.viewRsa, hkey, hobj]
      | some obj =>
          by_cases hrefs : obj.refs = 0 <;>
            simp [derefKeypair, derefRsa, Enclave.keypairView, Enclave.viewRsa, hkey, hobj, hrefs]

/-- What an operation that writes its output comes to, as an ecall. -/
def OpResult.outcome (res : OpResult) (s : Enclave) : Outcome (Written × Enclave) :=
  match res with
  | .done out => .ret (⟨0, out⟩, s)
  | .failed => .ret (⟨1, []⟩, s)
  | .fault => .crashed

/-- An ecall that applies an operation to `keypair`. -/
def AppliesTo (e : Exec Enclave Written) (r : o.Rand) (op : Option Key → OpResult) : Prop :=
  ∀ s, e.run s = match s.keypairView with
    | .unset => .crashed
    | .dangling => .undefined
    | .live key => (op key).outcome (s.afterPrints r)

theorem AppliesTo.state_eq {e : Exec Enclave Written} {r : o.Rand} {op : Option Key → OpResult}
    (he : AppliesTo e r op) {s s' : Enclave} {w : Written} (h : e.run s = .ret (w, s')) :
    s' = s.afterPrints r := by
  rw [he s] at h
  cases hview : s.keypairView with
  | unset => simp [hview] at h
  | dangling => simp [hview] at h
  | live key =>
      simp only [hview] at h
      cases hop : op key with
      | done out =>
          rw [hop] at h
          exact (Outcome.pair_inj h).2.symm
      | failed =>
          rw [hop] at h
          exact (Outcome.pair_inj h).2.symm
      | fault => simp [hop, OpResult.outcome] at h

theorem run_ecallRsaSign (r : o.Rand) (p : Ptr) (len : BitVec 32) (s : Enclave) :
    (ecallRsaSign o r p len).run s = match s.keypairView with
      | .unset => .crashed
      | .dangling => .undefined
      | .live key => (o.rsaSign r key (p.read sizeofPtr)).outcome (s.afterPrints r) := by
  rw [ecallRsaSign, StateT.run_bind, run_derefKeypair]
  cases s.keypairView with
  | unset => rfl
  | dangling => rfl
  | live key =>
      simp only [Outcome.ret_bind, StateT.run_bind, run_opensslPrints]
      cases o.rsaSign r key (p.read sizeofPtr) <;> rfl

theorem run_ecallRsaEncrypt (r : o.Rand) (p : Ptr) (len : BitVec 32) (s : Enclave) :
    (ecallRsaEncrypt o r p len).run s = match s.keypairView with
      | .unset => .crashed
      | .dangling => .undefined
      | .live key => (o.rsaPublicEncrypt r (key.map Key.pub) (p.read sizeofPtr)).outcome
          (s.afterPrints r) := by
  rw [ecallRsaEncrypt, StateT.run_bind, run_derefKeypair]
  cases s.keypairView with
  | unset => rfl
  | dangling => rfl
  | live key =>
      simp only [Outcome.ret_bind, StateT.run_bind, run_opensslPrints]
      cases hres : o.rsaPublicEncrypt r (key.map Key.pub) (p.read sizeofPtr) with
      | failed => rfl
      | fault => rfl
      | done out =>
          -- the output has the expected size, whatever the key
          have hlen : out.length = 512 := o.rsaPublicEncrypt_length hres
          simp [hlen, OpResult.outcome, Enclave.afterPrints]

/-- The status of a key generation says nothing about the key. -/
theorem run_ecallRsaKeyGen (b : Build) (r : KeyGenResults o) (s : Enclave) :
    (ecallRsaKeyGen o b r).run s = .ret (if r.initCrypto = 1 then 0 else 1,
      r.after (match b with
        | .sgx => { s with printCB := true }
        | .noSgx => s)) := by
  cases b <;> simp [ecallRsaKeyGen, run_rsaKeyGen]

/-- The encoding of the public key that `evp_pkey` holds, as `i2d_PublicKey` gives it. -/
def PkeyView.encoding (v : PkeyView) (r : o.Rand) : Outcome (Option (List Byte)) :=
  match v with
  | .unset => .crashed
  | .dangling => .undefined
  | .untyped => .ret none
  | .holds .unset => .ret (some [])
  | .holds .dangling => .undefined
  | .holds (.live key) => .ret (o.i2dPublicKey r (key.map Key.pub))

/-- What an encoding comes to is decided by the view, up to the encoding itself. -/
theorem PkeyView.encoding_cases (v : PkeyView) (hset : v ≠ .unset) :
    (∀ r : o.Rand, v.encoding r = .undefined) ∨
      ∃ f : o.Rand → Option (List Byte), (∀ r, v.encoding r = .ret (f r)) ∧
        ∀ r r' der der', f r = some der → f r' = some der' → der = der' := by
  cases v with
  | unset => exact absurd rfl hset
  | dangling => exact .inl fun _ => rfl
  | untyped => exact .inr ⟨fun _ => none, fun _ => rfl, fun _ _ _ _ h => nomatch h⟩
  | holds view =>
      cases view with
      | unset =>
          exact .inr ⟨fun _ => some [], fun _ => rfl, fun _ _ _ _ h h' => by
            rw [← Option.some.inj h, ← Option.some.inj h']⟩
      | dangling => exact .inl fun _ => rfl
      | live key =>
          exact .inr ⟨fun r => o.i2dPublicKey r (key.map Key.pub), fun _ => rfl,
            fun _ _ _ _ => o.i2dPublicKey_unique⟩

/-- A reading that is defined. -/
theorem encoding_ne_undefined {v : PkeyView} (h : v ≠ .dangling) (h' : v ≠ .holds .dangling)
    (r : o.Rand) : v.encoding r ≠ .undefined := by
  cases v with
  | unset => exact nofun
  | dangling => exact absurd rfl h
  | untyped => exact nofun
  | holds v =>
      cases v with
      | unset => exact nofun
      | dangling => exact absurd rfl h'
      | live key => exact nofun

/-- Where the encoding has the length that is asked for, the second `i2d_PublicKey` does not
fail either. -/
def PkeyView.Filled (v : PkeyView) (r : PubkeyResults o) (len : ℤ) : Prop :=
  ∀ der, v.encoding r.lenRand = .ret (some der) → der.length = len →
    v.encoding r.derRand ≠ .ret none

/-- What has been written then is the encoding. -/
theorem PkeyView.Filled.eq_some {v : PkeyView} {r : PubkeyResults o} {len : ℤ}
    (h : v.Filled r len) {der : List Byte} {written : Option (List Byte)}
    (hder : v.encoding r.lenRand = .ret (some der)) (hlen : der.length = len)
    (hwritten : v.encoding r.derRand = .ret written) : written = some der := by
  have hset : v ≠ .unset := by
    rintro rfl
    exact nomatch hder
  rcases v.encoding_cases hset with hundef | ⟨f, hf, hunique⟩
  · exact absurd (hundef r.lenRand) (by simp [hder])
  · cases written with
    | none => exact absurd hwritten (h der hder hlen)
    | some out =>
        have hlen := Outcome.ret.inj ((hf r.lenRand).symm.trans hder)
        have hout := Outcome.ret.inj ((hf r.derRand).symm.trans hwritten)
        rw [hunique _ _ _ _ hout hlen]

theorem run_i2dPublicKey (r : o.Rand) (s : Enclave) :
    (i2dPublicKey o r s.evpPkey).run s = (fun der => (der, s)) <$> s.pkeyView.encoding r := by
  cases hevp : s.evpPkey with
  | none => simp [i2dPublicKey, derefPkey, Enclave.pkeyView, PkeyView.encoding, hevp]
  | some j =>
      cases hobj : s.pkeys[j]? with
      | none => simp [i2dPublicKey, derefPkey, Enclave.pkeyView, PkeyView.encoding, hevp, hobj]
      | some obj =>
          obtain ⟨typed, pkey⟩ := obj
          rw [i2dPublicKey, StateT.run_bind, run_derefPkey hobj, Outcome.ret_bind]
          simp only [Enclave.pkeyView, hevp, hobj]
          cases typed with
          | false => simp [PkeyView.encoding]
          | true =>
              cases pkey with
              | none => simp [PkeyView.encoding, Enclave.viewRsa]
              | some i =>
                  cases hrsa : s.rsas[i]? with
                  | none => simp [PkeyView.encoding, Enclave.viewRsa, derefRsa, hrsa]
                  | some rsa =>
                      by_cases hrefs : rsa.refs = 0 <;>
                        simp [PkeyView.encoding, Enclave.viewRsa, derefRsa, hrsa, hrefs]

/-- What `ecall_rsa_get_pubkey` comes to, by what its two calls of `i2d_PublicKey` yield. -/
def PubkeyResults.copied (r : PubkeyResults o) (heap : ℕ → Byte) (len : ℤ)
    (der written : Option (List Byte)) (s : Enclave) : Outcome (Written × Enclave) :=
  let left : Enclave := { s with
    bufs := s.bufs + if der.isSome && r.malloc || !(written.getD []).isEmpty then 1 else 0 }
  if derLen der ≠ len then .ret (⟨2, []⟩, left)
  else if der.isSome && r.malloc then .ret (⟨0, Ptr.read ⟨written.getD [], heap⟩ len.toNat⟩, s)
  else if len = 0 then .ret (⟨0, []⟩, left)
  else .crashed

/-- What `memcpy` copies when the length is the requested one. -/
theorem PubkeyResults.copied_of_length (r : PubkeyResults o) (heap : ℕ → Byte) {len : ℤ}
    {der : List Byte} (hlen : (der.length : ℤ) = len) (written : Option (List Byte))
    (s : Enclave) : r.copied heap len (some der) written s =
      if r.malloc then .ret (⟨0, Ptr.read ⟨written.getD [], heap⟩ der.length⟩, s)
      else if der = [] then
        .ret (⟨0, []⟩, { s with bufs := s.bufs + if (written.getD []).isEmpty then 0 else 1 })
      else .crashed := by
  subst hlen
  cases hmalloc : r.malloc with
  | true => simp [copied, derLen, hmalloc]
  | false => by_cases hempty : der = [] <;> simp [copied, derLen, hmalloc, hempty]

theorem pkeyView_eq_unset_iff {s : Enclave} : s.pkeyView = .unset ↔ s.evpPkey = none := by
  cases hevp : s.evpPkey with
  | none => simp [Enclave.pkeyView, hevp]
  | some j =>
      cases hobj : s.pkeys[j]? with
      | none => simp [Enclave.pkeyView, hevp, hobj]
      | some obj => cases htyped : obj.typed <;> simp [Enclave.pkeyView, hevp, hobj, htyped]

/-- `ecall_rsa_get_pubkey`: when the length is not the requested one a buffer is not freed. -/
theorem run_ecallRsaGetPubkey (r : PubkeyResults o) (heap : ℕ → Byte) (len : BitVec 32)
    (s : Enclave) : (ecallRsaGetPubkey o r heap len).run s =
      if s.pkeyView = .unset then .ret (⟨1, []⟩, s)
      else s.pkeyView.encoding r.lenRand >>= fun der =>
        s.pkeyView.encoding r.derRand >>= fun written => r.copied heap len.toInt der written s := by
  by_cases hnone : s.evpPkey = none
  · rw [if_pos (pkeyView_eq_unset_iff.mpr hnone)]
    simp [ecallRsaGetPubkey, hnone]
  rw [if_neg (mt pkeyView_eq_unset_iff.mp hnone)]
  cases hder : s.pkeyView.encoding r.lenRand with
  | aborted => simp [ecallRsaGetPubkey, hnone, run_i2dPublicKey, hder]
  | crashed => simp [ecallRsaGetPubkey, hnone, run_i2dPublicKey, hder]
  | undefined => simp [ecallRsaGetPubkey, hnone, run_i2dPublicKey, hder]
  | ret der =>
      cases hwritten : s.pkeyView.encoding r.derRand with
      | aborted => simp [ecallRsaGetPubkey, hnone, run_i2dPublicKey, hder, hwritten]
      | crashed => simp [ecallRsaGetPubkey, hnone, run_i2dPublicKey, hder, hwritten]
      | undefined => simp [ecallRsaGetPubkey, hnone, run_i2dPublicKey, hder, hwritten]
      | ret written =>
          by_cases hlen : derLen der = len.toInt
          · by_cases hbuf : der.isSome = true ∧ r.malloc = true
            · simp [ecallRsaGetPubkey, PubkeyResults.copied, hnone, run_i2dPublicKey, hder,
                hwritten, hlen, hbuf]
            · by_cases hzero : len.toInt = 0 <;>
                simp [ecallRsaGetPubkey, PubkeyResults.copied, hnone, run_i2dPublicKey, hder,
                  hwritten, hlen, hbuf, hzero]
          · simp [ecallRsaGetPubkey, PubkeyResults.copied, hnone, run_i2dPublicKey, hder, hwritten,
              hlen]

/-! ## Key generation and the views -/

/-- A pointer to a new object is in range. -/
theorem lt_length_of_new {α : Type} {l : List α} {i : ℕ} (x : α) (h : some l.length = some i) :
    i < (l ++ [x]).length := by
  rw [← Option.some.inj h, List.length_append, List.length_singleton]
  exact Nat.lt_succ_self _

theorem WellFormed.after {s : Enclave} (h : s.WellFormed) (r : KeyGenResults o) :
    (r.after s).WellFormed := by
  have hold : ∀ (obj : RsaObj), ∀ p ∈ s.pkeys, ∀ i, p.pkey = some i →
      i < (s.rsas ++ [obj]).length := by
    intro obj p hp i hi
    rw [List.length_append]
    exact Nat.lt_add_right _ (h.pkeys_lt p hp i hi)
  have hpkeys : ∀ (obj : RsaObj) (evp : PkeyObj),
      (∀ i, evp.pkey = some i → i < (s.rsas ++ [obj]).length) →
      ∀ p ∈ s.pkeys ++ [evp], ∀ i, p.pkey = some i → i < (s.rsas ++ [obj]).length := by
    intro obj evp hevp p hp
    rcases List.mem_append.mp hp with hp | hp
    · exact hold obj p hp
    · rw [List.mem_singleton.mp hp]
      exact hevp
  unfold KeyGenResults.after
  split_ifs
  · exact h
  · exact ⟨h.keypair_lt, h.evpPkey_lt, h.pkeys_lt⟩
  · exact ⟨nofun, h.evpPkey_lt, h.pkeys_lt⟩
  · exact ⟨fun _ => lt_length_of_new _, h.evpPkey_lt, hold _⟩
  · exact ⟨fun _ => lt_length_of_new _, nofun, hold _⟩
  · exact ⟨fun _ => lt_length_of_new _, fun _ => lt_length_of_new _,
      hpkeys _ _ fun _ => lt_length_of_new _⟩
  · exact ⟨fun _ => lt_length_of_new _, fun _ => lt_length_of_new _, hpkeys _ _ nofun⟩

/-- An object that is allocated later is not seen through an older pointer. -/
theorem viewRsa_append {s s' : Enclave} {obj : RsaObj} (hrsas : s'.rsas = s.rsas ++ [obj])
    {ptr : Option ℕ} (hptr : ∀ i, ptr = some i → i < s.rsas.length) :
    s'.viewRsa ptr = s.viewRsa ptr := by
  cases ptr with
  | none => rfl
  | some i =>
      have hget : s'.rsas[i]? = s.rsas[i]? := by
        rw [hrsas, List.getElem?_append_left (hptr i rfl)]
      simp only [Enclave.viewRsa, hget]

theorem pkeyView_append {s s' : Enclave} (hs : s.WellFormed) (obj : RsaObj)
    (hrsas : s'.rsas = s.rsas ++ [obj]) (hevp : s'.evpPkey = s.evpPkey)
    (hpkeys : s'.pkeys = s.pkeys) : s'.pkeyView = s.pkeyView := by
  cases hj : s.evpPkey with
  | none => simp only [Enclave.pkeyView, hevp, hj]
  | some j =>
      cases hobj : s.pkeys[j]? with
      | none => simp only [Enclave.pkeyView, hevp, hj, hpkeys, hobj]
      | some p =>
          have hview : s'.viewRsa p.pkey = s.viewRsa p.pkey :=
            viewRsa_append hrsas (hs.pkeys_lt p (List.mem_of_getElem? hobj))
          simp only [Enclave.pkeyView, hevp, hj, hpkeys, hobj, hview]

namespace KeyGenResults

/-- What `keypair` refers to after a key generation. -/
def keypairAfter (r : KeyGenResults o) (v : KeyView) : KeyView :=
  if !r.bnNew || !r.bnSetWord then v
  else if !r.rsaNew then .unset
  else if r.generate.isSome && r.evpNew && r.assign && o.declaredLayout then .dangling
  else .live r.generate

/-- What `evp_pkey` refers to after a key generation. -/
def pkeyAfter (r : KeyGenResults o) (v : PkeyView) : PkeyView :=
  if !r.bnNew || !r.bnSetWord || !r.rsaNew || r.generate.isNone then v
  else if !r.evpNew then .unset
  else if !r.assign then .untyped
  else .holds (if o.declaredLayout then .dangling else .live r.generate)

/-- A key generation goes by the views alone. -/
theorem views_after {s : Enclave} (hs : s.WellFormed) (r : KeyGenResults o) :
    (r.after s).keypairView = r.keypairAfter s.keypairView ∧
      (r.after s).pkeyView = r.pkeyAfter s.pkeyView := by
  by_cases hbn : r.bnNew = true
  case neg => simp [after, keypairAfter, pkeyAfter, hbn]
  by_cases hword : r.bnSetWord = true
  case neg =>
    simp only [after, keypairAfter, pkeyAfter, hbn, hword]
    exact ⟨rfl, rfl⟩
  by_cases hrsa : r.rsaNew = true
  case neg =>
    simp only [after, keypairAfter, pkeyAfter, hbn, hword, hrsa]
    exact ⟨rfl, rfl⟩
  cases hgen : r.generate with
  | none =>
      -- the empty key is allocated, and `evp_pkey` is not touched
      have hpkey : (r.after s).pkeyView = s.pkeyView := by
        apply pkeyView_append hs ⟨1, none⟩ <;> simp [after, hbn, hword, hrsa, hgen]
      refine ⟨?_, hpkey.trans ?_⟩
      · simp [after, keypairAfter, hbn, hword, hrsa, hgen, Enclave.keypairView, Enclave.viewRsa]
      · simp [pkeyAfter, hgen]
  | some k =>
      by_cases hevp : r.evpNew = true
      case neg =>
        simp [after, keypairAfter, pkeyAfter, hbn, hword, hrsa, hgen, hevp, Enclave.keypairView,
          Enclave.viewRsa, Enclave.pkeyView]
      cases hassign : r.assign <;> cases hlayout : o.declaredLayout <;>
        simp [after, keypairAfter, pkeyAfter, finalRsa, hbn, hword, hrsa, hgen, hevp, hassign,
          hlayout, Enclave.keypairView, Enclave.viewRsa, Enclave.pkeyView]

end KeyGenResults

end SgxErlang.Rsa
