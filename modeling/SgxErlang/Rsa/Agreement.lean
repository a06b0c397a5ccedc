import SgxErlang.Rsa.Interface

/-!
# Two enclaves that agree on the keys

Two enclaves agree if they have the same counter, and keys that are related, wherever these
are on the two heaps.  The relation is a parameter: equality, or having the same public
half.  What the enclave functions do with the keys keeps the enclaves in agreement.

## Main results

* `inside_rel` — signing and encrypting.
* `getPubkey_rel` — reading the public key.
* `keyGen_rel` — generating a key.
-/

namespace SgxErlang.Rsa

variable {o : OpenSSL}

/-! ## Agreement -/

/-- Two views of keys that are related by `R`. -/
inductive KeyView.Rel (R : Option Key → Option Key → Prop) : KeyView → KeyView → Prop where
  | unset : Rel R .unset .unset
  | dangling : Rel R .dangling .dangling
  | live {k k' : Option Key} (h : R k k') : Rel R (.live k) (.live k')

@[inherit_doc KeyView.Rel]
inductive PkeyView.Rel (R : Option Key → Option Key → Prop) : PkeyView → PkeyView → Prop where
  | unset : Rel R .unset .unset
  | dangling : Rel R .dangling .dangling
  | untyped : Rel R .untyped .untyped
  | holds {v v' : KeyView} (h : v.Rel R v') : Rel R (.holds v) (.holds v')

/-- Two enclaves with the same counter, and with keys that are related by `R`. -/
structure Agree (R : Option Key → Option Key → Prop) (s t : Enclave) : Prop where
  left : s.Valid
  right : t.Valid
  a : t.a = s.a
  keypair : s.keypairView.Rel R t.keypairView
  evpPkey : s.pkeyView.Rel R t.pkeyView

/-- Two keys with the same public half. -/
def SamePublic (k k' : Option Key) : Prop := k.map Key.pub = k'.map Key.pub

/-- The same key generation, up to the key that is generated. -/
def KeyGenResults.Rel (R : Option Key → Option Key → Prop) (r r' : KeyGenResults o) : Prop :=
  r' = { r with generate := r'.generate } ∧ R r.generate r'.generate

/-- The same call, up to the keys that are generated. -/
def Ecall.Rel (R : Option Key → Option Key → Prop) : Ecall o → Ecall o → Prop
  | .tSgxsslCallApis r, .tSgxsslCallApis r' => r.Rel R r'
  | .rsaKeyGen r, .rsaKeyGen r' => r.Rel R r'
  | c, c' => c' = c

variable {R : Option Key → Option Key → Prop} {s s' t t' : Enclave}

namespace Agree

theorem of_sameKeys (h : Agree R s t) (hs : s.SameKeys s') (ht : t.SameKeys t')
    (hcb : s'.printCB = s.printCB) (hcb' : t'.printCB = t.printCB) (ha : t'.a = s'.a) :
    Agree R s' t' where
  left := h.left.of_sameKeys hs hcb
  right := h.right.of_sameKeys ht hcb'
  a := ha
  keypair := by
    rw [hs.keypairView, ht.keypairView]
    exact h.keypair
  evpPkey := by
    rw [hs.pkeyView, ht.pkeyView]
    exact h.evpPkey

theorem afterPrints (h : Agree R s t) (r : o.Rand) : Agree R (s.afterPrints r) (t.afterPrints r) :=
  h.of_sameKeys ⟨rfl, rfl, rfl, rfl⟩ ⟨rfl, rfl, rfl, rfl⟩ rfl rfl h.a

/-- If the first enclave has a key, the second one has a related key. -/
theorem exists_live (h : Agree R s t) {key : Option Key} (hkey : s.keypairView = .live key) :
    ∃ key', t.keypairView = .live key' ∧ R key key' := by
  have hrel := h.keypair
  rw [hkey] at hrel
  generalize t.keypairView = v at hrel ⊢
  cases hrel with
  | live hR => exact ⟨_, rfl, hR⟩

theorem unset (h : Agree R s t) (hkey : s.keypairView = .unset) : t.keypairView = .unset := by
  have hrel := h.keypair
  rw [hkey] at hrel
  generalize t.keypairView = v at hrel ⊢
  cases hrel with
  | unset => rfl

/-- With a key in place, both enclaves print. -/
theorem printed_eq (h : Agree R s t) {key : Option Key} (hkey : s.keypairView = .live key)
    (r : o.Rand) : printed o s r = printed o t r := by
  obtain ⟨key', hkey', -⟩ := h.exists_live hkey
  rw [printed, printed, h.left.printCB_of_live hkey, h.right.printCB_of_live hkey']

end Agree

/-! ## Signing and encrypting -/

/-- An operation that only uses the string: there is no key, or an empty one that OpenSSL
cannot use; or all bytes that it reads are part of the string, and the buffer has room for
what it writes. -/
def Inside (s : Enclave) (cleartext : List Byte) (count : ℕ)
    (op : Option Key → List Byte → OpResult) : Prop :=
  s.keypairView = .unset ∨ (s.keypairView = .live none ∧ ∀ m, op none m = .fault) ∨
    ∃ key, s.keypairView = .live key ∧ 7 ≤ strlen cleartext ∧
      (rsaSize ≤ count ∨ (op key ((cleartext ++ [0]).take sizeofPtr)).output = none)

/-- What an operation writes through the bridge is decided by its result. -/
theorem withBuffer_rel {res res' : OpResult} (halike : res.Alike res')
    (hlen : ∀ out, res = .done out → out.length = rsaSize)
    (hlen' : ∀ out, res' = .done out → out.length = rsaSize) {count : ℕ}
    (hroom : rsaSize ≤ count ∨ res.output = none) {e e' : Exec Enclave Written}
    (he : e.run s = res.outcome s') (he' : e'.run t = res'.outcome t') (mem mem' : Memory) :
    Outcome.Rel (fun p q => p.1.1 = q.1.1 ∧ (res = res' → p.1.2 = q.1.2) ∧ p.2 = s' ∧ q.2 = t')
      ((withBuffer mem count e).run s) ((withBuffer mem' count e').run t) := by
  rw [withBuffer, withBuffer, StateT.run_bind, StateT.run_bind, he, he']
  cases res with
  | done out =>
      cases res' with
      | done out' =>
          have hle : rsaSize ≤ count := hroom.resolve_right (by simp [OpResult.output])
          have hout : out.length ≤ count := (hlen out rfl).trans_le hle
          have hout' : out'.length ≤ count := (hlen' out' rfl).trans_le hle
          simp only [OpResult.outcome, Outcome.ret_bind, Build.filled, if_pos hout, if_pos hout']
          refine ⟨rfl, ?_, rfl, rfl⟩
          intro heq
          rw [OpResult.done.inj heq]
          rfl
      | failed => exact halike.elim
      | fault => exact halike.elim
  | failed =>
      cases res' with
      | done out' => exact halike.elim
      | failed => exact ⟨rfl, fun _ => rfl, rfl, rfl⟩
      | fault => exact halike.elim
  | fault =>
      cases res' with
      | done out' => exact halike.elim
      | failed => exact halike.elim
      | fault => exact Outcome.rel_of_stopped trivial trivial

theorem inside_rel (hst : Agree R s t) (huprints : s.uprints = t.uprints)
    {cleartext : List Byte} {count : ℕ} (op : Option Key → List Byte → OpResult)
    (hin : Inside s cleartext count op) {e e' : Exec Enclave Written} {mem mem' : Memory}
    {r : o.Rand}
    (he : AppliesTo e r fun key => op key (Build.sgx.message mem (cleartext ++ [0])))
    (he' : AppliesTo e' r fun key => op key (Build.sgx.message mem' (cleartext ++ [0])))
    (halike : ∀ k k' m, R k k' → (op k m).Alike (op k' m))
    (hlen : ∀ key m out, op key m = .done out → out.length = rsaSize) :
    Outcome.Rel
      (fun p q => p.1.1 = q.1.1 ∧ ((∀ k k' m, R k k' → op k m = op k' m) → p.1.2 = q.1.2) ∧
        p.2.uprints = q.2.uprints ∧ Agree R p.2 q.2)
      ((withBuffer mem count e).run s) ((withBuffer mem' count e').run t) := by
  have hrun := he s
  have hrun' := he' t
  rcases hin with hunset | ⟨hempty, hfault⟩ | ⟨key, hlive, hlong, hroom⟩
  · rw [hunset] at hrun
    rw [hst.unset hunset] at hrun'
    rw [withBuffer, withBuffer, StateT.run_bind, StateT.run_bind, hrun, hrun']
    exact Outcome.rel_of_stopped trivial trivial
  · obtain ⟨key', hlive', hR⟩ := hst.exists_live hempty
    have hfault' : ∀ m, op key' m = .fault := by
      intro m
      have hm := halike none key' m hR
      rw [hfault m] at hm
      cases hop : op key' m with
      | done out => exact (hop ▸ hm : OpResult.Alike .fault (.done out)).elim
      | failed => exact (hop ▸ hm : OpResult.Alike .fault .failed).elim
      | fault => rfl
    simp only [hempty, hfault] at hrun
    simp only [hlive', hfault'] at hrun'
    rw [withBuffer, withBuffer, StateT.run_bind, StateT.run_bind, hrun, hrun']
    exact Outcome.rel_of_stopped trivial trivial
  · obtain ⟨key', hlive', hR⟩ := hst.exists_live hlive
    -- the message is part of the string, and so the same in both
    simp only [hlive, message_sgx hlong] at hrun
    simp only [hlive', message_sgx hlong] at hrun'
    have hrel := withBuffer_rel (halike key key' _ hR) (hlen key _) (hlen key' _) hroom hrun hrun'
      mem mem'
    refine hrel.imp ?_
    rintro p q ⟨hret, hout, hs, ht⟩
    refine ⟨hret, fun heq => hout (heq key key' _ hR), ?_, ?_⟩
    · rw [hs, ht, Enclave.afterPrints, Enclave.afterPrints, huprints, hst.printed_eq hlive]
    · rw [hs, ht]
      exact hst.afterPrints r

/-! ## Reading the public key -/

/-- The encoding has nothing to do with the private half. -/
theorem PkeyView.Rel.encoding_eq (hpub : ∀ k k', R k k' → SamePublic k k') {v v' : PkeyView}
    (h : v.Rel R v') (r : o.Rand) : v.encoding r = v'.encoding r := by
  cases h with
  | unset => rfl
  | dangling => rfl
  | untyped => rfl
  | holds hv =>
      cases hv with
      | unset => rfl
      | dangling => rfl
      | live hR => simp only [PkeyView.encoding, show _ = _ from hpub _ _ hR]

theorem PkeyView.Rel.unset_iff {v v' : PkeyView} (h : v.Rel R v') :
    v = .unset ↔ v' = .unset := by
  cases h <;> simp

/-- What is copied is the encoding, or nothing: the memory in the buffer is not seen. -/
theorem copied_rel (hst : Agree R s t) (huprints : s.uprints = t.uprints) (r : PubkeyResults o)
    {len : BitVec 32} {der written : Option (List Byte)}
    (hfilled : ∀ out, der = some out → out.length = len.toInt → written = some out)
    (heap heap' : ℕ → Byte) :
    Outcome.Rel (fun p q => p.1 = q.1 ∧ p.1.bytes.length ≤ sizeT len ∧
        p.2.uprints = q.2.uprints ∧ Agree R p.2 q.2)
      (r.copied heap len.toInt der written s) (r.copied heap' len.toInt der written t) := by
  have hleft : ∀ n n', Agree R { s with bufs := n } { t with bufs := n' } := fun _ _ =>
    hst.of_sameKeys ⟨rfl, rfl, rfl, rfl⟩ ⟨rfl, rfl, rfl, rfl⟩ rfl rfl hst.a
  by_cases hlen : derLen der = len.toInt
  · cases der with
    | none =>
        have hcrash : ∀ heap s, r.copied heap len.toInt none written s = .crashed := by
          intro heap s
          simp [PubkeyResults.copied, ← hlen, derLen]
        rw [hcrash, hcrash]
        exact Outcome.rel_of_stopped trivial trivial
    | some out =>
        obtain rfl := hfilled out rfl hlen
        rw [r.copied_of_length heap hlen, r.copied_of_length heap' hlen, Option.getD_some,
          Ptr.read_length, Ptr.read_length]
        split_ifs
        · exact ⟨rfl, OutCall.le_sizeT hlen, huprints, hst⟩
        · exact ⟨rfl, Nat.zero_le _, huprints, hleft _ _⟩
        · exact ⟨rfl, Nat.zero_le _, huprints, hleft _ _⟩
        · exact Outcome.rel_of_stopped trivial trivial
  · simp only [PubkeyResults.copied, ne_eq, hlen, not_false_eq_true, if_true]
    exact ⟨rfl, Nat.zero_le _, huprints, hleft _ _⟩

/-- What the ecall leaves, in terms of the encoding. -/
theorem getPubkey_rel (hst : Agree R s t) (huprints : s.uprints = t.uprints)
    (hpub : ∀ k k', R k k' → SamePublic k k') (h : s.pkeyView ≠ .dangling)
    (h' : s.pkeyView ≠ .holds .dangling) {r : PubkeyResults o} {len : BitVec 32}
    (hfilled : s.pkeyView.Filled r len.toInt) (mem mem' : Memory) :
    Outcome.Rel (fun p q => p.1 = q.1 ∧ p.2.uprints = q.2.uprints ∧ Agree R p.2 q.2)
      ((withBuffer mem (sizeT len) (ecallRsaGetPubkey o r mem.beyond len)).run s)
      ((withBuffer mem' (sizeT len) (ecallRsaGetPubkey o r mem'.beyond len)).run t) := by
  have henc := fun rand : o.Rand => hst.evpPkey.encoding_eq hpub rand
  rw [withBuffer, withBuffer, StateT.run_bind, StateT.run_bind, run_ecallRsaGetPubkey,
    run_ecallRsaGetPubkey, ← henc, ← henc]
  by_cases hunset : s.pkeyView = .unset
  · rw [if_pos hunset, if_pos (hst.evpPkey.unset_iff.mp hunset)]
    exact ⟨rfl, huprints, hst⟩
  rw [if_neg hunset, if_neg (mt hst.evpPkey.unset_iff.mpr hunset)]
  rcases s.pkeyView.encoding_cases hunset with hundef | ⟨f, hf, -⟩
  · exact absurd (hundef r.lenRand) (encoding_ne_undefined h h' r.lenRand)
  rw [hf, hf]
  have hcopied : ∀ out, f r.lenRand = some out → out.length = len.toInt →
      f r.derRand = some out := by
    intro out hout hlen
    exact hfilled.eq_some ((hf r.lenRand).trans (congrArg _ hout)) hlen (hf r.derRand)
  refine (copied_rel hst huprints r hcopied mem.beyond mem'.beyond).bind ?_
  rintro ⟨w, s'⟩ ⟨w', t'⟩ ⟨hw, hle, hprinted, hagree⟩
  obtain rfl : w = w' := hw
  simp only [Build.filled, if_pos hle]
  exact ⟨rfl, hprinted, hagree⟩

/-! ## Generating a key -/

theorem keypairAfter_rel {r r' : KeyGenResults o} (hr : r.Rel R r')
    (hsome : r.generate.isSome = r'.generate.isSome) {v v' : KeyView} (h : v.Rel R v') :
    (r.keypairAfter v).Rel R (r'.keypairAfter v') := by
  obtain ⟨hr', hR⟩ := hr
  rw [KeyGenResults.keypairAfter, KeyGenResults.keypairAfter, ← hsome]
  rw [hr']
  dsimp only
  split_ifs
  · exact h
  · exact .unset
  · exact .dangling
  · exact .live hR

theorem pkeyAfter_rel {r r' : KeyGenResults o} (hr : r.Rel R r')
    (hnone : r.generate.isNone = r'.generate.isNone) {v v' : PkeyView} (h : v.Rel R v') :
    (r.pkeyAfter v).Rel R (r'.pkeyAfter v') := by
  obtain ⟨hr', hR⟩ := hr
  rw [KeyGenResults.pkeyAfter, KeyGenResults.pkeyAfter, ← hnone]
  rw [hr']
  dsimp only
  split_ifs
  · exact h
  · exact .unset
  · exact .untyped
  · exact .holds .dangling
  · exact .holds (.live hR)

theorem SamePublic.isSome_eq {k k' : Option Key} (h : SamePublic k k') :
    k.isSome = k'.isSome := by
  have hsome := congrArg Option.isSome h
  simpa using hsome

/-- The counter and the printed strings after a key generation do not depend on the key. -/
theorem fields_after {r r' : KeyGenResults o} (hr : r' = { r with generate := r'.generate })
    (hsome : r.generate.isSome = r'.generate.isSome) (ha : t.a = s.a)
    (huprints : s.uprints = t.uprints) :
    (r'.after { t with printCB := true }).a = (r.after { s with printCB := true }).a ∧
      (r.after { s with printCB := true }).uprints =
        (r'.after { t with printCB := true }).uprints := by
  have hnone : r'.generate.isNone = r.generate.isNone := by
    rw [← Option.not_isSome, ← Option.not_isSome, hsome]
  rw [KeyGenResults.after, KeyGenResults.after, hnone]
  rw [hr]
  dsimp only
  split_ifs
  · exact ⟨ha, huprints⟩
  · exact ⟨ha, huprints⟩
  · exact ⟨ha, huprints⟩
  · exact ⟨ha, congrArg (· ++ _) huprints⟩
  · exact ⟨ha, congrArg (· ++ _) huprints⟩
  · exact ⟨rfl, congrArg (· ++ _) huprints⟩
  · exact ⟨rfl, congrArg (· ++ _) huprints⟩

/-- Two key generations behind the callback. -/
theorem keyGen_rel (hst : Agree R s t) (huprints : s.uprints = t.uprints)
    (hpub : ∀ k k', R k k' → SamePublic k k') {r r' : KeyGenResults o} (hr : r.Rel R r') :
    (r.after { s with printCB := true }).uprints =
        (r'.after { t with printCB := true }).uprints ∧
      Agree R (r.after { s with printCB := true }) (r'.after { t with printCB := true }) := by
  have hsome : r.generate.isSome = r'.generate.isSome := (hpub _ _ hr.2).isSome_eq
  have hnone : r.generate.isNone = r'.generate.isNone := by
    rw [← Option.not_isSome, ← Option.not_isSome, hsome]
  obtain ⟨ha, hprinted⟩ := fields_after hr.1 hsome hst.a huprints
  have hwf : Enclave.WellFormed { s with printCB := true } :=
    ⟨hst.left.keypair_lt, hst.left.evpPkey_lt, hst.left.pkeys_lt⟩
  have hwf' : Enclave.WellFormed { t with printCB := true } :=
    ⟨hst.right.keypair_lt, hst.right.evpPkey_lt, hst.right.pkeys_lt⟩
  refine ⟨hprinted, hst.left.after r, hst.right.after r', ha, ?_, ?_⟩
  · rw [(KeyGenResults.views_after hwf r).1, (KeyGenResults.views_after hwf' r').1]
    exact keypairAfter_rel hr hsome hst.keypair
  · rw [(KeyGenResults.views_after hwf r).2, (KeyGenResults.views_after hwf' r').2]
    exact pkeyAfter_rel hr hnone hst.evpPkey

end SgxErlang.Rsa
