import SgxErlang.Rsa.Agreement

/-!
# What the host can see of the enclave

Two enclaves run the same ecalls.  They agree on the counter and on the keys, and differ in
everything else on their heaps.  What the host sees should be the same.  If the enclaves
agree on the public halves of the keys only, it should still be the same, signatures apart.

It is, as long as no string is shorter than the eight bytes that are read from it: these
bytes come from the heap, and from there they go into a ciphertext that the host can
compare with others.

## Main results

* `enclave_rel` — one ecall in two enclaves.
* `noninterference` — whole runs.
-/

namespace SgxErlang.Rsa

variable {o : OpenSSL}

/-! ## What should be seen, and when -/

/-- The host sees the same, except perhaps for a signature. -/
def Output.SameButSignature (p q : Output) : Prop :=
  q = { p with signature := q.signature }

/-- A call that only uses the counter and the keys. -/
def Contained (s : Enclave) (x : Ecall o × Memory) : Prop :=
  match x.1 with
  | .rsaSign cleartext len r => Inside s cleartext len.toNat (o.rsaSign r)
  | .rsaEncrypt cleartext len r => Inside s cleartext (sizeT len) fun key =>
      o.rsaPublicEncrypt r (key.map Key.pub)
  | .rsaGetPubkey len r => s.pkeyView ≠ .dangling ∧ s.pkeyView ≠ .holds .dangling ∧
      s.pkeyView.Filled r len.toInt
  | _ => True

/-! ## One call -/

section

variable {R : Option Key → Option Key → Prop} {s t : Enclave}

/-- What comes out of a call: the signature is the same if the keys are. -/
def SameBody (R : Option Key → Option Key → Prop) (p q : (ℤ × List Byte × List Byte) × Enclave) :
    Prop :=
  p.1.1 = q.1.1 ∧ ((∀ k k', R k k' → k = k') → p.1.2.1 = q.1.2.1) ∧ p.1.2.2 = q.1.2.2 ∧
    p.2.uprints = q.2.uprints ∧ Agree R p.2 q.2

/-- One ecall behind the bridge, from related states and with any memory behind its
strings. -/
theorem body_rel (hpub : ∀ k k', R k k' → SamePublic k k') (hst : Agree R s t)
    (huprints : s.uprints = t.uprints) {c c' : Ecall o} (hc : c.Rel R c') {mem : Memory}
    (hin : Contained s (c, mem)) (mem' : Memory) :
    Outcome.Rel (SameBody R) ((c.body mem).run s) ((c'.body mem').run t) := by
  cases c with
  | tSgxsslCallApis r =>
      cases c' with
      | tSgxsslCallApis r' =>
          obtain ⟨hprinted, hagree⟩ := keyGen_rel hst huprints hpub hc
          simp only [Ecall.body, StateT.run_bind, run_tSgxsslCallApis, Outcome.ret_bind]
          exact ⟨rfl, fun _ => rfl, rfl, hprinted, hagree⟩
      | _ => cases hc
  | rsaKeyGen r =>
      cases c' with
      | rsaKeyGen r' =>
          obtain ⟨hprinted, hagree⟩ := keyGen_rel hst huprints hpub hc
          have hinit : r'.initCrypto = r.initCrypto := by rw [hc.1]
          simp only [Ecall.body, StateT.run_bind, run_ecallRsaKeyGen, Outcome.ret_bind, hinit]
          exact ⟨rfl, fun _ => rfl, rfl, hprinted, hagree⟩
      | _ => cases hc
  | increment =>
      obtain rfl : c' = .increment := hc
      refine ⟨rfl, fun _ => rfl, rfl, huprints, hst.of_sameKeys ?_ ?_ rfl rfl ?_⟩
      · exact ⟨rfl, rfl, rfl, rfl⟩
      · exact ⟨rfl, rfl, rfl, rfl⟩
      · exact congrArg (· + 1) hst.a
  | returnA =>
      obtain rfl : c' = .returnA := hc
      refine ⟨?_, fun _ => rfl, rfl, huprints, hst⟩
      exact congrArg BitVec.toInt hst.a.symm
  | rsaSign cleartext len r =>
      obtain rfl : c' = .rsaSign cleartext len r := hc
      have hrel := inside_rel hst huprints (o.rsaSign r) hin
        (run_ecallRsaSign r (Build.sgx.plaintext mem (cleartext ++ [0])) len)
        (run_ecallRsaSign r (Build.sgx.plaintext mem' (cleartext ++ [0])) len)
        (fun k k' m hR => o.rsaSign_public (hpub k k' hR))
        (fun _ _ _ hout => o.rsaSign_length hout)
      simp only [Ecall.body, StateT.run_bind]
      refine hrel.bind ?_
      rintro p q ⟨hret, hout, hprinted, hagree⟩
      refine ⟨hret, fun hsame => hout ?_, rfl, hprinted, hagree⟩
      intro k k' m hR
      rw [hsame k k' hR]
  | rsaEncrypt cleartext len r =>
      obtain rfl : c' = .rsaEncrypt cleartext len r := hc
      have hsame : ∀ k k' m, R k k' →
          o.rsaPublicEncrypt r (k.map Key.pub) m = o.rsaPublicEncrypt r (k'.map Key.pub) m := by
        intro k k' m hR
        rw [show k.map Key.pub = k'.map Key.pub from hpub k k' hR]
      have hrel := inside_rel hst huprints
        (fun key => o.rsaPublicEncrypt r (key.map Key.pub)) hin
        (run_ecallRsaEncrypt r (Build.sgx.plaintext mem (cleartext ++ [0])) len)
        (run_ecallRsaEncrypt r (Build.sgx.plaintext mem' (cleartext ++ [0])) len)
        (fun k k' m hR => (hsame k k' m hR ▸ .refl _))
        (fun _ _ _ hout => o.rsaPublicEncrypt_length hout)
      simp only [Ecall.body, StateT.run_bind]
      refine hrel.bind ?_
      rintro p q ⟨hret, hout, hprinted, hagree⟩
      exact ⟨hret, fun _ => rfl, hout hsame, hprinted, hagree⟩
  | rsaGetPubkey len r =>
      obtain rfl : c' = .rsaGetPubkey len r := hc
      have hrel := getPubkey_rel hst huprints hpub hin.1 hin.2.1 hin.2.2 mem mem'
      simp only [Ecall.body, StateT.run_bind]
      refine hrel.bind ?_
      rintro p q ⟨hout, hprinted, hagree⟩
      have hret : p.1.1 = q.1.1 := by rw [hout]
      have hbuf : p.1.2 = q.1.2 := by rw [hout]
      exact ⟨hret, fun _ => rfl, hbuf, hprinted, hagree⟩

/-- What the host sees of two related calls: the signature is the same if the keys are. -/
def SeenAlike (R : Option Key → Option Key → Prop) (p q : Output) : Prop :=
  p.SameButSignature q ∧ ((∀ k k', R k k' → k = k') → p.signature = q.signature)

/-- One ecall in two enclaves. -/
theorem enclave_rel (hpub : ∀ k k', R k k' → SamePublic k k') (hst : Agree R s t) {c c' : Ecall o}
    (hc : c.Rel R c') {mem : Memory} (hin : Contained s (c, mem)) (mem' : Memory) :
    Outcome.Rel (fun p q => SeenAlike R p.1 q.1 ∧ Agree R p.2 q.2)
      ((enclave (c, mem)).run s) ((enclave (c', mem')).run t) := by
  have hstart : Agree R { s with uprints := [] } { t with uprints := [] } :=
    hst.of_sameKeys ⟨rfl, rfl, rfl, rfl⟩ ⟨rfl, rfl, rfl, rfl⟩ rfl rfl hst.a
  have hbody := body_rel hpub hstart rfl hc hin mem'
  refine hbody.bind ?_
  rintro p q ⟨hret, hsig, hout, hprinted, hagree⟩
  refine ⟨⟨?_, hsig⟩, hagree⟩
  exact Output.ext hret.symm rfl hout.symm hprinted.symm

end

/-! ## Runs -/

/-- Two enclaves that agree on the counter and on the keys show the same, whatever else is on
their heaps, if every call uses nothing else.  If they agree on the public halves of the
keys only, they still show the same, signatures apart. -/
theorem noninterference {s t : Enclave} {calls calls' : List (Ecall o × Memory)}
    (hin : Along enclave Contained s calls) :
    (Agree Eq s t → List.Forall₂ (fun x y => x.1.Rel Eq y.1) calls calls' →
        List.Forall₂ (Outcome.Rel Eq) (trace enclave s calls) (trace enclave t calls')) ∧
      (Agree SamePublic s t → List.Forall₂ (fun x y => x.1.Rel SamePublic y.1) calls calls' →
        List.Forall₂ (Outcome.Rel Output.SameButSignature)
          (trace enclave s calls) (trace enclave t calls')) := by
  constructor
  · intro hst hcalls
    refine trace_rel_of_simulation (Agree Eq) _ Eq Contained ?_ hcalls hst hin
    intro s t x y hst hxy hx
    have hpub : ∀ k k' : Option Key, k = k' → SamePublic k k' := by
      rintro k _ rfl
      rfl
    refine (enclave_rel hpub hst hxy hx y.2).imp ?_
    rintro p q ⟨⟨hsame, hsig⟩, hagree⟩
    refine ⟨?_, hagree⟩
    rw [hsame, ← hsig fun _ _ h => h]
  · intro hst hcalls
    refine trace_rel_of_simulation (Agree SamePublic) _ Output.SameButSignature Contained ?_ hcalls
      hst hin
    intro s t x y hst hxy hx
    refine (enclave_rel (fun _ _ h => h) hst hxy hx y.2).imp ?_
    exact fun p q h => ⟨h.1.1, h.2⟩

/-! ## Two enclaves with a key -/

/-- An enclave with a key in use, behind other objects on its heap. -/
def Enclave.inUse (others : List RsaObj) (k : Key) : Enclave :=
  { Enclave.init with
    printCB := true, keypair := some others.length, rsas := others ++ [⟨1, some k⟩]
    evpPkey := some 0, pkeys := [⟨true, some others.length⟩] }

namespace Enclave

variable (others : List RsaObj) (k : Key)

theorem keypairView_inUse : (inUse others k).keypairView = .live (some k) := by
  simp [inUse, keypairView, viewRsa]

theorem pkeyView_inUse : (inUse others k).pkeyView = .holds (.live (some k)) := by
  simp [inUse, pkeyView, viewRsa]

theorem valid_inUse : (inUse others k).Valid where
  keypair_lt := by
    intro i hi
    obtain rfl := Option.some.inj hi
    simp [inUse]
  evpPkey_lt := by
    intro j hj
    obtain rfl := Option.some.inj hj
    exact Nat.one_pos
  pkeys_lt := by
    intro obj hobj i hi
    obtain rfl := List.mem_singleton.mp hobj
    obtain rfl := Option.some.inj hi
    simp [inUse]
  callback := fun _ => rfl

end Enclave

/-- Where a key is on the heap makes no difference. -/
theorem agree_inUse {R : Option Key → Option Key → Prop} {k k' : Key} (h : R (some k) (some k'))
    (others others' : List RsaObj) : Agree R (.inUse others k) (.inUse others' k') where
  left := Enclave.valid_inUse others k
  right := Enclave.valid_inUse others' k'
  a := rfl
  keypair := by
    rw [Enclave.keypairView_inUse, Enclave.keypairView_inUse]
    exact .live h
  evpPkey := by
    rw [Enclave.pkeyView_inUse, Enclave.pkeyView_inUse]
    exact .holds (.live h)

/-- Eight bytes that are signed show nothing of what is behind them, nor of what else is on
the heap; and a signature with another private half is all that changes with that. -/
theorem noninterference_sample :
    let calls : List (Ecall reference) :=
      [.rsaSign [1, 2, 3, 4, 5, 6, 7, 8] 512 sampleRand, .increment, .returnA]
    let here := calls.map fun c => (c, (⟨fun _ => 0, fun _ => 0⟩ : Memory))
    let there := calls.map fun c => (c, (⟨fun _ => 1, fun _ => 0⟩ : Memory))
    List.Forall₂ (Outcome.Rel Eq) (trace enclave (.inUse [] sampleKey) here)
        (trace enclave (.inUse [⟨1, none⟩] sampleKey) there) ∧
      List.Forall₂ (Outcome.Rel Output.SameButSignature)
        (trace enclave (.inUse [] sampleKey) here)
        (trace enclave (.inUse [⟨1, none⟩] { sampleKey with d := 1 }) there) := by
  intro calls here there
  have hin : Along enclave Contained (.inUse [] sampleKey) here := by
    refine ⟨.inr (.inr ⟨_, Enclave.keypairView_inUse _ _, by decide, .inl (by decide)⟩), ?_⟩
    intro _ _ _
    exact ⟨trivial, fun _ _ _ => ⟨trivial, fun _ _ _ => trivial⟩⟩
  have hsame : ∀ R : Option Key → Option Key → Prop,
      List.Forall₂ (fun x y => x.1.Rel R y.1) here there :=
    fun R => .cons rfl (.cons rfl (.cons rfl .nil))
  have hpub : SamePublic (some sampleKey) (some { sampleKey with d := 1 }) := rfl
  exact ⟨(noninterference hin).1 (agree_inUse rfl _ _) (hsame _),
    (noninterference hin).2 (agree_inUse hpub _ _) (hsame _)⟩

/-- The empty string is encrypted together with the seven bytes behind it. -/
theorem run_encrypt_empty (c : Byte) :
    ∃ out s', referenceEncrypt sampleRand sampleKey.pub (0 :: List.replicate 7 c) = .done out ∧
      (enclave ((.rsaEncrypt [] 512 sampleRand : Ecall reference),
        ⟨fun _ => c, fun _ => 0⟩)).run (.inUse [] sampleKey) = .ret (⟨0, [], out, []⟩, s') := by
  obtain ⟨out, hout⟩ := exists_referenceEncrypt sampleRand sampleKey.pub
    (m := 0 :: List.replicate 7 c) rfl
  let mem : Memory := ⟨fun _ => c, fun _ => 0⟩
  let p : Ptr := Build.sgx.plaintext mem ([] ++ [0])
  let s : Enclave := { Enclave.inUse [] sampleKey with uprints := [] }
  let s' : Enclave := s.afterPrints (o := reference) sampleRand
  have hread : p.read sizeofPtr = 0 :: List.replicate 7 c := rfl
  have hop : reference.rsaPublicEncrypt sampleRand (some sampleKey.pub) (p.read sizeofPtr) =
      .done out := by
    rw [reference_rsaPublicEncrypt, hread, hout]
  have hecall : (ecallRsaEncrypt reference sampleRand p 512).run s = .ret (⟨0, out⟩, s') := by
    have hview : s.keypairView = .live (some sampleKey) := rfl
    rw [run_ecallRsaEncrypt, hview]
    simp only [Option.map_some, hop]
    rfl
  have hlen : out.length = sizeT 512 := (reference.rsaPublicEncrypt_length hop).trans (by decide)
  have hbuf : (withBuffer mem (sizeT 512) (ecallRsaEncrypt reference sampleRand p 512)).run s =
      .ret ((0, out), s') := by
    rw [withBuffer, StateT.run_bind, hecall, Outcome.ret_bind]
    simp only [Build.filled, hlen, le_refl, if_true, Build.contents_of_length]
    rfl
  have hbody : ((Ecall.rsaEncrypt [] 512 sampleRand).body mem).run s =
      .ret ((0, [], out), s') := by
    simp only [Ecall.body, StateT.run_bind]
    rw [hbuf]
    rfl
  exact ⟨out, s', hout, run_enclave hbody⟩

/-- The host asks for the empty string to be encrypted: the ciphertext depends on what lies
behind the string, in enclaves that agree on everything else. -/
theorem not_noninterference_empty :
    let call : Ecall reference := .rsaEncrypt [] 512 sampleRand
    Agree Eq (.inUse [] sampleKey) (.inUse [] sampleKey) ∧
      ¬ List.Forall₂ (Outcome.Rel Eq)
        (trace enclave (.inUse [] sampleKey) [(call, ⟨fun _ => 0, fun _ => 0⟩)])
        (trace enclave (.inUse [] sampleKey) [(call, ⟨fun _ => 1, fun _ => 0⟩)]) := by
  refine ⟨agree_inUse rfl _ _, ?_⟩
  intro h
  obtain ⟨out, s, hout, hrun⟩ := run_encrypt_empty 0
  obtain ⟨out', s', hout', hrun'⟩ := run_encrypt_empty 1
  rw [trace_cons_ret hrun, trace_cons_ret hrun'] at h
  have heq : out = out' := congrArg Output.out (List.forall₂_cons.mp h).1
  have hne : referenceEncrypt sampleRand sampleKey.pub (0 :: List.replicate 7 0) ≠
      referenceEncrypt sampleRand sampleKey.pub (0 :: List.replicate 7 1) := by
    decide +kernel
  apply hne
  rw [hout, hout', heq]

end SgxErlang.Rsa
