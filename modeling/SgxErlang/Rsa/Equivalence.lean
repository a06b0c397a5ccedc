import Mathlib.Data.List.Forall2
import SgxErlang.Lib.Run
import SgxErlang.Rsa.Fidelity

/-!
# The two builds, side by side

Both builds are fed the same calls, with the same results of the OpenSSL calls, while the
memory around each of them is its own.  They answer alike as long as no enclave function
reports an error, which the SGX build passes over and the other one aborts on, and as long
as no string is too short for the eight bytes that are read from it.

The simulation relates states that agree on the counter and on the keys.  What has been
printed differs: the callback is installed in the enclave alone.

## Main results

* `nif_rel` — one call in the two builds.
* `traces_alike` — whole runs.
-/

namespace SgxErlang.Rsa

variable {o : OpenSSL}

/-! ## When the builds agree -/

/-- An operation that does the same in both builds, on a payload: there is no key, or an empty
one that OpenSSL cannot use; or the first eight bytes are part of the string and OpenSSL does
not report an error. -/
def SameOperation (s : Enclave) (payload : List Byte) (op : Option Key → List Byte → OpResult) :
    Prop :=
  s.keypairView = .unset ∨ (s.keypairView = .live none ∧ ∀ m, op none m = .fault) ∨
    ∃ key, s.keypairView = .live key ∧ 7 ≤ strlen payload ∧
      op key ((payload ++ [0]).take sizeofPtr) ≠ .failed

/-- A call that does the same in both builds. -/
def Portable (s : Enclave) (x : NifCall o × Memory) : Prop :=
  match x.1 with
  | .increment => True
  | .rtrn => True
  | .rsaKeyGen r => r.initCrypto = 1
  | .rsaSign arg r => ∃ payload, arg = .ofBytes payload ∧ payload.length + 1 < 2 ^ 32 ∧
      SameOperation s payload (o.rsaSign r)
  | .rsaEncrypt arg r => ∃ payload, arg = .ofBytes payload ∧ payload.length + 1 < 2 ^ 32 ∧
      SameOperation s payload fun key => o.rsaPublicEncrypt r (key.map Key.pub)
  | .rsaGetPubkey r => (r.malloc = true → s.pkeyView.Filled r pubkeyBufferSize) ∧
      ∃ der, s.pkeyView.encoding r.lenRand = .ret (some der) ∧ der.length = pubkeyBufferSize

/-! ## The simulation -/

/-- The counter and the keys are the same. -/
structure Twin (s t : Enclave) : Prop extends s.SameKeys t where
  a : t.a = s.a

/-- What the observer should see: the same term, from states that stay related. -/
def SameAnswer (p q : Term × Enclave) : Prop := p.1 = q.1 ∧ Twin p.2 q.2

namespace Twin

variable {s t : Enclave}

theorem refl (s : Enclave) : Twin s s := ⟨⟨rfl, rfl, rfl, rfl⟩, rfl⟩

theorem afterPrints (h : Twin s t) (r : o.Rand) : Twin (s.afterPrints r) (t.afterPrints r) :=
  ⟨⟨h.keypair, h.evpPkey, h.rsas, h.pkeys⟩, h.a⟩

/-- Both builds generate the same key at the same place. -/
theorem after (h : Twin s t) (r : KeyGenResults o) :
    Twin (r.after { s with printCB := true }) (r.after t) := by
  have hrsas : t.rsas = s.rsas := h.rsas
  have hpkeys : t.pkeys = s.pkeys := h.pkeys
  unfold KeyGenResults.after
  split_ifs
  · exact ⟨⟨h.keypair, h.evpPkey, hrsas, hpkeys⟩, h.a⟩
  · exact ⟨⟨h.keypair, h.evpPkey, hrsas, hpkeys⟩, h.a⟩
  · exact ⟨⟨rfl, h.evpPkey, hrsas, hpkeys⟩, h.a⟩
  all_goals
    simp only [hrsas, hpkeys]
  · exact ⟨⟨rfl, h.evpPkey, rfl, rfl⟩, h.a⟩
  · exact ⟨⟨rfl, rfl, rfl, rfl⟩, h.a⟩
  · exact ⟨⟨rfl, rfl, rfl, rfl⟩, rfl⟩
  · exact ⟨⟨rfl, rfl, rfl, rfl⟩, rfl⟩

end Twin

/-- What the two builds hand to the operation is the same, if it is part of the string. -/
theorem messages_eq {payload : List Byte} (h : 7 ≤ strlen payload) (mem mem' : Memory) :
    Build.sgx.message mem (payload ++ [0]) = (payload ++ [0]).take sizeofPtr ∧
      Build.noSgx.message mem' (payload ++ [0]) = (payload ++ [0]).take sizeofPtr := by
  have hle : strlen payload ≤ payload.length := strlen_le payload
  exact ⟨message_sgx h mem, message_noSgx (by omega) mem'⟩

theorem operation_rel {s t : Enclave} (hst : Twin s t) {payload : List Byte}
    {op : Option Key → List Byte → OpResult} (h : SameOperation s payload op) (r : o.Rand)
    (mem mem' : Memory) :
    Outcome.Rel SameAnswer
      (Build.sgx.operation s r fun key => op key (Build.sgx.message mem (payload ++ [0])))
      (Build.noSgx.operation t r fun key => op key (Build.noSgx.message mem' (payload ++ [0]))) := by
  have hview : t.keypairView = s.keypairView := hst.keypairView
  rcases h with hunset | ⟨hempty, hfault⟩ | ⟨key, hlive, hlong, hfailed⟩
  · simp only [Build.operation, hview, hunset]
    exact Outcome.rel_of_stopped trivial trivial
  · simp only [Build.operation, hview, hempty, hfault]
    exact Outcome.rel_of_stopped trivial trivial
  · have hmsg := messages_eq hlong mem mem'
    simp only [Build.operation, hview, hlive, hmsg.1, hmsg.2]
    cases hop : op key ((payload ++ [0]).take sizeofPtr) with
    | done out => exact ⟨rfl, hst.afterPrints r⟩
    | failed => exact absurd hop hfailed
    | fault => exact Outcome.rel_of_stopped trivial trivial

/-- A list of bytes is read by both builds, or it overflows the stack of both. -/
theorem argument_rel {payload : List Byte} (hcount : payload.length + 1 < 2 ^ 32)
    {f g : List Byte → Outcome (Term × Enclave)}
    (h : Outcome.Rel SameAnswer (f (payload ++ [0])) (g (payload ++ [0]))) :
    Outcome.Rel SameAnswer (readArgument o (.ofBytes payload) >>= f)
      (readArgument o (.ofBytes payload) >>= g) := by
  by_cases hfits : payload.length + 1 ≤ o.stack.room
  · rw [readArgument_of_le o hfits]
    exact h
  · rw [readArgument_of_lt o (Nat.lt_of_not_le hfits) hcount]
    exact Outcome.rel_of_stopped trivial trivial

/-- The public key is returned by both builds, or there is no buffer for it in either. -/
theorem returned_rel {s t : Enclave} (hst : Twin s t) {r : PubkeyResults o} {der : List Byte}
    {written : Option (List Byte)} (hlen : derLen (some der) = pubkeyBufferSize)
    (hwritten : r.malloc = true → written = some der) {mem mem' : Memory} :
    Outcome.Rel SameAnswer (r.returned .sgx mem (some der) written s)
      (r.returned .noSgx mem' (some der) written t) := by
  simp only [PubkeyResults.returned, hlen, ne_eq, not_true_eq_false, if_false]
  cases hmalloc : r.malloc with
  | true =>
      have hsize : der.length = pubkeyBufferSize := Int.ofNat.inj hlen
      rw [hwritten hmalloc, Option.getD_some, ← hsize, Ptr.read_length, Ptr.read_length]
      exact ⟨rfl, hst⟩
  | false => exact Outcome.rel_of_stopped trivial trivial

/-- One call in the two builds, from related states and with any memory around it. -/
theorem nif_rel {s t : Enclave} (hst : Twin s t) {call : NifCall o} {mem : Memory}
    (h : Portable s (call, mem)) (mem' : Memory) :
    Outcome.Rel SameAnswer ((nif o .sgx (call, mem)).run s) ((nif o .noSgx (call, mem')).run t) := by
  have ha : t.a = s.a := hst.a
  cases call with
  | increment =>
      simp only [nif, run_incrementNif, Outcome.rel_ret]
      exact ⟨rfl, ⟨⟨hst.keypair, hst.evpPkey, hst.rsas, hst.pkeys⟩, congrArg (· + 1) ha⟩⟩
  | rtrn =>
      simp only [nif, run_rtrnNif, Outcome.rel_ret, ha]
      exact ⟨rfl, hst⟩
  | rsaKeyGen r =>
      have hinit : r.initCrypto = 1 := h
      simp only [nif, run_rsaKeyGenNif, hinit, if_true, Outcome.rel_ret]
      exact ⟨rfl, hst.after r⟩
  | rsaSign arg r =>
      obtain ⟨payload, rfl, hlen, hop⟩ := h
      simp only [nif, run_rsaSignNif]
      exact argument_rel hlen (operation_rel hst hop r mem mem')
  | rsaEncrypt arg r =>
      obtain ⟨payload, rfl, hlen, hop⟩ := h
      simp only [nif, run_rsaEncryptNif]
      exact argument_rel hlen (operation_rel hst hop r mem mem')
  | rsaGetPubkey r =>
      obtain ⟨hfilled, der, hder, hlen⟩ := h
      have hset : s.pkeyView ≠ .unset := by
        intro hunset
        rw [hunset] at hder
        cases hder
      have hview : t.pkeyView = s.pkeyView := hst.pkeyView
      simp only [nif, run_rsaGetPubkeyNif, hview, if_neg hset]
      rcases s.pkeyView.encoding_cases hset with hundef | ⟨f, hf, -⟩
      · exact absurd (hundef r.lenRand) (by simp [hder])
      rw [hder, hf r.derRand, Outcome.ret_bind, Outcome.ret_bind, Outcome.ret_bind,
        Outcome.ret_bind]
      refine returned_rel hst (congrArg _ hlen) fun hmalloc => ?_
      exact (hfilled hmalloc).eq_some hder (congrArg _ hlen) (hf r.derRand)

/-- Runs of the two builds on the same calls are alike, if every call does the same in
both. -/
theorem traces_alike {calls calls' : List (NifCall o × Memory)}
    (hcalls : calls.map Prod.fst = calls'.map Prod.fst)
    (hportable : Along (nif o .sgx) Portable .init calls) :
    List.Forall₂ (Outcome.Rel Eq) (trace (nif o .sgx) .init calls)
      (trace (nif o .noSgx) .init calls') := by
  have hpairs : List.Forall₂ (fun x y => x.1 = y.1) calls calls' := by
    have hmaps : List.Forall₂ Eq (calls.map Prod.fst) (calls'.map Prod.fst) := by
      rw [List.forall₂_eq_eq_eq]
      exact hcalls
    rwa [List.forall₂_map_left_iff, List.forall₂_map_right_iff] at hmaps
  refine trace_rel_of_simulation Twin (fun x y => x.1 = y.1) Eq Portable ?_ hpairs
    (Twin.refl .init) hportable
  intro s t x y hst hxy hx
  obtain ⟨call, mem⟩ := x
  obtain ⟨call', mem'⟩ := y
  obtain rfl : call = call' := hxy
  exact nif_rel hst hx mem'

/-- A session in which a key is generated, eight bytes are signed and the public key is read,
with different memory around the two builds. -/
theorem traces_alike_session :
    let r : KeyGenResults reference :=
      ⟨1, true, true, true, some sampleKey, true, true, sampleRand⟩
    let calls : List (NifCall reference) :=
      [.rsaKeyGen r, .rsaSign (.ofBytes [1, 2, 3, 4, 5, 6, 7, 8]) sampleRand,
        .rsaGetPubkey samplePubkey]
    List.Forall₂ (Outcome.Rel Eq)
      (trace (nif reference .sgx) .init (calls.map fun c => (c, ⟨fun _ => 0, fun _ => 0⟩)))
      (trace (nif reference .noSgx) .init (calls.map fun c => (c, ⟨fun _ => 1, fun _ => 1⟩))) := by
  intro r calls
  refine traces_alike rfl ⟨rfl, ?_⟩
  intro t s hgen
  rw [nif, run_rsaKeyGenNif] at hgen
  obtain ⟨-, rfl⟩ := Outcome.pair_inj hgen
  have hinstalled : (r.after { Enclave.init with printCB := true }).Installed sampleKey :=
    ⟨rfl, rfl⟩
  have hsucceeds : reference.rsaSign sampleRand (some sampleKey) [1, 2, 3, 4, 5, 6, 7, 8] ≠
      .failed := by
    obtain ⟨out, hout⟩ := exists_referenceSign sampleKey (m := [1, 2, 3, 4, 5, 6, 7, 8]) rfl
    rw [reference_rsaSign, hout]
    exact OpResult.noConfusion
  refine ⟨⟨_, rfl, by decide, .inr (.inr ⟨_, hinstalled.1, by decide, hsucceeds⟩)⟩, ?_⟩
  intro t' s' hsign
  have hother : ∀ r' : KeyGenResults reference,
      NifCall.rsaSign (.ofBytes [1, 2, 3, 4, 5, 6, 7, 8]) sampleRand ≠ .rsaKeyGen r' := by
    intro r' h
    injection h
  have hkeys := nif_sameKeys hother hsign
  have hpkey : s'.pkeyView = .holds (.live (some sampleKey)) :=
    hkeys.pkeyView.trans hinstalled.2
  refine ⟨⟨fun _ der _ _ => ?_, derPublicKey sampleKey.pub, ?_, length_derPublicKey _⟩,
    fun _ _ _ => trivial⟩
  · rw [hpkey]
    exact fun h => absurd (Outcome.ret.inj h) (Option.some_ne_none _)
  · rw [hpkey]
    rfl

/-- The public key, asked for before there is one: the SGX build returns zeros, the other
one aborts. -/
theorem not_traces_alike_getPubkey :
    let calls : List (NifCall reference × Memory) :=
      [(.rsaGetPubkey samplePubkey, ⟨fun _ => 0, fun _ => 0⟩)]
    ¬ List.Forall₂ (Outcome.Rel Eq) (trace (nif reference .sgx) .init calls)
      (trace (nif reference .noSgx) .init calls) := by
  intro calls h
  have hsgx : (nif reference .sgx (.rsaGetPubkey samplePubkey, ⟨fun _ => 0, fun _ => 0⟩)).run
      .init = .ret (.binary (List.replicate pubkeyBufferSize 0), .init) := by
    rw [nif, run_rsaGetPubkeyNif]
    rfl
  have hno : (nif reference .noSgx (.rsaGetPubkey samplePubkey, ⟨fun _ => 0, fun _ => 0⟩)).run
      .init = .aborted := by
    rw [nif, run_rsaGetPubkeyNif]
    rfl
  simp only [calls, trace, hsgx, hno] at h
  exact (List.forall₂_cons.mp h).1.1

end SgxErlang.Rsa
