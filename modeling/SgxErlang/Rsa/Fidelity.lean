import SgxErlang.Rsa.Nif
import SgxErlang.Rsa.Reference

/-!
# Which message is signed and encrypted

The enclave functions take `sizeof(plaintext)` bytes, the size of a pointer, from where
the plaintext starts.  A payload is therefore what is signed and encrypted only if it has
exactly that size; and behind the bridge, where the plaintext was copied up to its first
zero, only if no zero comes before the last of these bytes.

## Main results

* `faithful_iff` — the payloads that are handed on as they are.
-/

namespace SgxErlang.Rsa

/-- A call of `rsa_sign` or of `rsa_encrypt` with the payload behaves as if the operation
had been handed the payload, whatever the operation does with it. -/
def Faithful (b : Build) (payload : List Byte) : Prop :=
  ∀ (o : OpenSSL) (mem : Memory) (r : o.Rand) (s : Enclave),
    (rsaSignNif o b mem r (.ofBytes payload)).run s =
      (b.operation s r fun key => o.rsaSign r key payload) ∧
    (rsaEncryptNif o b mem r (.ofBytes payload)).run s =
      (b.operation s r fun key => o.rsaPublicEncrypt r (key.map Key.pub) payload)

/-! ## What the bridge leaves of a payload -/

theorem length_message (b : Build) (mem : Memory) (cleartext : List Byte) :
    (b.message mem cleartext).length = 8 := Ptr.length_read _ _

/-- A payload that is long enough is handed on up to the size of a pointer. -/
theorem message_noSgx {payload : List Byte} (h : 8 ≤ payload.length + 1) (mem : Memory) :
    Build.noSgx.message mem (payload ++ [0]) = (payload ++ [0]).take 8 :=
  Ptr.read_of_le (by simpa [Build.plaintext, sizeofPtr] using h)

/-- Behind the bridge, only the part before the first zero counts. -/
theorem message_sgx {payload : List Byte} (h : 7 ≤ strlen payload) (mem : Memory) :
    Build.sgx.message mem (payload ++ [0]) = (payload ++ [0]).take 8 := by
  have hbuf : (Build.sgx.plaintext mem (payload ++ [0])).buf = cstr payload ++ [0] := by
    rw [Build.plaintext, cstr_append_zero]
  have hlen : 8 ≤ (cstr payload ++ [0]).length := by
    rw [List.length_append, List.length_singleton]
    exact Nat.succ_le_succ h
  obtain ⟨rest, hrest⟩ := cstr_append_zero_isPrefixOf payload
  rw [Build.message, Ptr.read_of_le (hbuf ▸ hlen), hbuf, ← hrest, sizeofPtr,
    List.take_append_of_le_length hlen]

/-- A string that ends early is followed by what lies behind the copy. -/
theorem message_sgx_of_short {payload : List Byte} (h : strlen payload < 7) (mem : Memory) :
    (Build.sgx.message mem (payload ++ [0]))[7]? = some (mem.beyond (6 - strlen payload)) := by
  have hbuf : (Build.sgx.plaintext mem (payload ++ [0])).buf = cstr payload ++ [0] := by
    rw [Build.plaintext, cstr_append_zero]
  have hlen : (cstr payload ++ [0]).length = strlen payload + 1 := by
    rw [List.length_append, List.length_singleton, strlen]
  have hread := Ptr.getElem?_read_of_ge (p := Build.sgx.plaintext mem (payload ++ [0]))
    (n := sizeofPtr) (i := 7) (by decide) (by rw [hbuf, hlen]; omega)
  rw [hbuf, hlen] at hread
  have hidx : 7 - (strlen payload + 1) = 6 - strlen payload := by omega
  rw [Build.message, hread, hidx]
  rfl

/-- The string in a payload of eight bytes is cut short by a zero before the last byte. -/
theorem seven_le_strlen_iff {payload : List Byte} (h : payload.length = 8) :
    7 ≤ strlen payload ↔ (0 : Byte) ∉ payload.take 7 := by
  rw [← strlen_eq_length_iff, strlen_take, List.length_take, h]
  omega

/-- The payloads that every call hands on as they are, wherever the memory around them
comes from. -/
theorem message_eq_iff (b : Build) (payload : List Byte) :
    (∀ mem, b.message mem (payload ++ [0]) = payload) ↔
      payload.length = 8 ∧ (b = .sgx → (0 : Byte) ∉ payload.take 7) := by
  have htake : payload.length = 8 → (payload ++ [0]).take 8 = payload := by
    intro hlen
    rw [← hlen, List.take_append_of_le_length le_rfl, List.take_length]
  constructor
  · intro h
    have hlen : payload.length = 8 := by
      rw [← h ⟨fun _ => 0, fun _ => 0⟩, length_message]
    refine ⟨hlen, ?_⟩
    rintro rfl
    rw [← seven_le_strlen_iff hlen]
    by_contra hshort
    -- the last byte is whatever lies behind the copy
    have hany : ∀ c : Byte, payload[7]? = some c := by
      intro c
      have hmsg := message_sgx_of_short (Nat.lt_of_not_le hshort) ⟨fun _ => c, fun _ => 0⟩
      rwa [h] at hmsg
    exact absurd ((hany 0).symm.trans (hany 1)) (by decide)
  · rintro ⟨hlen, hzero⟩ mem
    cases b with
    | noSgx =>
        rw [message_noSgx (by omega), htake hlen]
    | sgx =>
        have hstr := (seven_le_strlen_iff hlen).mpr (hzero rfl)
        rw [message_sgx hstr, htake hlen]

/-! ## The calls -/

/-- An OpenSSL whose outputs tell whether the message was the given one. -/
def recorder (payload : List Byte) : OpenSSL where
  Rand := Unit
  rsaSign := fun _ _ m => .done (List.replicate rsaSize (if m = payload then 1 else 0))
  rsaPublicEncrypt := fun _ _ m => .done (List.replicate rsaSize (if m = payload then 1 else 0))
  i2dPublicKey := fun _ _ => none
  i2dPrivateKey := fun _ _ => none
  prints := fun _ => []
  bufsiz := 1
  stack := defaultStack
  declaredLayout := false
  rsaSign_length := by
    intro _ _ _ out h
    rw [← OpResult.done.inj h, List.length_replicate]
  rsaSign_complete := nofun
  rsaSign_public := fun _ => trivial
  rsaPublicEncrypt_length := by
    intro _ _ _ out h
    rw [← OpResult.done.inj h, List.length_replicate]
  rsaPublicEncrypt_complete := nofun
  i2dPublicKey_unique := nofun

/-- A state in which a key is installed. -/
def Enclave.withKey (k : Key) : Enclave :=
  { Enclave.init with
    keypair := some 0, rsas := [⟨1, some k⟩], evpPkey := some 0, pkeys := [⟨true, some 0⟩] }

theorem installed_withKey (k : Key) : (Enclave.withKey k).Installed k := ⟨rfl, rfl⟩

/-- A call that hands on something else than the payload can be told from one that does
not. -/
theorem not_faithful_of_message_ne {b : Build} {payload : List Byte} {mem : Memory}
    (h : b.message mem (payload ++ [0]) ≠ payload) : ¬ Faithful b payload := by
  intro hf
  have hsign := (hf (recorder payload) mem () (.withKey sampleKey)).1
  have hrun := (run_rsaSignNif _ _ _).symm.trans hsign
  simp only [Build.operation, (installed_withKey sampleKey).1] at hrun
  obtain ⟨cleartext, hread, hop⟩ := Outcome.bind_eq_ret_iff.mp hrun
  obtain ⟨-, rfl⟩ := (readArgument_ofBytes_eq_ret_iff _).mp hread
  have hout := Term.binary.inj (Outcome.pair_inj hop).1
  have hbyte := (List.replicate_right_inj (by decide : rsaSize ≠ 0)).mp hout
  rw [if_neg h, if_pos rfl] at hbyte
  exact absurd hbyte (by decide)

/-- The payloads that are signed and encrypted as they are. -/
theorem faithful_iff (b : Build) (payload : List Byte) :
    Faithful b payload ↔ payload.length = 8 ∧ (b = .sgx → (0 : Byte) ∉ payload.take 7) := by
  rw [← message_eq_iff]
  constructor
  · intro h mem
    by_contra hne
    exact not_faithful_of_message_ne hne h
  · intro h o mem r s
    have hfits : payload.length + 1 ≤ o.stack.room := by
      have hlower := o.stack.lower
      rw [((message_eq_iff b payload).mp h).1]
      omega
    rw [run_rsaSignNif, run_rsaEncryptNif, readArgument_of_le o hfits]
    simp only [h mem, Outcome.ret_bind, and_self]

/-- `"My data is this!"`, the payload of `test_rsa`, is handed on as it is by neither
build. -/
theorem not_faithful_test_payload :
    let payload := literal ['M', 'y', ' ', 'd', 'a', 't', 'a', ' ', 'i', 's', ' ', 't', 'h', 'i',
      's', '!']
    ¬ Faithful .sgx payload ∧ ¬ Faithful .noSgx payload := by
  intro payload
  have hne : ∀ b : Build, b.message ⟨fun _ => 0, fun _ => 0⟩ (payload ++ [0]) ≠ payload := by
    intro b h
    have hlen := congrArg List.length h
    rw [length_message] at hlen
    exact absurd hlen (by decide)
  exact ⟨not_faithful_of_message_ne (hne .sgx), not_faithful_of_message_ne (hne .noSgx)⟩

end SgxErlang.Rsa
