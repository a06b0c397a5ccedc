import SgxErlang.Lib.Exec
import SgxErlang.Rsa.OpenSSL

/-!
# The enclave code behind the RSA functions

`Enclave/Enclave.cpp`, and `App_no-sgx/EnclavedErlangCFunc/Enclave.cpp`, which is the same
text with the calls of `printf` commented out.  `printf` does nothing in the first one
either, so that there is one definition of each function, and only `ecall_rsa_key_gen`,
which installs the print callback in the enclave alone, distinguishes the two builds.

The heap is what the code allocates: RSA objects with their reference counts, `EVP_PKEY`
objects, and the numbers of live `BIGNUM`s and DER buffers.  A pointer to an object is its
position in the list; objects are never removed, but one whose count is zero is gone, and
using it is undefined.

`rsa_key_gen` is a list of statements, since other calls may run between any two of them.
It asks for each encoding of the key twice, first for its length; that the second call comes
to the same as the first, and that the `malloc` between them succeeds, is assumed there.  In
`ecall_rsa_get_pubkey` the two calls and the `malloc` have results of their own.

## Main definitions

* `Enclave` — the globals and the heap.
* `KeyGenStmt.exec`, `rsaKeyGen` — key generation, by statements and as a whole.
* `ecallRsaSign`, `ecallRsaEncrypt`, `ecallRsaGetPubkey`, `ecallRsaKeyGen` — the ecalls.
-/

namespace SgxErlang.Rsa

/-- The two builds of the NIF library. -/
inductive Build where
  | sgx
  | noSgx
  deriving DecidableEq, Repr

/-- An RSA object: its reference count, and its key once that is generated. -/
structure RsaObj where
  refs : ℕ
  key : Option Key
  deriving DecidableEq

/-- An `EVP_PKEY` object: whether its type has been set, and the RSA object it holds. -/
structure PkeyObj where
  typed : Bool
  pkey : Option ℕ
  deriving DecidableEq, Repr

/-- The globals of the enclave, and its heap. -/
@[ext]
structure Enclave where
  /-- `static int32_t a`. -/
  a : BitVec 32
  /-- `static EVP_PKEY *evp_pkey`. -/
  evpPkey : Option ℕ
  /-- `static RSA *keypair`. -/
  keypair : Option ℕ
  /-- `SGXSSLSetPrintToStdoutStderrCB` has been called. -/
  printCB : Bool
  rsas : List RsaObj
  pkeys : List PkeyObj
  /-- The number of live `BIGNUM`s. -/
  bns : ℕ
  /-- The number of live DER buffers. -/
  bufs : ℕ
  /-- The strings that have been passed to `uprint`. -/
  uprints : List (List Byte)
  deriving DecidableEq

namespace Enclave

/-- The enclave after it was created. -/
def init : Enclave where
  a := 0
  evpPkey := none
  keypair := none
  printCB := false
  rsas := []
  pkeys := []
  bns := 0
  bufs := 0
  uprints := []

end Enclave

variable (o : OpenSSL)

/-! ## Output -/

/-- `printf`: the body is commented out. -/
def printf (_fmt : String) (_args : List ℤ) : Exec Enclave Unit := pure ()

/-- `vprintf_cb`: what does not fit the buffer is cut off, and `uprint` takes a string. -/
def vprintfCb (text : List Byte) : Exec Enclave Unit :=
  modify fun s => { s with uprints := s.uprints ++ [cstr (text.take (o.bufsiz - 1))] }

/-- What an OpenSSL call prints goes through the callback, once that is installed. -/
def opensslPrints (r : o.Rand) : Exec Enclave Unit := do
  if (← get).printCB then forM (o.prints r) (vprintfCb o)

/-! ## Objects -/

/-- The RSA object a pointer points to. -/
def derefRsa (i : ℕ) : Exec Enclave RsaObj := do
  match (← get).rsas[i]? with
  | some obj => if obj.refs = 0 then Exec.undefinedBehaviour else pure obj
  | none => Exec.undefinedBehaviour

/-- The `EVP_PKEY` object a pointer points to. -/
def derefPkey : Option ℕ → Exec Enclave PkeyObj
  | none => Exec.crash
  | some j => do
      match (← get).pkeys[j]? with
      | some obj => pure obj
      | none => Exec.undefinedBehaviour

/-- The key in the RSA object that `keypair` points to, as an OpenSSL operation uses it. -/
def derefKeypair : Exec Enclave (Option Key) := do
  match (← get).keypair with
  | none => Exec.crash
  | some i => do
      let obj ← derefRsa i
      pure obj.key

/-- `RSA_free`: drops a reference; a null pointer is accepted. -/
def rsaFree : Option ℕ → Exec Enclave Unit
  | none => pure ()
  | some i => do
      let obj ← derefRsa i
      modify fun s => { s with rsas := s.rsas.set i { obj with refs := obj.refs - 1 } }

/-- `i2d_PublicKey` on an `EVP_PKEY`: an error if the type has not been set, and nothing to
encode if there is no RSA object. -/
def i2dPublicKey (r : o.Rand) (evp : Option ℕ) : Exec Enclave (Option (List Byte)) := do
  let obj ← derefPkey evp
  match obj.typed, obj.pkey with
  | false, _ => pure none
  | true, none => pure (some [])
  | true, some i => do
      let rsa ← derefRsa i
      pure (o.i2dPublicKey r (rsa.key.map Key.pub))

/-- `i2d_PrivateKey` on an `EVP_PKEY`. -/
def i2dPrivateKey (r : o.Rand) (evp : Option ℕ) : Exec Enclave (Option (List Byte)) := do
  let obj ← derefPkey evp
  match obj.typed, obj.pkey with
  | false, _ => pure none
  | true, none => pure (some [])
  | true, some i => do
      let rsa ← derefRsa i
      pure (o.i2dPrivateKey r rsa.key)

/-- The `int` that the `i2d` functions return. -/
def derLen : Option (List Byte) → ℤ
  | some der => der.length
  | none => -1

/-! ## Key generation -/

/-- The locals of `rsa_key_gen`: the length of the encoding, and the buffer with it. -/
structure Frame where
  len : ℤ
  buf : List Byte

/-- The locals before they are assigned. -/
def Frame.start : Frame := ⟨0, []⟩

/-- The statements of `rsa_key_gen`.  Where a test reads a global again, it is a statement
of its own. -/
inductive KeyGenStmt where
  | bnNew | bnSetWord | rsaNew | checkKeypair | generate | evpNew | checkPkey | assign
  | lenPublic | derPublic | printPublic | lenPrivate | derPrivate | printPrivate
  | bnFree | rsaFree | clearA
  deriving DecidableEq, Repr

/-- One statement.  The result is `none` if the statement returns from the function. -/
def KeyGenStmt.exec (r : KeyGenResults o) (f : Frame) : KeyGenStmt → Exec Enclave (Option Frame)
  | .bnNew => do
      if r.bnNew then
        modify fun s => { s with bns := s.bns + 1 }
        pure (some f)
      else
        printf "BN_new failure: %ld\n" []
        pure none
  | .bnSetWord => do
      if r.bnSetWord then pure (some f)
      else
        printf "BN_set_word failure\n" []
        pure none
  | .rsaNew => do
      modify fun s =>
        if r.rsaNew then
          { s with keypair := some s.rsas.length, rsas := s.rsas ++ [⟨1, none⟩] }
        else { s with keypair := none }
      pure (some f)
  | .checkKeypair => do
      if (← get).keypair.isSome then pure (some f)
      else
        printf "RSA_new failure: %ld\n" []
        pure none
  | .generate => do
      match (← get).keypair with
      | none => Exec.crash
      | some i => do
          let obj ← derefRsa i
          opensslPrints o r.rand
          modify fun s => { s with rsas := s.rsas.set i { obj with key := r.generate } }
          if r.generate.isSome then pure (some f)
          else
            printf "RSA_generate_key_ex failure: %ld\n" []
            pure none
  | .evpNew => do
      modify fun s =>
        if r.evpNew then
          { s with evpPkey := some s.pkeys.length, pkeys := s.pkeys ++ [⟨false, none⟩] }
        else { s with evpPkey := none }
      pure (some f)
  | .checkPkey => do
      if (← get).evpPkey.isSome then pure (some f)
      else
        printf "EVP_PKEY_new failure: %ld\n" []
        pure none
  | .assign => do
      -- the result of `EVP_PKEY_assign_RSA` is not looked at
      match (← get).evpPkey with
      | none => pure (some f)
      | some j => do
          if r.assign then
            let obj ← derefPkey (some j)
            -- a key that the object held before is freed
            Rsa.rsaFree obj.pkey
            modify fun s => { s with pkeys := s.pkeys.set j ⟨true, s.keypair⟩ }
          pure (some f)
  | .lenPublic => do
      let der ← i2dPublicKey o r.rand (← get).evpPkey
      modify fun s => { s with bufs := s.bufs + 1 }
      pure (some { f with len := derLen der })
  | .derPublic => do
      let der ← i2dPublicKey o r.rand (← get).evpPkey
      if derLen der ≤ f.len + 1 then pure (some { f with buf := der.getD [] })
      else Exec.undefinedBehaviour
  | .printPublic => do
      printf "\x7b\"public\":\"" []
      forM (f.buf.take f.len.toNat) fun b => printf "%02x" [b.toNat]
      printf "\"\x7d\n" []
      printf "\n\n\n%d\n\n\n" [f.len]
      modify fun s => { s with bufs := s.bufs - 1 }
      pure (some f)
  | .lenPrivate => do
      let der ← i2dPrivateKey o r.rand (← get).evpPkey
      modify fun s => { s with bufs := s.bufs + 1 }
      pure (some { f with len := derLen der })
  | .derPrivate => do
      let der ← i2dPrivateKey o r.rand (← get).evpPkey
      if derLen der ≤ f.len + 1 then pure (some { f with buf := der.getD [] })
      else Exec.undefinedBehaviour
  | .printPrivate => do
      printf "\x7b\"private\":\"" []
      forM (f.buf.take f.len.toNat) fun b => printf "%02x" [b.toNat]
      printf "\"\x7d\n" []
      modify fun s => { s with bufs := s.bufs - 1 }
      pure (some f)
  | .bnFree => do
      modify fun s => { s with bns := s.bns - 1 }
      pure (some f)
  | .rsaFree => do
      -- `evp_pkey->pkey.ptr`, with the layout declared in this file
      let obj ← derefPkey (← get).evpPkey
      let ptr := if o.declaredLayout then obj.pkey else none
      if ptr.isSome then
        Rsa.rsaFree (← get).keypair
      pure (some f)
  | .clearA => do
      modify fun s => { s with a := 0 }
      pure (some f)

/-- The body of `rsa_key_gen`. -/
def KeyGenStmt.body : List KeyGenStmt :=
  [.bnNew, .bnSetWord, .rsaNew, .checkKeypair, .generate, .evpNew, .checkPkey, .assign,
    .lenPublic, .derPublic, .printPublic, .lenPrivate, .derPrivate, .printPrivate,
    .bnFree, .rsaFree, .clearA]

/-- Statements in sequence, until one returns. -/
def runStmts (r : KeyGenResults o) : List KeyGenStmt → Frame → Exec Enclave Unit
  | [], _ => pure ()
  | st :: rest, f => do
      match ← st.exec o r f with
      | none => pure ()
      | some f' => runStmts r rest f'

/-- `rsa_key_gen`. -/
def rsaKeyGen (r : KeyGenResults o) : Exec Enclave Unit :=
  runStmts o r KeyGenStmt.body Frame.start

/-! ## The ecalls -/

/-- `ecall_increment`. -/
def ecallIncrement : Exec Enclave Unit := modify fun s => { s with a := s.a + 1 }

/-- `ecall_return_a`. -/
def ecallReturnA : Exec Enclave (BitVec 32) := do
  let s ← get
  pure s.a

/-- The size of a pointer, which `sizeof(plaintext)` yields. -/
def sizeofPtr : ℕ := 8

/-- What an ecall leaves: its status, and the bytes it wrote to its `[out]` buffer, from
the start on. -/
structure Written where
  status : ℤ
  bytes : List Byte

/-- `ecall_rsa_sign`.  The length of the output buffer is only stored in a variable that
`RSA_sign` overwrites. -/
def ecallRsaSign (r : o.Rand) (plaintext : Ptr) (_ciphertextLen : BitVec 32) :
    Exec Enclave Written := do
  let plen := sizeofPtr
  let key ← derefKeypair
  opensslPrints o r
  match o.rsaSign r key (plaintext.read plen) with
  | .done out => pure ⟨0, out⟩
  | .failed => do
      printf "RSA_sign error %d" [0]
      pure ⟨1, []⟩
  | .fault => Exec.crash

/-- `ecall_rsa_encrypt`.  The length of the output buffer is not looked at. -/
def ecallRsaEncrypt (r : o.Rand) (plaintext : Ptr) (_ciphertextLen : BitVec 32) :
    Exec Enclave Written := do
  let expectedCsize := 512
  let plen := sizeofPtr
  let key ← derefKeypair
  opensslPrints o r
  match o.rsaPublicEncrypt r (key.map Key.pub) (plaintext.read plen) with
  | .done out =>
      if out.length ≠ expectedCsize then
        printf "RSA_public_encrypt error, expected %dB got %d" [expectedCsize, out.length]
        pure ⟨1, out⟩
      else pure ⟨0, out⟩
  | .failed => do
      printf "RSA_public_encrypt error, expected %dB got %d" [expectedCsize, -1]
      pure ⟨1, []⟩
  | .fault => Exec.crash

/-- `ecall_rsa_get_pubkey`.  `heap` is what `malloc` leaves in the buffer; neither its result
nor that of the second `i2d_PublicKey` is looked at. -/
def ecallRsaGetPubkey (r : PubkeyResults o) (heap : ℕ → Byte) (requestedLen : BitVec 32) :
    Exec Enclave Written := do
  if (← get).evpPkey.isNone then
    printf "EVP_PKEY_new failure: %ld\n" []
    return ⟨1, []⟩
  let der ← i2dPublicKey o r.lenRand (← get).evpPkey
  let len := derLen der
  -- `malloc(-1)` fails in any case
  let buf := der.isSome && r.malloc
  let written := (← i2dPublicKey o r.derRand (← get).evpPkey).getD []
  -- without a buffer, `i2d_PublicKey` allocates one for what it writes
  let allocated := buf || !written.isEmpty
  modify fun s => { s with bufs := s.bufs + if allocated then 1 else 0 }
  if len ≠ requestedLen.toInt then
    printf "ECALL requested incorrect RSA key size (%d != %d)\n" [len, requestedLen.toInt]
    return ⟨2, []⟩
  if buf then
    modify fun s => { s with bufs := s.bufs - 1 }
    pure ⟨0, Ptr.read ⟨written, heap⟩ len.toNat⟩
  else if len = 0 then pure ⟨0, []⟩
  else Exec.crash

/-- `ecall_rsa_key_gen`: the status is that of `OPENSSL_init_crypto`. -/
def ecallRsaKeyGen (b : Build) (r : KeyGenResults o) : Exec Enclave ℤ := do
  if b = .sgx then
    modify fun s => { s with printCB := true }
  let ret := if r.initCrypto = 1 then 0 else 1
  rsaKeyGen o r
  pure ret

/-- `t_sgxssl_call_apis`. -/
def tSgxsslCallApis (r : KeyGenResults o) : Exec Enclave Unit := do
  printf "Starting tests\n" []
  modify fun s => { s with printCB := true }
  rsaKeyGen o r

/-! ## Run lemmas -/

@[simp] theorem run_printf (fmt : String) (args : List ℤ) (s : Enclave) :
    (printf fmt args).run s = .ret ((), s) := rfl

/-- Printing in a loop changes nothing. -/
@[simp] theorem run_forM_printf {α : Type} (l : List α) (fmt : String) (args : α → List ℤ)
    (s : Enclave) : (forM l fun x => printf fmt (args x)).run s = .ret ((), s) := by
  induction l with
  | nil => rfl
  | cons x l ih => simp [ih]

/-- The strings that reach the host when a call prints. -/
def printed (s : Enclave) (r : o.Rand) : List (List Byte) :=
  if s.printCB then (o.prints r).map fun text => cstr (text.take (o.bufsiz - 1)) else []

theorem run_forM_vprintfCb (texts : List (List Byte)) (s : Enclave) :
    (forM texts (vprintfCb o)).run s = .ret ((),
      { s with uprints := s.uprints ++ texts.map fun text => cstr (text.take (o.bufsiz - 1)) }) := by
  induction texts generalizing s with
  | nil => simp
  | cons text texts ih => simp [vprintfCb, ih]

@[simp] theorem run_opensslPrints (r : o.Rand) (s : Enclave) :
    (opensslPrints o r).run s =
      .ret ((), { s with uprints := s.uprints ++ printed o s r }) := by
  rw [opensslPrints, printed, StateT.run_bind, StateT.run_get, Outcome.pure_eq, Outcome.ret_bind]
  dsimp only
  split_ifs with hcb
  · exact run_forM_vprintfCb o (o.prints r) s
  · simp

theorem run_derefRsa {s : Enclave} {i : ℕ} {obj : RsaObj} (h : s.rsas[i]? = some obj)
    (hrefs : obj.refs ≠ 0) : (derefRsa i).run s = .ret (obj, s) := by
  simp [derefRsa, h, hrefs]

theorem run_derefPkey {s : Enclave} {j : ℕ} {obj : PkeyObj} (h : s.pkeys[j]? = some obj) :
    (derefPkey (some j)).run s = .ret (obj, s) := by
  simp [derefPkey, h]

end SgxErlang.Rsa
