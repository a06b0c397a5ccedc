import SgxErlang.Lib.CMemory

/-!
# The OpenSSL calls of the RSA code

OpenSSL is a parameter of the model.  What one call of it does is decided by the key, by
the message, and by `Rand`, which stands for everything else a call draws on: nonces,
padding, and whether it fails this time.  An RSA object that has been allocated but not
been generated completely is a key too, as far as the calls are concerned: `none`.

The laws say how long the outputs are, that nothing but the signature itself depends on the
private half of the key, and that a public key has one encoding.
-/

namespace SgxErlang.Rsa

/-- `RSA_F4`, the public exponent. -/
def rsaF4 : ℕ := 65537

/-- The public half of a completely generated key: a modulus of 4096 bits.  The exponent
is `rsaF4`. -/
structure PublicKey where
  n : ℕ
  lower : 2 ^ 4095 ≤ n
  upper : n < 2 ^ 4096
  deriving DecidableEq

/-- A completely generated key. -/
structure Key where
  pub : PublicKey
  d : ℕ
  p : ℕ
  q : ℕ
  deriving DecidableEq

/-- `RSA_size` of every key there is, in bytes. -/
def rsaSize : ℕ := 512

/-- What an operation on a key comes to: it writes its output, it reports an error, or it
runs into a null pointer inside the key. -/
inductive OpResult where
  | done (out : List Byte)
  | failed
  | fault
  deriving DecidableEq, Repr

/-- What an operation writes, if it succeeds. -/
def OpResult.output : OpResult → Option (List Byte)
  | .done out => some out
  | _ => none

/-- Two operations come to the same, up to the bytes they write. -/
def OpResult.Alike : OpResult → OpResult → Prop
  | .done _, .done _ => True
  | .failed, .failed => True
  | .fault, .fault => True
  | _, _ => False

theorem OpResult.Alike.refl (res : OpResult) : res.Alike res := by
  cases res <;> trivial

/-- The longest array that a NIF can put on the stack of a scheduler, in bytes.  The VM makes
stacks of 20 kilowords at least, and of 8192 kilowords at most. -/
structure Stack where
  room : ℕ
  lower : 2 ^ 16 ≤ room
  upper : room < 2 ^ 31

/-- OpenSSL, with the C library it is linked to and the stack that the NIFs find. -/
structure OpenSSL where
  /-- The random choices and the failures of one call. -/
  Rand : Type
  /-- `RSA_sign(NID_sha1, m, m_len, sigret, &siglen, rsa)`. -/
  rsaSign : Rand → Option Key → List Byte → OpResult
  /-- `RSA_public_encrypt(flen, from, to, rsa, RSA_PKCS1_PADDING)`. -/
  rsaPublicEncrypt : Rand → Option PublicKey → List Byte → OpResult
  /-- `i2d_PublicKey`, on the RSA object of an `EVP_PKEY`. -/
  i2dPublicKey : Rand → Option PublicKey → Option (List Byte)
  /-- `i2d_PrivateKey`. -/
  i2dPrivateKey : Rand → Option Key → Option (List Byte)
  /-- What a call prints to the standard streams. -/
  prints : Rand → List (List Byte)
  /-- `BUFSIZ`. -/
  bufsiz : ℕ
  stack : Stack
  /-- The library's `evp_pkey_st` has the layout that `Enclave.cpp` declares.  In OpenSSL
  1.1.1 it has not: there the member that is read as `pkey.ptr` is another one, and null. -/
  declaredLayout : Bool
  rsaSign_length : ∀ {r k m out}, rsaSign r k m = .done out → out.length = rsaSize
  rsaSign_complete : ∀ {r k m}, rsaSign r (some k) m ≠ .fault
  rsaSign_public : ∀ {r} {k k' : Option Key} {m},
    k.map Key.pub = k'.map Key.pub → (rsaSign r k m).Alike (rsaSign r k' m)
  rsaPublicEncrypt_length : ∀ {r k m out}, rsaPublicEncrypt r k m = .done out →
    out.length = rsaSize
  rsaPublicEncrypt_complete : ∀ {r k m}, rsaPublicEncrypt r (some k) m ≠ .fault
  i2dPublicKey_unique : ∀ {r r' k der der'}, i2dPublicKey r k = some der →
    i2dPublicKey r' k = some der' → der = der'

/-- The results of the OpenSSL calls that one `rsa_key_gen` makes, where they do not
follow from the state.  The calls that encode the key are assumed to come to the same every
time, and the `malloc` between them to succeed: there is one `rand` for all of them. -/
structure KeyGenResults (o : OpenSSL) where
  /-- What `OPENSSL_init_crypto` returns. -/
  initCrypto : ℤ
  bnNew : Bool
  bnSetWord : Bool
  rsaNew : Bool
  /-- The key that `RSA_generate_key_ex` generates, unless it fails. -/
  generate : Option Key
  evpNew : Bool
  assign : Bool
  rand : o.Rand

/-- The results of the calls that one `ecall_rsa_get_pubkey` makes: `i2d_PublicKey` for the
length, `malloc`, and `i2d_PublicKey` for the encoding. -/
structure PubkeyResults (o : OpenSSL) where
  lenRand : o.Rand
  malloc : Bool
  derRand : o.Rand

end SgxErlang.Rsa
