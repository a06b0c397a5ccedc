import SgxErlang.CNode.Survival
import SgxErlang.CNode.Equivalence
import SgxErlang.CNode.Protocol
import SgxErlang.Rsa.Bounds
import SgxErlang.Rsa.Atomicity
import SgxErlang.Rsa.Coherence
import SgxErlang.Rsa.Failures
import SgxErlang.Rsa.Equivalence
import SgxErlang.Rsa.Noninterference
import SgxErlang.Rsa.Lifecycle
import SgxErlang.Rsa.Counter
import SgxErlang.Rsa.Ownership
import SgxErlang.CNode.Recognition
import SgxErlang.Rsa.Arguments
import SgxErlang.Rsa.Sizes
import SgxErlang.Attestation.Messages
import SgxErlang.Lib.Handler
import SgxErlang.Attestation.Ecp
import SgxErlang.Attestation.ServiceProvider
import SgxErlang.Lib.StagedWrite
import SgxErlang.Attestation.Session
import SgxErlang.Attestation.Runs
import SgxErlang.Attestation.Enclave
import SgxErlang.Attestation.Reference
import SgxErlang.CNode.Progress
import SgxErlang.Lib.KeyPair
import SgxErlang.Rsa.RoundTrip
import SgxErlang.Rsa.Reload
import SgxErlang.Rsa.LaunchToken
import SgxErlang.Attestation.QuoteEnclave
import SgxErlang.Attestation.QuoteApp
