import SgxErlang.Attestation.Ecp
import SgxErlang.Lib.Handler
import SgxErlang.Lib.Run

/-!
# The service provider

`service_provider.cpp`, `ias_ra.cpp` and `network_ra.cpp`: the party that decides whether an
enclave gets the secret.  It keeps one session in static variables.  `msg0` registers it
with the attestation server, `msg1` starts a session, and `msg3` ends one with the result.
Requests arrive in any order and from anyone.

`Env` is what happens outside the code while one request is served: which calls of the
library and of the allocator fail, and what the random numbers are.

A call of the library that fails is assumed to leave its output untouched, so that a field of
the session that it should have written keeps its value.

What is printed is left out, and so are checks for null pointers that the only caller,
`ra_network_send_receive`, never passes.

## Main definitions

* `Sp` — the static variables.
* `spRaProcMsg0Req`, `spRaProcMsg1Req`, `spRaProcMsg3Req` — the handlers.
* `raNetworkSendReceive` — the service provider as its callers see it.
-/

namespace SgxErlang.Attestation

/-! ## What the code depends on -/

/-- `sample_status_t` without success. -/
inductive SampleError where
  | unexpected | invalidParameter | outOfMemory
  deriving DecidableEq

def SampleError.toInt : SampleError → ℤ
  | .unexpected => 1
  | .invalidParameter => 2
  | .outOfMemory => 3

/-- The calls that can fail while a request is served, apart from the encryption. -/
inductive Call where
  | kdf (keyId : Byte) (step : KdfStep)
  | hash (keyId : Byte) (step : HashStep)
  | msg0Malloc
  | openContext | createKeyPair | computeSharedDhkey
  | msg2Malloc | msg2Sign | msg2Cmac
  | msg3Cmac | shaInit | shaGa | shaGb | shaVk | shaGetHash
  | iasOpenContext | iasSign
  | resultMalloc | resultCmac

/-- What happens outside the code while a request is served. -/
structure Env where
  /-- The call succeeds. -/
  ok : Call → Bool
  /-- The error that `sample_rijndael128GCM_encrypt` returns, if it does. -/
  gcm : Option SampleError
  /-- The private key of a new key pair. -/
  priv : EcPriv
  /-- The random number of a signature. -/
  nonce : Vector Byte 32

/-! ## The attestation server, `ias_ra.cpp` -/

/-- `ias_quote_status_t`. -/
inductive IasQuoteStatus where
  | ok | signatureInvalid | groupRevoked | signatureRevoked | keyRevoked
  | sigrlVersionMismatch | groupOutOfDate
  deriving DecidableEq

/-- `ias_pse_status_t`. -/
inductive IasPseStatus where
  | ok | descTypeNotSupported | isvsvnOutOfDate | miscselectInvalid | attributesInvalid
  | mrsignerInvalid | hwGidRevoked | hwPrivkeyRlverMismatch | hwSigRlverMismatch
  | hwCaIdInvalid | hwSecInfoInvalid | hwPsdaSvnOutOfDate
  deriving DecidableEq

/-- `ias_att_report_t`, as far as the service provider reads it. -/
structure IasAttReport where
  status : IasQuoteStatus
  infoBlob : PlatformInfoBlob
  pseStatus : IasPseStatus

/-- `g_rk_priv_key`. -/
def rkPrivKey : EcPriv :=
  ⟨#[0x63, 0x2c, 0xd4, 0x02, 0x7a, 0xdc, 0x56, 0xa5, 0x59, 0x6c, 0x44, 0x3e, 0x43, 0xca, 0x4e,
    0x0b, 0x58, 0xcd, 0x78, 0xcb, 0x3c, 0x7e, 0xd5, 0xb9, 0xf2, 0x91, 0x5b, 0x39, 0x0d, 0xb3,
    0xb5, 0xfb], rfl⟩

/-- `SWAP_ENDIAN_32B`: the words in the opposite order, and the bytes of each as well. -/
def swapEndian32B (v : Vector Byte 32) : Vector Byte 32 := Vector.ofFn fun i => v[31 - i.val]

/-- The platform information that the server reports: every field is zero. -/
def platformInfo : PlatformInfo where
  epidGroupStatus := 0
  tcbEvaluationStatus := 0
  pseEvaluationStatus := 0
  latestEquivalentTcbPsvn := Vector.replicate 18 0
  latestPseIsvsvn := Vector.replicate 2 0
  latestPsdaSvn := Vector.replicate 4 0
  performanceRekeyGid := Vector.replicate 4 0

/-- `ias_verify_attestation_evidence`.  It does not look at the quote: it reports that all is
well, and signs the platform information. -/
def iasVerifyAttestationEvidence (L : Libcrypto) (e : Env) (_quote : List Byte) :
    Except ℤ IasAttReport := do
  if !e.ok .iasOpenContext then throw (-1)
  if !e.ok .iasSign then throw 5
  let signature := L.ecdsaSign rkPrivKey e.nonce (PlatformInfo.layout.put platformInfo)
  pure
    { status := .ok
      infoBlob :=
        { info := platformInfo
          signature := ⟨swapEndian32B signature.x, swapEndian32B signature.y⟩ }
      pseStatus := .ok }

/-- `ias_get_sigrl`: the list is empty. -/
def iasGetSigrl (_gid : Vector Byte 4) : Except ℤ (List Byte) := pure []

/-- `g_sim_spid`: "Service X", filled up with zeros. -/
def simSpid : Vector Byte 16 :=
  ⟨#[0x53, 0x65, 0x72, 0x76, 0x69, 0x63, 0x65, 0x20, 0x58, 0, 0, 0, 0, 0, 0, 0], rfl⟩

/-- `ias_enroll`. -/
def iasEnroll : Except ℤ (Vector Byte 16) := pure simSpid

/-- `sample_extended_epid_group`. -/
structure ExtendedEpidGroup where
  extendedEpidGroupId : UInt32
  enroll : Except ℤ (Vector Byte 16)
  getSigrl : Vector Byte 4 → Except ℤ (List Byte)
  verifyAttestationEvidence : Libcrypto → Env → List Byte → Except ℤ IasAttReport

/-- The one group that is supported. -/
def iasGroup : ExtendedEpidGroup := ⟨0, iasEnroll, iasGetSigrl, iasVerifyAttestationEvidence⟩

/-- `g_extended_epid_groups`. -/
def extendedEpidGroups : List ExtendedEpidGroup := [iasGroup]

/-! ## The static variables -/

/-- `sp_db_item_t`. -/
structure SpDbItem where
  gA : EcPub
  gB : EcPub
  vkKey : Key128
  mkKey : Key128
  skKey : Key128
  smkKey : Key128
  b : EcPriv
  psSecProp : Vector Byte 256

/-- The static variables of the service provider. -/
structure Sp where
  /-- `g_sp_db`. -/
  db : SpDbItem
  /-- `g_sp_extended_epid_group_id`. -/
  extendedEpidGroup : Option ExtendedEpidGroup
  /-- `g_is_sp_registered`. -/
  isSpRegistered : Bool
  /-- `g_return_ecdsa_att_key_id`. -/
  returnEcdsaAttKeyId : Bool
  /-- `g_spid`. -/
  spid : Vector Byte 16

def SpDbItem.zero : SpDbItem where
  gA := .zero
  gB := .zero
  vkKey := Vector.replicate 16 0
  mkKey := Vector.replicate 16 0
  skKey := Vector.replicate 16 0
  smkKey := Vector.replicate 16 0
  b := Vector.replicate 32 0
  psSecProp := Vector.replicate 256 0

/-- The service provider when it starts. -/
def Sp.init : Sp := ⟨.zero, none, false, true, Vector.replicate 16 0⟩

/-- `sp_ra_msg_status_t`, as far as it is used. -/
def spUnsupportedExtendedEpidGroup : ℤ := 1
def spIntegrityFailed : ℤ := 2
def spIasFailed : ℤ := 4
def spInternalError : ℤ := 5
def spProtocolError : ℤ := 6

/-- `g_sp_priv_key`. -/
def spPrivKey : EcPriv :=
  ⟨#[0x90, 0xe7, 0x6c, 0xbb, 0x2d, 0x52, 0xa1, 0xce, 0x3b, 0x66, 0xde, 0x11, 0x43, 0x9c, 0x87,
    0xec, 0x1f, 0x86, 0x6a, 0x3b, 0x65, 0xb6, 0xae, 0xea, 0xad, 0x57, 0x34, 0x53, 0xd1, 0x03,
    0x8c, 0x01], rfl⟩

/-- `g_secret`. -/
def secret : Vector Byte 8 := ⟨#[0, 1, 2, 3, 4, 5, 6, 7], rfl⟩

/-- An attestation key id list: everything but the id of the key and its kind is the same in
both of them. -/
def attKeyIdList (id : List Byte) (kind : Byte) : List Byte :=
  [0, 0, 0, 0, 1, 0, 0, 0, 0, 0, 0, 0, 0x20, 0] ++ id ++ List.replicate 16 0 ++ [1] ++
    List.replicate 99 0 ++ [kind] ++ List.replicate 101 0

/-- `g_ecdsa_p256_att_key_id_list`. -/
def ecdsaP256AttKeyIdList : List Byte :=
  attKeyIdList [0x8c, 0x4f, 0x57, 0x75, 0xd7, 0x96, 0x50, 0x3e, 0x96, 0x13, 0x7f, 0x77, 0xc6,
    0x8a, 0x82, 0x9a, 0x00, 0x56, 0xac, 0x8d, 0xed, 0x70, 0x14, 0x0b, 0x08, 0x1b, 0x09, 0x44,
    0x90, 0xc5, 0x7b, 0xff] 2

/-- `g_epid_unlinkable_att_key_id_list`. -/
def epidUnlinkableAttKeyIdList : List Byte :=
  attKeyIdList [0xec, 0x15, 0xb1, 0x07, 0x87, 0xd2, 0xf8, 0x46, 0x67, 0xce, 0xb0, 0xb5, 0x98,
    0xff, 0xc4, 0x4a, 0x1f, 0x1c, 0xb8, 0x0f, 0x67, 0x0a, 0xae, 0x5d, 0xf9, 0xe8, 0xfa, 0x9f,
    0x63, 0x76, 0xe1, 0xf8] 0

/-! ## `msg0` -/

open Handler

/-- There is no registration yet, or it is for another group. -/
def Sp.needsGroup (s : Sp) (extendedEpidGroupId : UInt32) : Bool :=
  !s.isSpRegistered ||
    s.extendedEpidGroup.any fun group => group.extendedEpidGroupId != extendedEpidGroupId

/-- Look the group up, and enroll with its attestation server, unless that has been done. -/
def registerGroup (extendedEpidGroupId : UInt32) : Handler ℤ Sp PUnit := do
  let s ← get
  if s.needsGroup extendedEpidGroupId then
    match extendedEpidGroups.find? (·.extendedEpidGroupId == extendedEpidGroupId) with
    | none => pure ⟨⟩
    | some group => do
        modify fun s => { s with extendedEpidGroup := some group }
        match group.enroll with
        | .error _ => throw spIasFailed
        | .ok spid => modify fun s => { s with spid := spid, isSpRegistered := true }
  else pure ⟨⟩

/-- `sp_ra_proc_msg0_req`.  That a group is not supported is noted in `ret`, which is
overwritten before it is returned. -/
def spRaProcMsg0Req (e : Env) (body : List Byte) : Handler ℤ Sp Response := do
  require (body.length == Layout.uint32.size) (-1)
  registerGroup (Layout.uint32.get body)
  let s ← get
  let list :=
    if s.returnEcdsaAttKeyId then ecdsaP256AttKeyIdList else epidUnlinkableAttKeyIdList
  require (e.ok .msg0Malloc) spInternalError
  modify fun s => { s with returnEcdsaAttKeyId := false }
  pure { type := RaMsgType.msg0.toByte, status := (0, 0), size := 264, body := list }

/-! ## `msg1` -/

/-- Change the session. -/
def modifyDb (f : SpDbItem → SpDbItem) : Handler ℤ Sp PUnit :=
  modify fun s => { s with db := f s.db }

/-- Store what `derive_key` gives, if it gives anything. -/
def storeDerived {α : Type} (derived : Option α) (store : α → SpDbItem → SpDbItem) :
    Handler ℤ Sp PUnit :=
  match derived with
  | none => throw spInternalError
  | some a => modifyDb (store a)

/-- Derive the session keys and store them, in the order in which the code does. -/
def deriveSessionKeys (L : Libcrypto) (e : Env) (shared : EcDhShared) :
    Kdf → Handler ℤ Sp PUnit
  | .standard => do
      storeDerived (deriveKey L (fun s => e.ok (.kdf 0 s)) shared 0)
        fun key db => { db with smkKey := key }
      storeDerived (deriveKey L (fun s => e.ok (.kdf 2 s)) shared 2)
        fun key db => { db with mkKey := key }
      storeDerived (deriveKey L (fun s => e.ok (.kdf 1 s)) shared 1)
        fun key db => { db with skKey := key }
      storeDerived (deriveKey L (fun s => e.ok (.kdf 3 s)) shared 3)
        fun key db => { db with vkKey := key }
  | .supplied => do
      storeDerived (deriveKeys L (fun s => e.ok (.hash 0 s)) shared 0)
        fun keys db => { db with smkKey := keys.1, skKey := keys.2 }
      storeDerived (deriveKeys L (fun s => e.ok (.hash 1 s)) shared 1)
        fun keys db => { db with mkKey := keys.1, vkKey := keys.2 }

/-- The part of `sp_ra_proc_msg1_req` that changes the session. -/
def exchangeKeys (L : Libcrypto) (k : Kdf) (e : Env) (gA : EcPub) : Handler ℤ Sp PUnit := do
  modifyDb fun db => { db with gA := gA }
  require (e.ok .openContext) (-1)
  require (e.ok .createKeyPair) spInternalError
  modifyDb fun db => { db with b := e.priv, gB := L.publicOf e.priv }
  require (e.ok .computeSharedDhkey) spInternalError
  deriveSessionKeys L e (L.sharedDhkey e.priv gA) k

/-- `SAMPLE_AES_CMAC_KDF_ID` or `ISV_KDF_ID`. -/
def Kdf.id : Kdf → UInt16
  | .standard => 1
  | .supplied => 2

/-- What `msg2` says, for the session that is stored. -/
def msg2Head (L : Libcrypto) (k : Kdf) (e : Env) (s : Sp) : Msg2Head where
  gB := s.db.gB
  spid := s.spid
  quoteType := 1
  kdfId := k.id
  signGbGa := L.ecdsaSign spPrivKey e.nonce
    (EcPub.layout.put s.db.gB ++ EcPub.layout.put s.db.gA)

/-- The part of `sp_ra_proc_msg1_req` that assembles `msg2`. -/
def assembleMsg2 (L : Libcrypto) (k : Kdf) (e : Env) (sigRl : List Byte) :
    Handler ℤ Sp Response := do
  let s ← get
  require (e.ok .msg2Malloc) spInternalError
  let head := msg2Head L k e s
  require (e.ok .msg2Sign) spInternalError
  require (e.ok .msg2Cmac) spInternalError
  let mac := L.cmac s.db.smkKey (Msg2Head.layout.put head)
  let sigRlSize := UInt32.ofNat sigRl.length
  pure
    { type := RaMsgType.msg2.toByte
      status := (0, 0)
      size := 168 + sigRlSize
      body := Msg2.layout.put ⟨head, mac, sigRlSize⟩ ++ sigRl }

/-- `sp_ra_proc_msg1_req`. -/
def spRaProcMsg1Req (L : Libcrypto) (k : Kdf) (e : Env) (body : List Byte) :
    Handler ℤ Sp Response := do
  require (body.length == Msg1.layout.size) (-1)
  let s ← get
  require s.isSpRegistered spUnsupportedExtendedEpidGroup
  let msg1 := Msg1.layout.get body
  match s.extendedEpidGroup with
  | none => crash
  | some group =>
      match group.getSigrl msg1.gid with
      | .error _ => throw spIasFailed
      | .ok sigRl => do
          exchangeKeys L k e msg1.gA
          assembleMsg2 L k e sigRl

/-! ## `msg3` -/

/-- The data that the quote has to carry: the hash of the two public keys and `vk_key`, and
then zeros. -/
def expectedReportData (L : Libcrypto) (db : SpDbItem) : Vector Byte 64 :=
  (L.sha256 (EcPub.layout.put db.gA ++ EcPub.layout.put db.gB ++ db.vkKey.toList) ++
    (Vector.replicate 32 0 : Vector Byte 32) : Vector Byte (32 + 32))

/-- The part of `sp_ra_proc_msg3_req` that checks the message itself. -/
def authenticateMsg3 (L : Libcrypto) (e : Env) (body : List Byte) : Handler ℤ Sp PUnit := do
  require (decide (Msg3.layout.size ≤ body.length)) spInternalError
  let s ← get
  require s.isSpRegistered spUnsupportedExtendedEpidGroup
  let msg3 := Msg3.layout.get body
  require (s.db.gA == msg3.head.gA) spProtocolError
  require (e.ok .msg3Cmac) spInternalError
  require (msg3.mac == L.cmac s.db.smkKey (body.drop 16)) spIntegrityFailed

/-- Compare the report data.  The quote is whatever follows the fixed part of the message,
and it is read up to the end of its report data. -/
def compareReportData (L : Libcrypto) (quote : List Byte) : Handler ℤ Sp PUnit := do
  let s ← get
  if quote.length < Quote.layout.size then
    undefinedBehaviour
  else
    require (expectedReportData L s.db == (Quote.layout.get quote).reportData)
      spIntegrityFailed

/-- The part of `sp_ra_proc_msg3_req` that checks the quote. -/
def checkQuote (L : Libcrypto) (e : Env) (quote : List Byte) : Handler ℤ Sp PUnit := do
  require (e.ok .shaInit) spInternalError
  require (e.ok .shaGa) spInternalError
  require (e.ok .shaGb) spInternalError
  require (e.ok .shaVk) spInternalError
  require (e.ok .shaGetHash) spInternalError
  compareReportData L quote

/-- The secret with its tag, or zeros if the enclave is not to have it. -/
def sealSecret (L : Libcrypto) (e : Env) (skKey : Key128) (report : IasAttReport) :
    Except ℤ (Vector Byte 8 × Key128) :=
  let isvPolicyPassed := true
  if report.status = .ok ∧ report.pseStatus = .ok ∧ isvPolicyPassed then
    match e.gcm with
    | none => pure (L.gcmEncrypt skKey (Vector.replicate 12 0) secret)
    | some error => throw error.toInt
  else
    pure (Vector.replicate 8 0, Vector.replicate 16 0)

/-- The part of `sp_ra_proc_msg3_req` that answers a message that has passed.  `size` does
not count the payload. -/
def assembleAttResult (L : Libcrypto) (e : Env) (report : IasAttReport) :
    Handler ℤ Sp Response := do
  let s ← get
  require (e.ok .resultMalloc) spInternalError
  require (e.ok .resultCmac) spInternalError
  let mac := L.cmac s.db.mkKey (PlatformInfoBlob.layout.put report.infoBlob)
  match sealSecret L e s.db.skKey report with
  | .error error => throw error
  | .ok (payload, tag) =>
      pure
        { type := RaMsgType.attResult.toByte
          status := (if report.status = .ok then 0 else 0xff,
            if report.pseStatus = .ok then 0 else 0xff)
          size := 145
          body := AttResult.layout.put ⟨report.infoBlob, mac, 8, Vector.replicate 12 0, tag⟩ ++
            payload.toList }

/-- The part of `sp_ra_proc_msg3_req` that has the quote verified and answers. -/
def answerMsg3 (L : Libcrypto) (e : Env) (quote : List Byte) : Handler ℤ Sp Response := do
  let s ← get
  match s.extendedEpidGroup with
  | none => crash
  | some group =>
      match group.verifyAttestationEvidence L e quote with
      | .error _ => throw spIasFailed
      | .ok report => assembleAttResult L e report

/-- `sp_ra_proc_msg3_req`. -/
def spRaProcMsg3Req (L : Libcrypto) (e : Env) (body : List Byte) : Handler ℤ Sp Response := do
  authenticateMsg3 L e body
  modifyDb fun db => { db with psSecProp := (Msg3.layout.get body).head.psSecProp }
  checkQuote L e (body.drop Msg3.layout.size)
  answerMsg3 L e (body.drop Msg3.layout.size)

/-! ## The service provider as a machine -/

/-- `ra_network_send_receive`. -/
def raNetworkSendReceive (L : Libcrypto) (k : Kdf) (i : Env × Request) :
    Exec Sp (Except ℤ Response) :=
  ExceptT.run <|
    if i.2.type = RaMsgType.msg0.toByte then spRaProcMsg0Req i.1 i.2.body
    else if i.2.type = RaMsgType.msg1.toByte then spRaProcMsg1Req L k i.1 i.2.body
    else if i.2.type = RaMsgType.msg3.toByte then spRaProcMsg3Req L i.1 i.2.body
    else throw (-1)

end SgxErlang.Attestation
