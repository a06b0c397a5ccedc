import SgxErlang.Lib.Layout

/-!
# The messages of the remote attestation

The records that the enclave's host and the service provider exchange, and their layouts:
`sample_ra_msg0_t` to `sample_ra_msg3_t`, the quote in the last of them, and the attestation
result.  The records are packed or need no padding, so each layout is its fields one after
the other.

Of a quote only `report_data` takes part in a decision; what comes before it is kept as one
block.  What the programs print is left out throughout.
-/

namespace SgxErlang.Attestation

/-- `sample_ec_key_128bit_t`, `sample_mac_t`: 16 bytes. -/
abbrev Key128 := Vector Byte 16

/-- `sample_ec_priv_t`. -/
abbrev EcPriv := Vector Byte 32

/-- `sample_ec_dh_shared_t`. -/
abbrev EcDhShared := Vector Byte 32

/-- `sample_ec_pub_t`. -/
structure EcPub where
  gx : Vector Byte 32
  gy : Vector Byte 32
  deriving DecidableEq

/-- `sample_ec_sign256_t`; each half is the bytes of its eight words. -/
structure EcSign256 where
  x : Vector Byte 32
  y : Vector Byte 32
  deriving DecidableEq

/-- The layout of two 32-byte numbers. -/
def pairLayout : Layout (Vector Byte 32 × Vector Byte 32) := (Layout.array 32).prod (Layout.array 32)

def EcPub.layout : Layout EcPub :=
  pairLayout.iso ⟨fun p => ⟨p.1, p.2⟩, fun k => (k.gx, k.gy), fun _ => rfl, fun _ => rfl⟩

def EcSign256.layout : Layout EcSign256 :=
  pairLayout.iso ⟨fun p => ⟨p.1, p.2⟩, fun k => (k.x, k.y), fun _ => rfl, fun _ => rfl⟩

/-- All bytes zero, as in a static variable that nothing has been stored in. -/
def EcPub.zero : EcPub := ⟨Vector.replicate 32 0, Vector.replicate 32 0⟩

/-! ## Requests -/

/-- `ra_msg_type_t`, as the byte that goes into a header. -/
inductive RaMsgType where
  | msg0 | msg1 | msg2 | msg3 | attResult
  deriving DecidableEq

def RaMsgType.toByte : RaMsgType → Byte
  | .msg0 => 0
  | .msg1 => 1
  | .msg2 => 2
  | .msg3 => 3
  | .attResult => 4

/-- `ra_samp_request_header_t` with its body.  `size` is a `uint32_t`, and it is the size of
the body. -/
structure Request where
  type : Byte
  body : List Byte
  size_lt : body.length < 2 ^ 32

/-- `ra_samp_response_header_t` with the memory that has been allocated for its body. -/
structure Response where
  type : Byte
  status : Byte × Byte
  size : UInt32
  body : List Byte
  deriving DecidableEq

/-- `sample_ra_msg1_t`. -/
structure Msg1 where
  gA : EcPub
  gid : Vector Byte 4

def Msg1.layout : Layout Msg1 :=
  (EcPub.layout.prod (Layout.array 4)).iso
    ⟨fun p => ⟨p.1, p.2⟩, fun m => (m.gA, m.gid), fun _ => rfl, fun _ => rfl⟩

/-- The part of `sample_ra_msg2_t` that its MAC is taken over. -/
structure Msg2Head where
  gB : EcPub
  spid : Vector Byte 16
  quoteType : UInt16
  kdfId : UInt16
  signGbGa : EcSign256

def Msg2Head.layout : Layout Msg2Head :=
  (EcPub.layout.prod ((Layout.array 16).prod
    (Layout.uint16.prod (Layout.uint16.prod EcSign256.layout)))).iso
    ⟨fun p => ⟨p.1, p.2.1, p.2.2.1, p.2.2.2.1, p.2.2.2.2⟩,
      fun m => (m.gB, m.spid, m.quoteType, m.kdfId, m.signGbGa), fun _ => rfl, fun _ => rfl⟩

/-- `sample_ra_msg2_t` without the array at its end. -/
structure Msg2 where
  head : Msg2Head
  mac : Key128
  sigRlSize : UInt32

def Msg2.layout : Layout Msg2 :=
  (Msg2Head.layout.prod ((Layout.array 16).prod Layout.uint32)).iso
    ⟨fun p => ⟨p.1, p.2.1, p.2.2⟩, fun m => (m.head, m.mac, m.sigRlSize), fun _ => rfl,
      fun _ => rfl⟩

/-- The part of `sample_ra_msg3_t` between the MAC and the quote. -/
structure Msg3Head where
  gA : EcPub
  psSecProp : Vector Byte 256

def Msg3Head.layout : Layout Msg3Head :=
  (EcPub.layout.prod (Layout.array 256)).iso
    ⟨fun p => ⟨p.1, p.2⟩, fun m => (m.gA, m.psSecProp), fun _ => rfl, fun _ => rfl⟩

/-- `sample_ra_msg3_t` without the quote at its end. -/
structure Msg3 where
  mac : Key128
  head : Msg3Head

def Msg3.layout : Layout Msg3 :=
  ((Layout.array 16).prod Msg3Head.layout).iso
    ⟨fun p => ⟨p.1, p.2⟩, fun m => (m.mac, m.head), fun _ => rfl, fun _ => rfl⟩

/-- `sample_quote_t` up to the end of its report body: everything before `report_data`, and
`report_data`. -/
structure Quote where
  before : Vector Byte 368
  reportData : Vector Byte 64

def Quote.layout : Layout Quote :=
  ((Layout.array 368).prod (Layout.array 64)).iso
    ⟨fun p => ⟨p.1, p.2⟩, fun q => (q.before, q.reportData), fun _ => rfl, fun _ => rfl⟩

/-! ## The attestation result -/

/-- The part of `ias_platform_info_blob_t` that is signed. -/
structure PlatformInfo where
  epidGroupStatus : Byte
  tcbEvaluationStatus : UInt16
  pseEvaluationStatus : UInt16
  latestEquivalentTcbPsvn : Vector Byte 18
  latestPseIsvsvn : Vector Byte 2
  latestPsdaSvn : Vector Byte 4
  performanceRekeyGid : Vector Byte 4

def PlatformInfo.layout : Layout PlatformInfo :=
  (Layout.byte.prod (Layout.uint16.prod (Layout.uint16.prod ((Layout.array 18).prod
    ((Layout.array 2).prod ((Layout.array 4).prod (Layout.array 4))))))).iso
    ⟨fun p => ⟨p.1, p.2.1, p.2.2.1, p.2.2.2.1, p.2.2.2.2.1, p.2.2.2.2.2.1, p.2.2.2.2.2.2⟩,
      fun i => (i.epidGroupStatus, i.tcbEvaluationStatus, i.pseEvaluationStatus,
        i.latestEquivalentTcbPsvn, i.latestPseIsvsvn, i.latestPsdaSvn, i.performanceRekeyGid),
      fun _ => rfl, fun _ => rfl⟩

/-- `ias_platform_info_blob_t`. -/
structure PlatformInfoBlob where
  info : PlatformInfo
  signature : EcSign256

def PlatformInfoBlob.layout : Layout PlatformInfoBlob :=
  (PlatformInfo.layout.prod EcSign256.layout).iso
    ⟨fun p => ⟨p.1, p.2⟩, fun b => (b.info, b.signature), fun _ => rfl, fun _ => rfl⟩

/-- `sample_ra_att_result_msg_t` without the payload at its end. -/
structure AttResult where
  platformInfoBlob : PlatformInfoBlob
  mac : Key128
  payloadSize : UInt32
  reserved : Vector Byte 12
  payloadTag : Key128

def AttResult.layout : Layout AttResult :=
  (PlatformInfoBlob.layout.prod ((Layout.array 16).prod
    (Layout.uint32.prod ((Layout.array 12).prod (Layout.array 16))))).iso
    ⟨fun p => ⟨p.1, p.2.1, p.2.2.1, p.2.2.2.1, p.2.2.2.2⟩,
      fun r => (r.platformInfoBlob, r.mac, r.payloadSize, r.reserved, r.payloadTag),
      fun _ => rfl, fun _ => rfl⟩

/-! ## Sizes -/

@[simp] theorem EcPub.size_layout : EcPub.layout.size = 64 := rfl
@[simp] theorem Msg1.size_layout : Msg1.layout.size = 68 := rfl
@[simp] theorem Msg2Head.size_layout : Msg2Head.layout.size = 148 := rfl
@[simp] theorem Msg2.size_layout : Msg2.layout.size = 168 := rfl
@[simp] theorem Msg3Head.size_layout : Msg3Head.layout.size = 320 := rfl
@[simp] theorem Msg3.size_layout : Msg3.layout.size = 336 := rfl
@[simp] theorem Quote.size_layout : Quote.layout.size = 432 := rfl
@[simp] theorem PlatformInfoBlob.size_layout : PlatformInfoBlob.layout.size = 97 := rfl
@[simp] theorem AttResult.size_layout : AttResult.layout.size = 145 := rfl

theorem Msg2.put_eq (m : Msg2) : Msg2.layout.put m =
    Msg2Head.layout.put m.head ++ (m.mac.toList ++ Layout.uint32.put m.sigRlSize) := rfl

theorem Msg3.put_eq (m : Msg3) :
    Msg3.layout.put m = m.mac.toList ++ Msg3Head.layout.put m.head := rfl

end SgxErlang.Attestation
