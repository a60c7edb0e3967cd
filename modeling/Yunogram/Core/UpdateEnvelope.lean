import Yunogram.Machinery.LittleEndian
import Yunogram.Machinery.Parsing
import Yunogram.Machinery.Span

/-!
# Core/UpdateEnvelope — the file format of updates

The envelope of `core/update_verify.cpp`: a header, the manifest with the root's signature over it,
signatures and the payload, every variable part behind its length.  `Reader` checks that a part is
there before it copies it; the copying itself is checked here (`subspan`), so that a part outside the
data is a fault, apart from the errors the code reports.
-/

open Machinery

namespace Yunogram

namespace Core

namespace Updates

/-- A byte array. -/
abbrev QByteArray := List UInt8

/-- `Channel`. -/
inductive Channel
  | stable
  | beta
  | canaryPublic
  | canaryPrivate
  deriving DecidableEq

/-- `Os`. -/
inductive Os
  | windows
  | mac
  | linux
  deriving DecidableEq

/-- `Arch`. -/
inductive Arch
  | x86
  | x64
  | arm
  deriving DecidableEq

/-- `Target`. -/
structure Target where
  os : Os
  arch : Arch
  deriving DecidableEq

/-- The value of a channel, `quint8(channel)`. -/
def Channel.code : Channel → UInt8
  | stable => 0
  | beta => 1
  | canaryPublic => 2
  | canaryPrivate => 3

/-- The channel of a value, `Channel(value)`, once it was checked. -/
def Channel.ofCode (value : UInt8) : Channel :=
  if value = 0 then stable else if value = 1 then beta else if value = 2 then canaryPublic
  else canaryPrivate

/-- `quint8(os)`. -/
def Os.code : Os → UInt8
  | windows => 0
  | mac => 1
  | linux => 2

/-- `Os(value)`, once it was checked. -/
def Os.ofCode (value : UInt8) : Os :=
  if value = 0 then windows else if value = 1 then mac else linux

/-- `quint8(arch)`. -/
def Arch.code : Arch → UInt8
  | x86 => 0
  | x64 => 1
  | arm => 2

/-- `Arch(value)`, once it was checked. -/
def Arch.ofCode (value : UInt8) : Arch :=
  if value = 0 then x86 else if value = 1 then x64 else arm

/-- `kEnvelopeMagic`. -/
def kEnvelopeMagic : QByteArray := [0x54, 0x44, 0x55, 0x50]

/-- `kEnvelopeFormat`. -/
def kEnvelopeFormat : ℕ := 2

/-- `kMaxManifestSize`. -/
def kMaxManifestSize : ℕ := 256 * 1024

/-- `kMaxManifestSignatureSize`. -/
def kMaxManifestSignatureSize : ℕ := 256

/-- `kMaxSignatures`. -/
def kMaxSignatures : ℕ := 16

/-- `kMaxKeyIdSize`. -/
def kMaxKeyIdSize : ℕ := 64

/-- `kMaxSignatureSize`. -/
def kMaxSignatureSize : ℕ := 512

/-- `kMaxPayloadSize`. -/
def kMaxPayloadSize : ℕ := 256 * 1024 * 1024

/-- `EnvelopeSignature`. -/
structure EnvelopeSignature where
  keyId : QByteArray
  bytes : QByteArray
  deriving DecidableEq

/-- `Envelope`. -/
structure Envelope where
  channel : Channel
  target : Target
  version : ℕ
  created : Int64
  manifest : QByteArray
  manifestSignature : QByteArray
  signatures : List EnvelopeSignature
  payload : QByteArray
  signedRegion : QByteArray
  deriving DecidableEq

/-- Why there is no result: a broken contract, or an error the code reports. -/
inductive Stop
  | fault (fault : Fault)
  | error (text : String)
  deriving DecidableEq

/-- The code reported an error. -/
def Stop.Reported : Stop → Prop
  | fault _ => False
  | error _ => True

/-! ## The reader -/

/-- `Reader`. -/
abbrev Reader := Cursor UInt8

/-- `size - offset`, which is of `size_t`. -/
def Reader.left (reader : Reader) : ℕ :=
  if reader.offset ≤ reader.data.length then reader.data.length - reader.offset
  else reader.data.length + 2 ^ 64 - reader.offset

/-- `Reader::read` and `Reader::readBytes`. -/
def readBytes (count : ℕ) : Parser UInt8 Fault (Option QByteArray) := fun reader => do
  if Reader.left reader < count then
    return (none, reader)
  let bytes ← subspan reader.data reader.offset count
  return (some bytes, reader.skip count)

/-- `Reader::readU8`. -/
def readU8 : Parser UInt8 Fault (Option UInt8) := do
  let bytes ← readBytes 1
  return bytes.map fun bytes => bytes.getD 0 0

/-- The number four bytes stand for. -/
def quint32 (bytes : QByteArray) : ℕ :=
  (bytes.getD 0 0).toNat ||| (bytes.getD 1 0).toNat <<< 8 ||| (bytes.getD 2 0).toNat <<< 16 |||
    (bytes.getD 3 0).toNat <<< 24

/-- `Reader::readU32`. -/
def readU32 : Parser UInt8 Fault (Option ℕ) := do
  let bytes ← readBytes 4
  return bytes.map quint32

/-- `Reader::readU64`. -/
def readU64 : Parser UInt8 Fault (Option ℕ) := do
  let low ← readU32
  let high ← readU32
  match low, high with
  | some low, some high => return some (low ||| high <<< 32)
  | _, _ => return none

/-- A field with its check: without a value, or with one that is not good, the error is `text`. -/
def field {β : Type} (read : Parser UInt8 Fault (Option β)) (text : String) (good : β → Bool) :
    Parser UInt8 Stop β := fun reader =>
  match read reader with
  | .error fault => .error (.fault fault)
  | .ok (some value, reader) =>
    if good value then .ok (value, reader) else .error (.error text)
  | .ok (none, _) => .error (.error text)

/-- A part behind its length, which is at least one and at most `max`. -/
def sized (sizeText text : String) (max : ℕ) : Parser UInt8 Stop QByteArray := do
  let length ← field readU32 sizeText fun length => 0 < length && length ≤ max
  field (readBytes length) text fun _ => true

/-- `data.left(int(reader.offset))`. -/
def leftOfOffset : Parser UInt8 Stop QByteArray := fun reader => .ok (reader.before, reader)

/-! ## `ParseEnvelope` -/

/-- `IsV2UpdateFile`. -/
def isV2UpdateFile (data : QByteArray) : Bool :=
  4 ≤ data.length && data.take 4 = kEnvelopeMagic

/-- One round of the loop over the signatures. -/
def readSignature : Parser UInt8 Stop EnvelopeSignature := do
  let id ← sized "Bad envelope key id size." "Bad envelope key id." kMaxKeyIdSize
  let sig ← sized "Bad envelope signature size." "Bad envelope signature." kMaxSignatureSize
  return { keyId := id, bytes := sig }

/-- The fields of the envelope after the magic. -/
def readEnvelope : Parser UInt8 Stop Envelope := do
  let _ ← field readU32 "Bad envelope format." fun format => format = kEnvelopeFormat
  let channel ← field readU8 "Bad envelope channel." fun channel =>
    channel ≤ Channel.canaryPrivate.code
  let os ← field readU8 "Bad envelope os." fun os => os ≤ Os.linux.code
  let arch ← field readU8 "Bad envelope arch." fun arch => arch ≤ Arch.arm.code
  let version ← field readU64 "Bad envelope version." fun _ => true
  let created ← field readU64 "Bad envelope timestamp." fun _ => true
  let manifest ← sized "Bad envelope manifest size." "Bad envelope manifest." kMaxManifestSize
  let signedRegion ← leftOfOffset
  let manifestSignature ← sized "Bad envelope manifest signature size."
    "Bad envelope manifest signature." kMaxManifestSignatureSize
  let count ← field readU32 "Bad envelope signature count." fun count => count ≤ kMaxSignatures
  let signatures ← times readSignature count
  let payload ← sized "Bad envelope payload size." "Bad envelope payload." kMaxPayloadSize
  return {
    channel := Channel.ofCode channel
    target := ⟨Os.ofCode os, Arch.ofCode arch⟩
    version
    created := (UInt64.ofNat created).toInt64
    manifest
    manifestSignature
    signatures
    payload
    signedRegion }

/-- `ParseEnvelope`. -/
def parseEnvelope (data : QByteArray) : Except Stop Envelope := do
  if !isV2UpdateFile data then
    throw (.error "Bad envelope magic.")
  let (envelope, reader) ← readEnvelope { data, offset := 4 }
  if reader.offset ≠ reader.data.length then
    throw (.error "Bad envelope payload.")
  return envelope

/-- `Sha256`: nothing when `EVP_Digest` fails. -/
def sha256 (evpDigest : QByteArray → Option QByteArray) (data : QByteArray) : QByteArray :=
  match evpDigest data with
  | some result => if result.length = 32 then result else []
  | none => []

/-- `SigningInput`. -/
def signingInput (evpDigest : QByteArray → Option QByteArray) (envelope : Envelope) : QByteArray :=
  let hash := sha256 evpDigest envelope.payload
  if hash.isEmpty || envelope.signedRegion.isEmpty then [] else envelope.signedRegion ++ hash

end Updates

end Core

end Yunogram
