import Mathlib
import Yunogram.Core.UpdateEnvelope

/-!
# Core/UpdateVerify — manifests, and the verification of an update

`core/update_verify.cpp` behind the envelope: the manifest of keys and channels, which the root signs,
and `VerifyUpdate`.  Parsing JSON and base64 and the operations on keys are those of a `Backend`.  A
JSON number is the rational it stands for, a `QString` the list of its UTF-16 units.

`ManifestKeys` carries that no two keys have one id: `ParseManifestKeys` stops at a second one.
-/

open Machinery

namespace Yunogram

namespace Core

namespace Updates

/-! ## JSON -/

/-- `QString`. -/
abbrev QString := List UInt16

/-- A `QLatin1String` as a `QString`. -/
def latin1 (text : String) : QString := text.toList.map fun c => UInt16.ofNat c.toNat

/-- A byte array literal. -/
def ascii (text : String) : QByteArray := text.toList.map fun c => UInt8.ofNat c.toNat

/-- `QString::toLatin1`: a question mark for what is not Latin-1. -/
def toLatin1 (s : QString) : QByteArray :=
  s.map fun c => if c.toNat < 256 then UInt8.ofNat c.toNat else 63

/-- `QJsonValue`; the fields of an object are in the order of its iteration. -/
inductive Json
  | undefined
  | null
  | bool (value : Bool)
  | double (value : ℚ)
  | string (value : QString)
  | array (list : List Json)
  | object (fields : List (QString × Json))

/-- `QJsonObject::value`. -/
def Json.value (fields : List (QString × Json)) (key : String) : Json :=
  match fields.find? fun field => field.1 = latin1 key with
  | some field => field.2
  | none => .undefined

/-! ## Data -/

/-- `kMaxKeys`. -/
def kMaxKeys : ℕ := 64

/-- `kMaxChannels`. -/
def kMaxChannels : ℕ := 16

/-- `kMaxGroups`. -/
def kMaxGroups : ℕ := 8

/-- `kMaxGroupKeys`. -/
def kMaxGroupKeys : ℕ := 16

/-- `kMaxRevoked`. -/
def kMaxRevoked : ℕ := 64

/-- `kRawSignatureSize`. -/
def kRawSignatureSize : ℕ := 64

/-- `kRawCoordinateSize`. -/
def kRawCoordinateSize : ℕ := 32

/-- `ManifestKey`. -/
structure ManifestKey where
  id : QByteArray
  ed25519 : Bool := false
  x : QByteArray
  y : QByteArray := []
  expires : ℤ := 0
  deriving DecidableEq

/-- Keys of which no two have one id. -/
structure ManifestKeys where
  list : List ManifestKey
  nodup : (list.map ManifestKey.id).Nodup
  deriving DecidableEq

/-- A key behind the others. -/
def ManifestKeys.push (keys : ManifestKeys) (key : ManifestKey)
    (h : key.id ∉ keys.list.map ManifestKey.id) : ManifestKeys where
  list := keys.list ++ [key]
  nodup := by
    rw [List.map_append, List.nodup_append]
    refine ⟨keys.nodup, List.nodup_singleton _, fun a ha b hb => ?_⟩
    obtain rfl := List.mem_singleton.mp hb
    rintro rfl
    exact h ha

/-- The groups of key ids of the channels; the first entry of a name counts. -/
abbrev Channels := List (QByteArray × List (List QByteArray))

/-- `std::map::emplace`. -/
def Channels.emplace (channels : Channels) (name : QByteArray) (groups : List (List QByteArray)) :
    Channels :=
  if channels.any fun entry => entry.1 = name then channels else channels ++ [(name, groups)]

/-- `std::map::find`. -/
def Channels.find (channels : Channels) (name : QByteArray) : Option (List (List QByteArray)) :=
  (channels.find? fun entry => entry.1 = name).map Prod.snd

/-- `Manifest`. -/
structure Manifest where
  version : ℕ
  issued : ℤ
  expires : ℤ
  keys : ManifestKeys
  channels : Channels
  revoked : List QByteArray
  bytes : QByteArray
  signature : QByteArray
  deriving DecidableEq

/-- What the JSON parser, base64 and OpenSSL do. -/
structure Backend (Key : Type) where
  /-- `QJsonDocument::fromJson`, without a parse error. -/
  fromJson : QByteArray → Option Json
  /-- `QByteArray::fromBase64Encoding` for URLs. -/
  fromBase64Url : QByteArray → Option QByteArray
  /-- `PEM_read_bio_PUBKEY`. -/
  readPubkey : QByteArray → Option Key
  /-- `EVP_PKEY_id` is `EVP_PKEY_ED25519`. -/
  isEd25519 : Key → Bool
  /-- `EVP_PKEY_new_raw_public_key`. -/
  newRawEd25519 : QByteArray → Option Key
  /-- `d2i_PUBKEY`. -/
  d2iPubkey : QByteArray → Option Key
  /-- `i2d_ECDSA_SIG` of a signature with the given numbers. -/
  i2dEcdsaSig : QByteArray → QByteArray → Option QByteArray
  /-- `EVP_DigestVerify`, after `EVP_DigestVerifyInit` without a digest or with `EVP_sha256`. -/
  digestVerify : Key → Bool → QByteArray → QByteArray → Bool
  /-- `EVP_Digest` with `EVP_sha256`. -/
  evpDigest : QByteArray → Option QByteArray

variable {Key : Type} (backend : Backend Key)

namespace Backend

/-! ## Signatures -/

/-- `LoadEd25519Pem`. -/
def loadEd25519Pem (pem : QByteArray) : Option Key := do
  let result ← backend.readPubkey pem
  if backend.isEd25519 result then some result else none

/-- `MakeEd25519`. -/
def makeEd25519 (x : QByteArray) : Option Key :=
  if x.length ≠ kRawCoordinateSize then none else backend.newRawEd25519 x

/-- `kSpkiPrefix`. -/
def kSpkiPrefix : QByteArray :=
  [0x30, 0x59, 0x30, 0x13, 0x06, 0x07, 0x2a, 0x86, 0x48, 0xce,
   0x3d, 0x02, 0x01, 0x06, 0x08, 0x2a, 0x86, 0x48, 0xce, 0x3d,
   0x03, 0x01, 0x07, 0x03, 0x42, 0x00]

/-- `MakeEs256`. -/
def makeEs256 (x y : QByteArray) : Option Key :=
  if x.length ≠ kRawCoordinateSize ∨ y.length ≠ kRawCoordinateSize then none
  else backend.d2iPubkey (kSpkiPrefix ++ [0x04] ++ x ++ y)

/-- `VerifyEd25519`. -/
def verifyEd25519 (key : Key) (message signature : QByteArray) : Bool :=
  if signature.length ≠ kRawSignatureSize then false
  else backend.digestVerify key false message signature

/-- `Es256RawToDer`. -/
def es256RawToDer (raw : QByteArray) : QByteArray :=
  if raw.length ≠ kRawSignatureSize then []
  else (backend.i2dEcdsaSig (raw.take kRawCoordinateSize) (raw.drop kRawCoordinateSize)).getD []

/-- `VerifyEs256`. -/
def verifyEs256 (key : Key) (message signature : QByteArray) : Bool :=
  let der := backend.es256RawToDer signature
  if der.isEmpty then false else backend.digestVerify key true message der

/-- `VerifySignature`. -/
def verifySignature (key : ManifestKey) (signingInput signature : QByteArray) :
    Except String Unit := do
  if signingInput.isEmpty then
    throw "Empty signing input."
  match if key.ed25519 then backend.makeEd25519 key.x else backend.makeEs256 key.x key.y with
  | none => throw "Could not build the public key."
  | some pkey =>
    let result := if key.ed25519 then backend.verifyEd25519 pkey signingInput signature
      else backend.verifyEs256 pkey signingInput signature
    if result then return () else throw "Bad signature."

/-! ## The manifest -/

/-- `FromBase64Url`. -/
def fromBase64UrlValue (value : Json) (expectedSize : ℕ) : Option QByteArray := do
  let .string text := value | none
  let decoded ← backend.fromBase64Url (toLatin1 text)
  if decoded.length ≠ expectedSize then none else some decoded

end Backend

/-- `ReadInt64`. -/
def readInt64 (value : Json) : Option ℤ := do
  let .double number := value | none
  if ¬(-9007199254740992 < number) ∨ ¬(number < 9007199254740992) then
    none
  else
    let result := number.num.tdiv number.den
    if (result : ℚ) ≠ number then none else some result

/-- The `expires` of a key. -/
def readExpires (value : Json) : Option ℤ :=
  match value with
  | .undefined => some 0
  | value => do
    let parsed ← readInt64 value
    if parsed ≤ 0 then none else some parsed

namespace Backend

/-- One round of `ParseManifestKeys`. -/
def parseManifestKey (result : ManifestKeys) (entry : Json) : Option ManifestKeys := do
  let .object object := entry | none
  let .string idText := Json.value object "id" | none
  let id := toLatin1 idText
  if id.isEmpty ∨ kMaxKeyIdSize < id.length then
    none
  else if h : id ∈ result.list.map ManifestKey.id then
    none
  else
    let expires ← readExpires (Json.value object "expires")
    let .string algName := Json.value object "alg" | none
    if algName = latin1 "Ed25519" then
      let x ← backend.fromBase64UrlValue (Json.value object "x") kRawCoordinateSize
      return result.push { id, ed25519 := true, x, expires } h
    else if algName = latin1 "ES256" then
      let .string crv := Json.value object "crv" | none
      if crv ≠ latin1 "P-256" then
        none
      else
        let x ← backend.fromBase64UrlValue (Json.value object "x") kRawCoordinateSize
        let y ← backend.fromBase64UrlValue (Json.value object "y") kRawCoordinateSize
        return result.push { id, x, y, expires } h
    else
      -- An unknown algorithm never weakens verification.
      return result

/-- `ParseManifestKeys`. -/
def parseManifestKeys (value : Json) : Option ManifestKeys := do
  let .array list := value | none
  if kMaxKeys < list.length then none
  else list.foldlM backend.parseManifestKey ⟨[], List.nodup_nil⟩

end Backend

/-- An id in a list of ids. -/
def parseId (value : Json) : Option QByteArray := do
  let .string text := value | none
  let id := toLatin1 text
  if id.isEmpty ∨ kMaxKeyIdSize < id.length then none else some id

/-- One group of a channel. -/
def parseGroup (value : Json) : Option (List QByteArray) := do
  let .array idsList := value | none
  if idsList.isEmpty ∨ kMaxGroupKeys < idsList.length then none else idsList.mapM parseId

/-- One round of `ParseManifestChannels`. -/
def parseManifestChannel (result : Channels) (field : QString × Json) : Option Channels := do
  let .array groupsList := field.2 | none
  if groupsList.isEmpty ∨ kMaxGroups < groupsList.length then
    none
  else
    let groups ← groupsList.mapM parseGroup
    return result.emplace (toLatin1 field.1) groups

/-- `ParseManifestChannels`. -/
def parseManifestChannels (value : Json) : Option Channels := do
  let .object object := value | none
  if kMaxChannels < object.length then none else object.foldlM parseManifestChannel []

/-- `ParseManifestRevoked`. -/
def parseManifestRevoked (value : Json) : Option (List QByteArray) := do
  let .array list := value | none
  if kMaxRevoked < list.length then none else list.mapM parseId

/-- A check with the text of its error. -/
def orError {α : Type} (value : Option α) (text : String) : Except String α :=
  match value with
  | some value => .ok value
  | none => .error text

namespace Backend

/-- `ParseVerifiedManifest` after the signature of the root was checked. -/
def parseManifest (json signature : QByteArray) : Except String Manifest := do
  let document ← orError (backend.fromJson json) "Could not parse manifest JSON."
  let .object object := document | throw "Could not parse manifest JSON."
  let .double format := Json.value object "format"
    | throw "Bad manifest format."
  if format ≠ 1 then
    throw "Bad manifest format."
  let version ← orError (readInt64 (Json.value object "manifest_version"))
    "Bad manifest version."
  if version < 1 ∨ 0xFFFFFFFF < version then
    throw "Bad manifest version."
  let issued := (readInt64 (Json.value object "issued")).getD 0
  let expires := (readInt64 (Json.value object "expires")).getD 0
  let keys ← orError (backend.parseManifestKeys (Json.value object "keys"))
    "Bad manifest keys."
  let channels ← orError
    (parseManifestChannels (Json.value object "channels"))
    "Bad manifest channels."
  let revoked ← orError
    (parseManifestRevoked (Json.value object "revoked"))
    "Bad manifest revoked list."
  return {
    version := version.toNat
    issued
    expires
    keys
    channels
    revoked
    bytes := json
    signature }

/-- `ParseVerifiedManifest`. -/
def parseVerifiedManifest (json signature rootPublicKeyPem : QByteArray) :
    Except String Manifest := do
  if json.isEmpty ∨ kMaxManifestSize < json.length then
    throw "Bad manifest size."
  -- The signature is checked before the JSON parser ever sees the bytes.
  let root ← orError (backend.loadEd25519Pem rootPublicKeyPem) "Could not load the root key."
  if !backend.verifyEd25519 root json signature then
    throw "Bad manifest root signature."
  backend.parseManifest json signature

end Backend

/-! ## `VerifyUpdate` -/

/-- `ChannelName`. -/
def channelName : Channel → QByteArray
  | .stable => ascii "stable"
  | .beta => ascii "beta"
  | .canaryPublic => ascii "canary-public"
  | .canaryPrivate => ascii "canary-private"

/-- `UpdateVersionBase`. -/
def updateVersionBase (version : ℕ) : ℕ := (version >>> 32) % 2 ^ 32

/-- `ChannelPolicyAllows`. -/
def channelPolicyAllows (build : Channel) (betaSet : Bool) (package : Channel)
    (packageVersion runningVersion : ℕ) : Bool :=
  match build with
  | .stable => package = .stable || (betaSet && package = .beta)
  | .beta => package = .stable || package = .beta
  | .canaryPublic => package = .canaryPublic ||
      ((package = .stable || package = .beta) &&
        updateVersionBase runningVersion < updateVersionBase packageVersion)
  | .canaryPrivate => package = .canaryPrivate

/-- `findKey` of `VerifyChannelAuthorization`. -/
def Manifest.findKey (manifest : Manifest) (id : QByteArray) : Option ManifestKey :=
  manifest.keys.list.find? fun key => key.id = id

namespace Backend

/-- A key id of a group is satisfied: one round of the loop over the group. -/
def satisfies (manifest : Manifest) (signingInput : QByteArray)
    (signatures : List EnvelopeSignature) (now : ℤ) (id : QByteArray) : Bool :=
  if manifest.revoked.any fun entry => entry = id then
    false
  else match manifest.findKey id with
    | none => false
    | some key =>
      if 0 < key.expires ∧ key.expires ≤ now then
        false
      else
        signatures.any fun signature => signature.keyId = id &&
          (backend.verifySignature key signingInput signature.bytes).isOk

/-- `VerifyChannelAuthorization`. -/
def verifyChannelAuthorization (manifest : Manifest) (channel : Channel) (signingInput : QByteArray)
    (signatures : List EnvelopeSignature) (now : ℤ) : Except String Unit :=
  match manifest.channels.find (channelName channel) with
  | none => .error "Channel is not in the manifest."
  | some groups =>
    if groups.isEmpty then
      .error "Channel is not in the manifest."
    else if groups.all fun group =>
        group.any (backend.satisfies manifest signingInput signatures now) then
      .ok ()
    else
      .error "No valid signature for a required group."

end Backend

/-- `VerifiedUpdate`. -/
structure VerifiedUpdate where
  envelope : Envelope
  manifest : Manifest
  adoptManifest : Bool
  deriving DecidableEq

/-- An error with its text. -/
def reported {α : Type} (x : Except String α) : Except Stop α := x.mapError .error

/-- The manifest the checks use, and `adoptManifest`; `*held` is a fault where nothing is held. -/
def selectManifest (held : Option Manifest) (carried : Manifest) :
    Except Stop (Manifest × Bool) :=
  let heldVersion := (held.map Manifest.version).getD 0
  if heldVersion < carried.version then
    .ok (carried, true)
  else match held with
    | some held => .ok (held, false)
    | none => .error (.fault .assertion)

/-- `VerifyUpdate`. -/
def Backend.verifyUpdate (data : QByteArray) (buildChannel : Channel) (betaSet : Bool)
    (expectedTarget : Target) (runningVersion : ℕ) (held : Option Manifest)
    (rootPublicKeyPem : QByteArray) (now : ℤ) : Except Stop VerifiedUpdate := do
  let envelope ← parseEnvelope data
  if envelope.target ≠ expectedTarget then
    throw (.error "Package target is not this platform.")
  let carried ← reported (backend.parseVerifiedManifest envelope.manifest
    envelope.manifestSignature rootPublicKeyPem)
  let (manifest, adoptManifest) ← selectManifest held carried
  if !channelPolicyAllows buildChannel betaSet envelope.channel envelope.version runningVersion then
    throw (.error "Package channel is not allowed for this build.")
  reported (backend.verifyChannelAuthorization manifest envelope.channel
    (signingInput backend.evpDigest envelope) envelope.signatures now)
  if envelope.version ≤ runningVersion then
    throw (.error "Package version is not newer.")
  return { envelope, manifest, adoptManifest }

end Updates

end Core

end Yunogram
