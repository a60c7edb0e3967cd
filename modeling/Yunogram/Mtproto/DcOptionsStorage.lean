import Mathlib
import Yunogram.Machinery.Run
import Yunogram.Mtproto.DcOptions

/-!
# Mtproto/DcOptionsStorage — the endpoint table and the CDN keys on disk

`serialize` writes the endpoints of the data centres that are not temporary and the CDN public keys;
`constructFromSerialized` reads them into an instance, checking the sizes of addresses and secrets and
building each key anew.  Both go through a `DataStream`.

OpenSSL and the TL serialisation of bytes are not part of the repository: `OpenSsl` collects what is
used of them, and `OpenSsl.Documented` what their documentation says of it.
-/

namespace Yunogram.Mtproto

open Machinery DataStream

/-! ## Public keys -/

/-- `RSAPublicKey`: the two numbers of an `RSA` object. -/
structure RSAPublicKey where
  n : ℕ
  e : ℕ
  deriving DecidableEq

/-- `Format` of a key file. -/
inductive Format
  | rsaPublicKey
  | rsaPubkey
  deriving DecidableEq

/-- What is called of other libraries: `PEM_read_bio_RSAPublicKey` and `PEM_read_bio_RSA_PUBKEY`,
`openssl::BigNum` with `takeRaw`, `openssl::Sha1To`, and `MTP_bytes(…).write`. -/
structure OpenSsl where
  pemRead : Format → Bytes → Option RSAPublicKey
  bigNum : Bytes → Option ℕ
  sha1 : Bytes → Bytes
  mtpBytes : Bytes → Bytes

/-- `ToBytes`: `BN_bn2bin` into `BN_num_bytes` bytes, the high one first. -/
def toBytes (number : ℕ) : Bytes := ((Nat.digits 256 number).map UInt8.ofNat).reverse

/-- The modulus and the exponent of a key are positive, their sizes are `int`s, and bytes are read as
the number they stand for, the high one first. -/
structure OpenSsl.Documented (openssl : OpenSsl) : Prop where
  pemRead_positive : ∀ format bytes key, openssl.pemRead format bytes = some key →
    0 < key.n ∧ 0 < key.e
  pemRead_size : ∀ format bytes key, openssl.pemRead format bytes = some key →
    (toBytes key.n).length < 2 ^ 31 ∧ (toBytes key.e).length < 2 ^ 31
  bigNum : ∀ bytes, bytes ≠ [] → openssl.bigNum bytes = some (ofBigEndian bytes)

/-- `computeFingerprint`. -/
def OpenSsl.fingerprint (openssl : OpenSsl) (key : RSAPublicKey) : Fin (2 ^ 64) :=
  Fin.ofNat (2 ^ 64) (ofLittleEndian
    (slice (openssl.sha1 (openssl.mtpBytes (toBytes key.n) ++ openssl.mtpBytes (toBytes key.e)))
      12 8))

/-- `array.indexOf(text) >= 0`. -/
def hasText (array : Bytes) (text : String) : Bool :=
  array.tails.any (text.toList.map fun c => UInt8.ofNat c.toNat).isPrefixOf

/-- `GuessFormat`, `none` for `Format::Unknown`. -/
def guessFormat (key : Bytes) : Option Format :=
  if hasText key "BEGIN RSA PUBLIC KEY" then some .rsaPublicKey
  else if hasText key "BEGIN PUBLIC KEY" then some .rsaPubkey
  else none

/-- The key in a file, if it is valid; another format is unexpected. -/
def OpenSsl.fromPem (openssl : OpenSsl) (key : Bytes) : Except Fault (Option RSAPublicKey) :=
  match guessFormat key with
  | some format => .ok (openssl.pemRead format key)
  | none => .error .assertion

/-- The key of two numbers, if both are valid. -/
def OpenSsl.fromNumbers (openssl : OpenSsl) (nBytes eBytes : Bytes) : Option RSAPublicKey :=
  match openssl.bigNum nBytes, openssl.bigNum eBytes with
  | some n, some e => some ⟨n, e⟩
  | _, _ => none

/-! ## CDN keys -/

/-- The keys of every data centre, by fingerprint. -/
abbrev CdnKeys := FlatMap DcId (FlatMap (Fin (2 ^ 64)) RSAPublicKey)

/-- `_cdnPublicKeys[dcId].emplace(key.fingerprint(), key)`. -/
def addCdnKey (openssl : OpenSsl) (keys : CdnKeys) (dcId : DcId) (key : RSAPublicKey) : CdnKeys :=
  keys.assign dcId (((keys.find? dcId).getD FlatMap.empty).emplace (openssl.fingerprint key) key)

/-- `MTPDcdnPublicKey`. -/
structure MTPDcdnPublicKey where
  dcId : DcId
  publicKey : Bytes
  deriving DecidableEq

/-- The loop of `setCDNConfig`: a key that cannot be read is skipped. -/
def applyCdnKeys (openssl : OpenSsl) (keys : CdnKeys) :
    List MTPDcdnPublicKey → Except Fault CdnKeys
  | [] => .ok keys
  | data :: rest => do
    match ← openssl.fromPem data.publicKey with
    | some key => applyCdnKeys openssl (addCdnKey openssl keys data.dcId key) rest
    | none => applyCdnKeys openssl keys rest

/-- `DcOptions::setCDNConfig`. -/
def DcOptions.setCDNConfig (openssl : OpenSsl) (s : DcOptions RSAPublicKey)
    (config : List MTPDcdnPublicKey) : Except Fault (DcOptions RSAPublicKey) := do
  let cdnPublicKeys ← applyCdnKeys openssl FlatMap.empty config
  let cdnDcIds ← computeCdnDcIds s.data
  .ok { s with cdnPublicKeys, cdnDcIds }

/-- What changes the options while the application runs. -/
inductive OptionsUpdate
  | setFromList (options : List MTPDcOption)
  | addFromList (options : List MTPDcOption)
  | setCDNConfig (config : List MTPDcdnPublicKey)

/-- An update, with the data centres it reports. -/
def DcOptions.update (openssl : OpenSsl) (s : DcOptions RSAPublicKey) :
    OptionsUpdate → Except Fault (DcOptions RSAPublicKey × List DcId)
  | .setFromList options => s.setFromList options
  | .addFromList options => s.addFromList options
  | .setCDNConfig config => (s.setCDNConfig openssl config).map fun s => (s, [])

/-- `DcOptions::ValidateSecret`. -/
def validateSecret (secret : Bytes) : Bool :=
  (21 ≤ secret.length && secret.head? = some 0xEE)
    || (secret.length = 17 && secret.head? = some 0xDD) || secret.length = 16 || secret.isEmpty

/-! ## The constructor -/

/-- `BuiltInDc`. -/
structure BuiltInDc where
  id : DcId
  ip : String
  port : Qint32

/-- A built-in data centre on the port they all have. -/
def BuiltInDc.at443 (id : DcId) (ip : String) : BuiltInDc := ⟨id, ip, ⟨443, by decide⟩⟩

/-- `kBuiltInDcs`. -/
def kBuiltInDcs : List BuiltInDc :=
  [.at443 ⟨1, by decide⟩ "149.154.175.50", .at443 ⟨2, by decide⟩ "149.154.167.51",
    .at443 ⟨2, by decide⟩ "95.161.76.100", .at443 ⟨3, by decide⟩ "149.154.175.100",
    .at443 ⟨4, by decide⟩ "149.154.167.91", .at443 ⟨5, by decide⟩ "149.154.171.5"]

/-- `kBuiltInDcsIPv6`. -/
def kBuiltInDcsIPv6 : List BuiltInDc :=
  [.at443 ⟨1, by decide⟩ "2001:0b28:f23d:f001:0000:0000:0000:000a",
    .at443 ⟨2, by decide⟩ "2001:067c:04e8:f002:0000:0000:0000:000a",
    .at443 ⟨3, by decide⟩ "2001:0b28:f23d:f003:0000:0000:0000:000a",
    .at443 ⟨4, by decide⟩ "2001:067c:04e8:f004:0000:0000:0000:000a",
    .at443 ⟨5, by decide⟩ "2001:0b28:f23f:f005:0000:0000:0000:000a"]

/-- `kBuiltInDcsTest`. -/
def kBuiltInDcsTest : List BuiltInDc :=
  [.at443 ⟨1, by decide⟩ "149.154.175.10", .at443 ⟨2, by decide⟩ "149.154.167.40",
    .at443 ⟨3, by decide⟩ "149.154.175.117"]

/-- `kBuiltInDcsIPv6Test`. -/
def kBuiltInDcsIPv6Test : List BuiltInDc :=
  [.at443 ⟨1, by decide⟩ "2001:0b28:f23d:f001:0000:0000:0000:000e",
    .at443 ⟨2, by decide⟩ "2001:067c:04e8:f002:0000:0000:0000:000e",
    .at443 ⟨3, by decide⟩ "2001:0b28:f23d:f003:0000:0000:0000:000e"]

/-- `MTPDdcOption::Flag::f_static`. -/
def fStatic : UInt32 := 16

/-- `MTPDdcOption::Flag::f_ipv6`. -/
def fIpv6 : UInt32 := 1

/-- The loops of `constructFromBuiltIn`. -/
def applyBuiltIn (flags : UInt32) (data : DcTable) (list : List BuiltInDc) : DcTable :=
  list.foldl (fun data entry =>
    (applyOneOption data entry.id flags (entry.ip.toList.map fun c => UInt8.ofNat c.toNat) entry.port
      []).1) data

/-- `constructFromBuiltIn`, over a table just cleared. -/
def builtInTable : Environment → DcTable
  | .test => applyBuiltIn (fStatic ||| fIpv6) (applyBuiltIn fStatic FlatMap.empty kBuiltInDcsTest)
      kBuiltInDcsIPv6Test
  | .production => applyBuiltIn (fStatic ||| fIpv6) (applyBuiltIn fStatic FlatMap.empty kBuiltInDcs)
      kBuiltInDcsIPv6

theorem WellFormed.applyBuiltIn {data : DcTable} (h : WellFormed data) (flags : UInt32)
    (list : List BuiltInDc) : WellFormed (applyBuiltIn flags data list) := by
  induction list generalizing data with
  | nil => exact h
  | cons entry list ih => exact ih h.applyOneOption

theorem wellFormed_builtInTable (environment : Environment) :
    WellFormed (builtInTable environment) := by
  cases environment with
  | production => exact (WellFormed.empty.applyBuiltIn _ _).applyBuiltIn _ _
  | test => exact (WellFormed.empty.applyBuiltIn _ _).applyBuiltIn _ _

/-- The CDN data centres of a table, none where the assertion fails. -/
def cdnDcIdsOf (data : DcTable) : FlatMap DcId Unit := (computeCdnDcIds data).toOption.getD FlatMap.empty

/-- `DcOptions::DcOptions`. -/
def DcOptions.construct (environment : Environment) : DcOptions RSAPublicKey where
  environment := environment
  data := builtInTable environment
  wellFormed := wellFormed_builtInTable environment
  cdnDcIds := cdnDcIdsOf (builtInTable environment)
  cdnPublicKeys := FlatMap.empty
  immutable := false

/-! ## Writing -/

/-- `kVersion`. -/
def kVersion : Qint32 := ⟨2, by decide⟩

/-- `kTemporaryMainDc`. -/
def kTemporaryMainDc : ℤ := 1000

/-- `isTemporaryDcId`. -/
def isTemporaryDcId (shiftedDcId : DcId) : Bool := kTemporaryMainDc ≤ (bareDcId shiftedDcId).1

/-- The endpoints that are written, in the order of the loop. -/
def storedEndpoints (data : DcTable) : List Endpoint :=
  (data.entries.filter fun item => !isTemporaryDcId item.1).flatMap Prod.snd

/-- The keys that are written, with their data centres. -/
def storedKeys (keys : CdnKeys) : List (DcId × RSAPublicKey) :=
  keys.entries.flatMap fun keysInDc => keysInDc.2.entries.map fun entry => (keysInDc.1, entry.2)

/-- An endpoint on the stream. -/
def endpointBytes (endpoint : Endpoint) : Bytes :=
  int32Bytes endpoint.id ++ int32Bytes (Qint32.wrap endpoint.flags.toNat)
    ++ int32Bytes endpoint.port ++ int32Bytes (Qint32.wrap endpoint.ip.length)
    ++ rawBytes endpoint.ip (Qint32.wrap endpoint.ip.length)
    ++ int32Bytes (Qint32.wrap endpoint.secret.length)
    ++ rawBytes endpoint.secret (Qint32.wrap endpoint.secret.length)

/-- `Serialize::bytes` written: empty bytes have a size of their own. -/
def vectorBytes (bytes : Bytes) : Bytes :=
  if bytes.isEmpty then uint32Bytes 0xFFFFFFFF
  else uint32Bytes (bytes.length % 2 ^ 32)
    ++ rawBytes bytes (Qint32.wrap (bytes.length % 2 ^ 32 : ℕ))

/-- A key on the stream. -/
def keyBytes (key : DcId × RSAPublicKey) : Bytes :=
  int32Bytes key.1 ++ vectorBytes (toBytes key.2.n) ++ vectorBytes (toBytes key.2.e)

/-- `DcOptions::serialize` of what an instance keeps.  `none` is where the count of endpoints leaves
its `int`, or the count of keys has become negative as one and no vector of that size is reserved. -/
def serializeData (data : DcTable) (keys : CdnKeys) : Option Bytes :=
  if 2 ^ 31 ≤ (storedEndpoints data).length then none
  else if (Qint32.wrap (storedKeys keys).length).1 < 0 then none
  else some (int32Bytes (Qint32.wrap (-kVersion.1))
    ++ int32Bytes (Qint32.wrap (storedEndpoints data).length)
    ++ (storedEndpoints data).flatMap endpointBytes
    ++ int32Bytes (Qint32.wrap (storedKeys keys).length)
    ++ (storedKeys keys).flatMap keyBytes)

/-- `DcOptions::serialize`: the overridden options of an immutable instance are not written. -/
def DcOptions.serialize (s : DcOptions RSAPublicKey) : Option Bytes :=
  if s.immutable then
    serializeData (DcOptions.construct s.environment).data
      (DcOptions.construct s.environment).cdnPublicKeys
  else serializeData s.data s.cdnPublicKeys

/-! ## Reading -/

/-- `kStep` of the reader of counted bytes. -/
def kStep : ℕ := 1024 * 1024

/-- The blocks of counted bytes that are `left` to read. -/
def readBlocks (left : ℕ) (bytes : Bytes) (stream : DataStream) : Bytes × DataStream :=
  if left = 0 then (bytes, stream)
  else
    let (block, stream) := stream.readRaw (min kStep left)
    if block.length ≠ min kStep left then ([], { stream with ok := false })
    else readBlocks (left - min kStep left) (bytes ++ block) stream
termination_by left
decreasing_by
  rw [kStep]
  omega

/-- `Serialize::bytes` read. -/
def readVector (stream : DataStream) : Bytes × DataStream :=
  let (len, stream) := stream.readUInt32
  if stream.ok = false ∨ len = 0xFFFFFFFF then ([], stream) else readBlocks len [] stream

/-- `kMaxIpSize`. -/
def kMaxIpSize : ℤ := 45

/-- `kMaxSecretSize`. -/
def kMaxSecretSize : ℤ := 32

/-- The secret of an option; versions before the first had none. -/
def readSecret (version : Qint32) : Reader Bytes :=
  if 0 < version.1 then do
    let secretSize ← reads readInt32
    require ¬ (secretSize.1 < 0 ∨ kMaxSecretSize < secretSize.1)
    reads (readRaw secretSize.1.toNat)
  else pure []

/-- One round of the loop over the options. -/
def readEndpoint (version : Qint32) : Reader Endpoint := do
  let id ← reads readInt32
  let flags ← reads readInt32
  let port ← reads readInt32
  let ipSize ← reads readInt32
  require ¬ (ipSize.1 ≤ 0 ∨ kMaxIpSize < ipSize.1)
  let ip ← reads (readRaw ipSize.1.toNat)
  let secret ← readSecret version
  requireOk
  pure ⟨id, UInt32.ofNat flags.toBits, ip, port, secret⟩

/-- A read endpoint applied. -/
def addEndpoint (data : DcTable) (endpoint : Endpoint) : DcTable :=
  (applyOneOption data endpoint.id endpoint.flags endpoint.ip endpoint.port endpoint.secret).1

/-- The loop over the options; a negative count would make it go round until the stream ends. -/
def readEndpoints (version : Qint32) (count : Qint32) (data : DcTable) (stream : DataStream) :
    DcTable × Option DataStream :=
  readMany (readEndpoint version) addEndpoint count.toBits data stream

/-- One round of the loop over the CDN keys. -/
def readKey (openssl : OpenSsl) : Reader (DcId × RSAPublicKey) := do
  let dcId ← reads readInt32
  let n ← reads readVector
  let e ← reads readVector
  requireOk
  let key ← expect (openssl.fromNumbers n e)
  pure (dcId, key)

/-- The loop over the CDN keys. -/
def readKeys (openssl : OpenSsl) (count : Qint32) (keys : CdnKeys) (stream : DataStream) :
    CdnKeys × Option DataStream :=
  readMany (readKey openssl) (fun keys key => addCdnKey openssl keys key.1 key.2)
    count.toBits keys stream

/-- What a loop has added, and whether it came to its end. -/
def atEnd {β : Type} (r : β × Option DataStream) : β × Bool := (r.1, r.2.isSome)

theorem atEnd_fst {β : Type} (r : β × Option DataStream) : (atEnd r).1 = r.1 := rfl

/-- The CDN part, absent from the first versions, and whether it could be read. -/
def readCdnConfig (openssl : OpenSsl) (version : Qint32) (keys : CdnKeys) (stream : DataStream) :
    CdnKeys × Bool :=
  if stream.rest ≠ [] ∧ 1 < version.1 then
    if stream.readInt32.2.ok = false then (keys, false)
    else atEnd (readKeys openssl stream.readInt32.1 keys stream.readInt32.2)
  else (keys, true)

/-- Adding endpoints keeps the table well formed. -/
theorem WellFormed.foldl_addEndpoint {data : DcTable} (h : WellFormed data)
    (list : List Endpoint) : WellFormed (list.foldl addEndpoint data) := by
  induction list generalizing data with
  | nil => exact h
  | cons endpoint list ih => exact ih h.applyOneOption

theorem WellFormed.readEndpoints {version count : Qint32} {data : DcTable} {stream : DataStream}
    (h : WellFormed data) : WellFormed (readEndpoints version count data stream).1 := by
  obtain ⟨list, -, hfold, -⟩ : ∃ list : List Endpoint, list.length ≤ count.toBits ∧
      (Mtproto.readEndpoints version count data stream).1 = list.foldl addEndpoint data ∧ _ :=
    readMany_eq_foldl count.toBits data stream
  rw [hfold]
  exact h.foldl_addEndpoint list

/-- `constructFromSerialized` after the version and the count are read. -/
def DcOptions.constructFromStream (openssl : OpenSsl) (s : DcOptions RSAPublicKey)
    (version count : Qint32) (stream : DataStream) : DcOptions RSAPublicKey × Bool :=
  let loaded : DcOptions RSAPublicKey := { s with
    data := (readEndpoints version count FlatMap.empty stream).1
    wellFormed := WellFormed.empty.readEndpoints
    cdnDcIds := cdnDcIdsOf (readEndpoints version count FlatMap.empty stream).1 }
  match (readEndpoints version count FlatMap.empty stream).2 with
  | none => (loaded, false)
  | some stream =>
    ({ loaded with cdnPublicKeys := (readCdnConfig openssl version s.cdnPublicKeys stream).1 },
      (readCdnConfig openssl version s.cdnPublicKeys stream).2)

/-- The version of what was written. -/
def versionOf (minusVersion : Qint32) : Qint32 :=
  if minusVersion.1 < 0 then Qint32.wrap (-minusVersion.1) else ⟨0, by decide⟩

/-- The count of the options: before the first version it stood in the version's place. -/
def readCount (minusVersion : Qint32) (stream : DataStream) : Qint32 × DataStream :=
  if 0 < (versionOf minusVersion).1 then stream.readInt32 else (minusVersion, stream)

/-- `DcOptions::constructFromSerialized`. -/
def DcOptions.constructFromSerialized (openssl : OpenSsl) (s : DcOptions RSAPublicKey)
    (serialized : Bytes) : DcOptions RSAPublicKey × Bool :=
  let minusVersion := readInt32 ⟨serialized, true⟩
  let count := readCount minusVersion.1 minusVersion.2
  if count.2.ok = false then (s, false)
  else s.constructFromStream openssl (versionOf minusVersion.1) count.1 count.2

end Yunogram.Mtproto
