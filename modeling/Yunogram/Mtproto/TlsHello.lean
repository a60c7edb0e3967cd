import Yunogram.Machinery.Layout
import Yunogram.Mtproto.TlsSocket

/-!
# Mtproto/TlsHello — the hello that a TLS socket sends

`Generator` of `mtproto/details/mtproto_tls_socket.cpp` writes the blocks of the rules one after
another into at most `kClientHelloLimit` bytes.  A scope leaves room for its length, writes what is
inside and then puts the length; the parts of a permutation are written on their own and copied in a
random order; the padding fills what is there up to a size.  The first block of `kHelloDigestLength`
zeros is where the digest of the hello goes in the end, with the time put over its last bytes.

What is chosen at random is a `Random`: `drawn` counts what was chosen before.
-/

open Machinery

namespace Yunogram

namespace Mtproto

namespace TlsHello

/-- `kClientHelloLimit`. -/
def kClientHelloLimit : ℕ := 2048

/-- `kElements` of a block of pairs. -/
def kElements : ℕ := 384

/-- `kAdded` of a block of pairs. -/
def kAdded : ℕ := 32

/-- `MTPTlsBlock`. -/
inductive TlsBlock
  | string (data : Bytes)
  | zero (length : ℤ)
  | grease (seed : ℤ)
  | random (length : ℤ)
  | domain
  | publicKey
  | scope (entries : List TlsBlock)
  | permutation (entries : List (List TlsBlock))
  | m
  | e
  | padding

/-- What is chosen at random: `bytes::set_random`, `base::RandomIndex`, `GeneratePublicKey` and
`ranges::shuffle`. -/
structure Random where
  bytes : ℕ → ℕ → Bytes
  length_bytes : ∀ n size, (bytes n size).length = size
  index : ℕ → ℕ → ℕ
  publicKey : ℕ → Bytes
  shuffle : ℕ → List Bytes → List Bytes
  shuffle_perm : ∀ n list, (shuffle n list).Perm list

/-- What the blocks refer to. -/
structure Env where
  domain : Bytes
  greases : Bytes
  random : Random

/-- `Generator::Part`; a `digestPosition` of `-1` is `none`. -/
structure Part where
  result : Bytes := []
  digestPosition : Option ℕ := none
  error : Bool := false
  drawn : ℕ := 0

namespace Part

/-- `grow`, with what is written there. -/
def grow (p : Part) (size : ℤ) (bytes : Bytes) : Part :=
  if p.error ∨ size ≤ 0 ∨ kClientHelloLimit < p.result.length + size then { p with error := true }
  else { p with result := p.result ++ bytes }

/-- `writeBlock`, of a string and of what else is copied. -/
def writeBytes (p : Part) (bytes : Bytes) : Part := p.grow bytes.length bytes

/-- `writeBlock`, of zeros. -/
def writeZero (p : Part) (length : ℤ) : Part :=
  let already := p.result.length
  let p := p.grow length (List.replicate length.toNat 0)
  if p.error then p
  else if length = kHelloDigestLength ∧ p.digestPosition = none then
    { p with digestPosition := some already }
  else p

/-- `writeBlock`, of a grease. -/
def writeGrease (env : Env) (p : Part) (seed : ℤ) : Part :=
  if seed < 0 then { p with error := true }
  else
    match env.greases[seed.toNat]? with
    | none => { p with error := true }
    | some grease => p.grow 2 [grease, grease]

/-- `writeBlock`, of random bytes. -/
def writeRandom (env : Env) (p : Part) (length : ℤ) : Part :=
  { p.grow length (env.random.bytes p.drawn length.toNat) with drawn := p.drawn + 1 }

/-- `writeBlock`, of a scope in which `entries` writes. -/
def writeScope (p : Part) (entries : Part → Part) : Part :=
  let position := p.result.length
  let p := p.grow kLengthSize (List.replicate kLengthSize 0)
  if p.error then p
  else
    let already := p.result.length
    let p := entries p
    let length := bigEndian kLengthSize (p.result.length - already)
    { p with result := overwrite p.result position length }

/-- The three bytes of a pair of coefficients. -/
def pair (a b : ℕ) : Bytes :=
  [UInt8.ofNat (a &&& 255), UInt8.ofNat ((a >>> 8) + ((b &&& 15) <<< 4)), UInt8.ofNat (b >>> 4)]

/-- `writeBlock`, of pairs of coefficients; `random` are the bytes read as `uint32`s. -/
def writeM (env : Env) (p : Part) : Part :=
  let random := env.random.bytes p.drawn (kElements * 8 + kAdded)
  let int (i : ℕ) := ofLittleEndian (slice random (i * 4) 4) % 3329
  let pairs := (List.range kElements).flatMap fun i => pair (int (i * 2)) (int (i * 2 + 1))
  { p.grow (kElements * 3 + kAdded : ℕ) (pairs ++ env.random.bytes (p.drawn + 1) kAdded) with
    drawn := p.drawn + 2 }

/-- The lengths of a block of random bytes. -/
def lengths : List ℤ := [144, 176, 208, 240]

/-- `writeBlock`, of random bytes of one of four lengths. -/
def writeE (env : Env) (p : Part) : Part :=
  let length := lengths.getD (env.random.index p.drawn lengths.length) 144
  writeRandom env { p with drawn := p.drawn + 1 } length

/-- `writeBlock`, of the padding. -/
def writePadding (p : Part) : Part :=
  let length := p.result.length
  if length < 513 then
    (p.writeBytes [0x00, 0x15]).writeScope fun p => p.writeZero (513 - length)
  else p

end Part

mutual

/-- `writeBlock`. -/
def writeBlock (env : Env) : TlsBlock → Part → Part
  | .string data, p => p.writeBytes data
  | .zero length, p => p.writeZero length
  | .grease seed, p => p.writeGrease env seed
  | .random length, p => p.writeRandom env length
  | .domain, p => p.writeBytes env.domain
  | .publicKey, p => { p.writeBytes (env.random.publicKey p.drawn) with drawn := p.drawn + 1 }
  | .scope entries, p => p.writeScope (writeBlocks env entries)
  | .permutation entries, p =>
    match writeParts env entries p.drawn with
    | (none, drawn) => { p with error := true, drawn }
    | (some list, drawn) =>
      (env.random.shuffle drawn list).foldl Part.writeBytes { p with drawn := drawn + 1 }
  | .m, p => p.writeM env
  | .e, p => p.writeE env
  | .padding, p => p.writePadding

/-- `writeBlocks`. -/
def writeBlocks (env : Env) : List TlsBlock → Part → Part
  | [], p => p
  | block :: blocks, p => writeBlocks env blocks (writeBlock env block p)

/-- The parts of a permutation, each on its own, if there is no error. -/
def writeParts (env : Env) : List (List TlsBlock) → ℕ → Option (List Bytes) × ℕ
  | [], drawn => (some [], drawn)
  | inner :: entries, drawn =>
    let part := writeBlocks env inner { drawn }
    if part.error then (none, part.drawn)
    else
      match writeParts env entries part.drawn with
      | (list, drawn) => (list.map (part.result :: ·), drawn)

end

/-- What the digest is made with: `openssl::HmacSha256` and `base::unixtime::http_now`. -/
structure Hmac where
  hmacSha256 : Bytes → Bytes → Bytes
  length_hmacSha256 : ∀ key data, (hmacSha256 key data).length = kHelloDigestLength
  now : ℕ

/-- `finalize`. -/
def Part.finalize (p : Part) (hmac : Hmac) (key : Bytes) : Part :=
  if p.error then p
  else
    match p.digestPosition with
    | none => { p with error := true }
    | some position =>
      let result := overwrite p.result position (hmac.hmacSha256 key p.result)
      let time := position + kHelloDigestLength - 4
      let already := slice result time 4
      { p with
        result := overwrite result time (already.zipWith (· ^^^ ·) (littleEndian 4 hmac.now)) }

/-- `Generator`. -/
def generator (env : Env) (hmac : Hmac) (rules : List TlsBlock) (key : Bytes) : Part :=
  (writeBlocks env rules {}).finalize hmac key

/-- `ClientHello`. -/
structure ClientHello where
  data : Bytes
  digest : Bytes

/-- `take`. -/
def Part.take (p : Part) : ClientHello where
  data := if p.error then [] else p.result
  digest := match p.digestPosition with
    | none => []
    | some position => slice p.result position kHelloDigestLength

/-- `PrepareClientHello`. -/
def prepareClientHello (env : Env) (hmac : Hmac) (rules : List TlsBlock) (key : Bytes) :
    ClientHello :=
  (generator env hmac rules key).take

end TlsHello

end Mtproto

end Yunogram
