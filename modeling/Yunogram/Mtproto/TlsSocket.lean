import Yunogram.Machinery.Span
import Yunogram.Mtproto.TcpProtocol

/-!
# Mtproto/TlsSocket — a socket that looks like TLS

`TlsSocket` of `mtproto/details/mtproto_tls_socket.cpp`, from the moment the client hello was sent.
The server's hello is checked in parts whose lengths become known as they arrive; after it the data
comes in application-data records, which `checkNextPacket` finds and `read` takes the payload of.

`_incoming` starts with the digest of the client hello, which the server's digest is computed over.
The plain socket holds bytes that arrived (`available`) until `readAll` takes them.  Span operations
and assertions of the source are checked (`Except Fault`).
-/

open Machinery

namespace Yunogram

namespace Mtproto

/-- `kHelloDigestLength`. -/
def kHelloDigestLength : ℕ := 32

/-- `kLengthSize`. -/
def kLengthSize : ℕ := 2

/-- `kMaxServerHelloLength`. -/
def kMaxServerHelloLength : ℕ := 65536

/-- `kServerHelloPart1`. -/
def kServerHelloPart1 : Bytes := [0x16, 0x03, 0x03]

/-- `parts1Size`: the first part of the server hello with the length of the second. -/
def parts1Size : ℕ := kServerHelloPart1.length + kLengthSize

/-- `kServerHelloPart3`. -/
def kServerHelloPart3 : Bytes := [0x14, 0x03, 0x03, 0x00, 0x01, 0x01, 0x17, 0x03, 0x03]

/-- `kServerHelloDigestPosition`. -/
def kServerHelloDigestPosition : ℕ := 11

/-- `kServerHeader`. -/
def kServerHeader : Bytes := [0x17, 0x03, 0x03]

/-- `kClientPartSize`. -/
def kClientPartSize : ℕ := 2878

/-- `kClientPrefix`. -/
def kClientPrefix : Bytes := [0x14, 0x03, 0x03, 0x00, 0x01, 0x01]

/-- `kClientHeader`. -/
def kClientHeader : Bytes := [0x17, 0x03, 0x03]

/-- `CheckPart`. -/
def checkPart (data check : Bytes) : Bool :=
  if data.length < check.length then false else data.take check.length = check

/-- `ReadPartLength`: two bytes, the high one first. -/
def readPartLength (data : Bytes) (offset : ℕ) : Except Fault ℕ := do
  let storage ← subspan data offset kLengthSize
  return storage.foldl (fun n b => n * 256 + b.toNat) 0

/-- `TlsSocket::State`, from the client hello on. -/
inductive TlsState
  | waitingHello
  | connected
  | error
  deriving DecidableEq

/-- What the hello is checked with: the digest of the client hello and `openssl::HmacSha256` under
the key from the secret. -/
structure TlsKeys where
  digest : Bytes
  hmacSha256 : Bytes → Bytes
  length_digest : digest.length = kHelloDigestLength

/-- `TlsSocket`; `checkQueued` says that `checkHelloDigest` queued a call of `checkNextPacket`. -/
structure TlsSocket where
  available : Bytes := []
  state : TlsState := .waitingHello
  incoming : Bytes
  incomingGoodDataOffset : ℕ := 0
  incomingGoodDataLimit : ℕ := 0
  serverHelloLength : ℕ := 0
  checkQueued : Bool := false

namespace TlsSocket

/-- `handleError`. -/
def handleError (s : TlsSocket) : TlsSocket := { s with state := .error }

/-- `requiredHelloPartReady`. -/
def requiredHelloPartReady (s : TlsSocket) : Bool :=
  kHelloDigestLength + s.serverHelloLength ≤ s.incoming.length

/-- `_incoming.append(_socket.readAll())`. -/
def appendAll (s : TlsSocket) : TlsSocket :=
  { s with incoming := s.incoming ++ s.available, available := [] }

/-- `shiftIncomingBy`. -/
def shiftIncomingBy (s : TlsSocket) (amount : ℕ) : Except Fault TlsSocket := do
  expects (s.incomingGoodDataOffset = 0)
  expects (s.incomingGoodDataLimit = 0)
  if amount < s.incoming.length then
    return { s with incoming := s.incoming.drop amount }
  else
    return { s with incoming := [] }

/-! ## The hello -/

/-- `checkHelloDigest`. -/
def checkHelloDigest (s : TlsSocket) (keys : TlsKeys) : Except Fault TlsSocket := do
  if s.serverHelloLength < kServerHelloDigestPosition + kHelloDigestLength then
    return s.handleError
  let fulldata ← subspan s.incoming 0 (kHelloDigestLength + s.serverHelloLength)
  let digest ← subspan fulldata (kHelloDigestLength + kServerHelloDigestPosition) kHelloDigestLength
  let zeroed := overwrite fulldata (kHelloDigestLength + kServerHelloDigestPosition)
    (List.replicate kHelloDigestLength 0)
  let s : TlsSocket := { s with incoming := overwrite s.incoming 0 zeroed }
  if digest ≠ keys.hmacSha256 zeroed then
    return s.handleError
  let s ← s.shiftIncomingBy fulldata.length
  return { s with
    checkQueued := s.checkQueued || !s.incoming.isEmpty
    incomingGoodDataOffset := 0
    incomingGoodDataLimit := 0
    state := .connected }

/-- `checkHelloParts34`; the flag says that it ends by calling `readHello`. -/
def checkHelloParts34 (s : TlsSocket) (keys : TlsKeys) (parts123Size : ℕ) :
    Except Fault (TlsSocket × Bool) := do
  let data ← subspan s.incoming kHelloDigestLength parts123Size
  let part4Size ← readPartLength data (parts123Size - kLengthSize)
  let full := parts123Size + part4Size
  if kMaxServerHelloLength < full then
    return (s.handleError, false)
  if s.serverHelloLength = parts123Size then
    let part3Offset := parts123Size - kLengthSize - kServerHelloPart3.length
    let part3 ← subspan data part3Offset (data.length - part3Offset)
    if !checkPart part3 kServerHelloPart3 then
      return (s.handleError, false)
    let s : TlsSocket := { s with serverHelloLength := full }
    if !s.requiredHelloPartReady then
      return (s, true)
    let s ← s.checkHelloDigest keys
    return (s, false)
  let s ← s.checkHelloDigest keys
  return (s, false)

/-- `checkHelloParts12`; the flag says that it ends by calling `readHello`. -/
def checkHelloParts12 (s : TlsSocket) (keys : TlsKeys) : Except Fault (TlsSocket × Bool) := do
  let data ← subspan s.incoming kHelloDigestLength parts1Size
  let part2Size ← readPartLength data (parts1Size - kLengthSize)
  let parts123Size := parts1Size + part2Size + kServerHelloPart3.length + kLengthSize
  if kMaxServerHelloLength < parts123Size then
    return (s.handleError, false)
  if s.serverHelloLength = parts1Size then
    let part1Offset := parts1Size - kLengthSize - kServerHelloPart1.length
    let part1 ← subspan data part1Offset (data.length - part1Offset)
    if !checkPart part1 kServerHelloPart1 then
      return (s.handleError, false)
    let s : TlsSocket := { s with serverHelloLength := parts123Size }
    if !s.requiredHelloPartReady then
      return (s, true)
    s.checkHelloParts34 keys parts123Size
  else
    s.checkHelloParts34 keys parts123Size

theorem checkHelloParts34_again {s s' : TlsSocket} {keys : TlsKeys} {size : ℕ}
    (h : s.checkHelloParts34 keys size = .ok (s', true)) :
    s'.incoming = s.incoming ∧ s'.requiredHelloPartReady = false ∧
      s'.serverHelloLength ≤ kMaxServerHelloLength := by
  rw [checkHelloParts34] at h
  obtain ⟨data, -, h⟩ := bind_ok h
  obtain ⟨part4Size, -, h⟩ := bind_ok h
  dsimp only at h
  split at h
  · exact nomatch h
  · next hmax =>
    split at h
    · obtain ⟨part3, -, h⟩ := bind_ok h
      split at h
      · exact nomatch h
      · split at h
        · next hready =>
          obtain rfl := congrArg Prod.fst (Except.ok.inj h)
          exact ⟨rfl, by simpa using hready, not_lt.mp hmax⟩
        · obtain ⟨_, -, h⟩ := bind_ok h
          exact nomatch h
    · obtain ⟨_, -, h⟩ := bind_ok h
      exact nomatch h

theorem checkHelloParts12_again {s s' : TlsSocket} {keys : TlsKeys}
    (h : s.checkHelloParts12 keys = .ok (s', true)) :
    s'.incoming = s.incoming ∧ s'.requiredHelloPartReady = false ∧
      s'.serverHelloLength ≤ kMaxServerHelloLength := by
  rw [checkHelloParts12] at h
  obtain ⟨data, -, h⟩ := bind_ok h
  obtain ⟨part2Size, -, h⟩ := bind_ok h
  dsimp only at h
  split at h
  · exact nomatch h
  · next hmax =>
    split at h
    · obtain ⟨part1, -, h⟩ := bind_ok h
      split at h
      · exact nomatch h
      · split at h
        · next hready =>
          obtain rfl := congrArg Prod.fst (Except.ok.inj h)
          exact ⟨rfl, by simpa using hready, not_lt.mp hmax⟩
        · have hagain := checkHelloParts34_again h
          exact hagain
    · exact checkHelloParts34_again h

/-- What `readHello` begins with: without a length yet it sets that of the first part, and the loop
takes what is available when the part is not there.  A second round would find nothing to take. -/
def awaitHelloPart (s : TlsSocket) : TlsSocket :=
  let s : TlsSocket :=
    if s.serverHelloLength = 0 then { s with serverHelloLength := parts1Size } else s
  if s.requiredHelloPartReady then s else s.appendAll

theorem serverHelloLength_le_awaitHelloPart (s : TlsSocket) :
    s.serverHelloLength ≤ s.awaitHelloPart.serverHelloLength := by
  by_cases h0 : s.serverHelloLength = 0
  · omega
  · rw [awaitHelloPart, if_neg h0]
    split <;> exact le_rfl

/-- The next part is longer. -/
theorem readHello_decreases {s s' : TlsSocket} {keys : TlsKeys}
    (hready : s.awaitHelloPart.requiredHelloPartReady)
    (h : s.awaitHelloPart.checkHelloParts12 keys = .ok (s', true)) :
    kMaxServerHelloLength + 1 - s'.serverHelloLength
      < kMaxServerHelloLength + 1 - s.serverHelloLength := by
  obtain ⟨hin, hnot, hmax⟩ := checkHelloParts12_again h
  have hle := s.serverHelloLength_le_awaitHelloPart
  rw [requiredHelloPartReady, decide_eq_true_eq] at hready
  rw [requiredHelloPartReady, decide_eq_false_iff_not, hin] at hnot
  omega

/-- `readHello`. -/
def readHello (s : TlsSocket) (keys : TlsKeys) : Except Fault TlsSocket :=
  if _ready : s.awaitHelloPart.requiredHelloPartReady then
    match _again : s.awaitHelloPart.checkHelloParts12 keys with
    | .error fault => .error fault
    | .ok (s', true) => s'.readHello keys
    | .ok (s', false) => .ok s'
  else
    .ok s.awaitHelloPart
termination_by kMaxServerHelloLength + 1 - s.serverHelloLength
decreasing_by exact readHello_decreases _ready _again

/-! ## The records -/

/-- The loop of `checkNextPacket` from `offset` on. -/
def checkNextPacketFrom (s : TlsSocket) (offset : ℕ) : Except Fault (TlsSocket × Bool) := do
  if s.incomingGoodDataLimit ≠ 0 then
    return (s, true)
  let fullHeader := kServerHeader.length + kLengthSize
  if _h : s.incoming.length ≤ offset + fullHeader then
    return (s, true)
  let rest ← subspan s.incoming offset (s.incoming.length - offset)
  if !checkPart rest kServerHeader then
    return (s, false)
  let length ← readPartLength s.incoming (offset + kServerHeader.length)
  if 0 < length then
    let s : TlsSocket ← if 0 < offset then s.shiftIncomingBy offset else pure s
    -- The limit ends the loop.
    return ({ s with incomingGoodDataOffset := fullHeader, incomingGoodDataLimit := length }, true)
  else
    s.checkNextPacketFrom (offset + kServerHeader.length + kLengthSize + length)
termination_by s.incoming.length - offset
decreasing_by
  simp only [kServerHeader, kLengthSize, List.length_cons, List.length_nil] at *
  omega

/-- `checkNextPacket`. -/
def checkNextPacket (s : TlsSocket) : Except Fault (TlsSocket × Bool) := s.checkNextPacketFrom 0

/-- `hasBytesAvailable`. -/
def hasBytesAvailable (s : TlsSocket) : Bool :=
  0 < s.incomingGoodDataLimit ∧ s.incomingGoodDataOffset < s.incoming.length

/-- `readData`. -/
def readData (s : TlsSocket) : Except Fault TlsSocket := do
  if s.state ≠ .connected then
    return s
  let (s, good) ← s.appendAll.checkNextPacket
  return if good then s else s.handleError

/-- `plainReadyRead`. -/
def plainReadyRead (s : TlsSocket) (keys : TlsKeys) : Except Fault TlsSocket :=
  match s.state with
  | .waitingHello => s.readHello keys
  | .connected => s.readData
  | .error => .ok s

/-- `read` into a buffer of `size` bytes: the bytes that were written to it. -/
def read (s : TlsSocket) (size : ℕ) : Except Fault (TlsSocket × Bytes) := do
  if s.incomingGoodDataLimit = 0 then
    return (s, [])
  let available := min s.incomingGoodDataLimit (s.incoming.length - s.incomingGoodDataOffset)
  if available = 0 then
    return (s, [])
  let write := min available size
  if _h : write = 0 then
    return (s, [])
  let bytes ← subspan s.incoming s.incomingGoodDataOffset write
  let s : TlsSocket := { s with
    incomingGoodDataLimit := s.incomingGoodDataLimit - write
    incomingGoodDataOffset := s.incomingGoodDataOffset + write }
  if s.incomingGoodDataLimit ≠ 0 then
    return (s, bytes)
  let taken : TlsSocket := { s with incomingGoodDataOffset := 0 }
  let shifted ← taken.shiftIncomingBy s.incomingGoodDataOffset
  let (s, good) ← shifted.checkNextPacket
  if !good then
    return (s.handleError, bytes)
  let (s, more) ← s.read (size - write)
  return (s, bytes ++ more)
termination_by size
decreasing_by omega

/-! ## Writing -/

/-- The loop of `write`; sizes are `size_t`, the length that is sent is `uint16`. -/
def writeParts (prefixBytes buffer : Bytes) : Bytes :=
  if _h : buffer = [] then
    []
  else
    let write := min ((kClientPartSize + 2 ^ 64 - prefixBytes.length) % 2 ^ 64) buffer.length
    let size := (prefixBytes.length + write) % 2 ^ 16
    kClientHeader ++ [UInt8.ofNat (size / 256), UInt8.ofNat (size % 256)] ++ prefixBytes
      ++ buffer.take write ++ writeParts [] (buffer.drop write)
termination_by prefixBytes.length + buffer.length
decreasing_by
  have hpos := List.length_pos_iff.mpr _h
  rw [List.length_nil, List.length_drop, kClientPartSize]
  omega

/-- `write`: what the plain socket is given. -/
def write (s : TlsSocket) (prefixBytes buffer : Bytes) : Except Fault Bytes := do
  expects (buffer ≠ [])
  if s.state ≠ .connected then
    return []
  return (if prefixBytes.isEmpty then [] else kClientPrefix) ++ writeParts prefixBytes buffer

/-- What the plain socket is given by a sequence of writes. -/
def writes (s : TlsSocket) : List (Bytes × Bytes) → Except Fault Bytes
  | [] => .ok []
  | (prefixBytes, buffer) :: buffers => do
    let sent ← s.write prefixBytes buffer
    let more ← s.writes buffers
    return sent ++ more

/-! ## What happens to the socket -/

/-- What happens to the socket: bytes arrive at the plain socket, it signals that it can be read, the
queued call runs, the owner reads. -/
inductive TlsEvent
  | arrive (bytes : Bytes)
  | plainReadyRead
  | checkNextPacket
  | read (size : ℕ)

/-- What an event does, and the bytes it returns to the owner. -/
def step (keys : TlsKeys) (s : TlsSocket) : TlsEvent → Except Fault (TlsSocket × Bytes)
  | .arrive bytes => .ok ({ s with available := s.available ++ bytes }, [])
  | .plainReadyRead => do
    let s ← s.plainReadyRead keys
    return (s, [])
  | .checkNextPacket => do
    if !s.checkQueued then
      return (s, [])
    let (s, good) ← TlsSocket.checkNextPacket { s with checkQueued := false }
    return (if good then s else s.handleError, [])
  | .read size => s.read size

/-- The socket after `plainConnected`. -/
def start (keys : TlsKeys) : TlsSocket := { incoming := keys.digest }

end TlsSocket

end Mtproto

end Yunogram
