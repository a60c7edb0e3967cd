import Yunogram.Machinery.LittleEndian
import Yunogram.Machinery.Span
import Yunogram.Mtproto.TcpProtocol

/-!
# Mtproto/WebSocket — the frames a browser sends to the local web proxy

`processWebSocket` of `mtproto/web_proxy/web_proxy_transport.cpp` and what it calls.  The received
bytes of a client are kept in `input`; the loop cuts complete frames off, answers pings, joins the
fragments of a message and hands each message over.  What is done with a message is the business of
others: `Host` says how the client and its socket are left after each.

`disconnectFromHost` disconnects at once when nothing is left to be written, and the entry of the
client is erased; otherwise the entry stays while the socket is closing, and no more is read from
it. -/

open Machinery

namespace Yunogram

namespace Mtproto

namespace WebSocket

/-- `kMaxLocalWebSocketPayload`. -/
def kMaxLocalWebSocketPayload : ℕ := 2 * 1024 * 1024

/-! ## Headers -/

/-- What the front of the received bytes says. -/
inductive FrameHeader
  | short
  | close (code : UInt16)
  | frame (fin : Bool) (opcode : UInt8) (header size : ℕ)
  deriving DecidableEq

/-- The size in a header: with the length of the header so far. -/
inductive FrameSize
  | short
  | close (code : UInt16)
  | size (header size : ℕ)
  deriving DecidableEq

/-- The three forms of a size; `rest` is what follows the first two bytes. -/
def readSize (size : UInt8) (rest : Bytes) : FrameSize :=
  if size = 126 then
    match rest with
    | d2 :: d3 :: _ =>
      let size := d2.toNat <<< 8 ||| d3.toNat
      if size < 126 then .close 1002 else .size 4 size
    | _ => .short
  else if size = 127 then
    match rest with
    | d2 :: d3 :: d4 :: d5 :: d6 :: d7 :: d8 :: d9 :: _ =>
      if d2 &&& 0x80 ≠ 0 then .close 1002
      else
        let size := ofBigEndian [d2, d3, d4, d5, d6, d7, d8, d9]
        if size ≤ 0xFFFF then .close 1002 else .size 10 size
    | _ => .short
  else .size 2 size.toNat

/-- The header of a frame, up to the check of its size. -/
def readHeader : Bytes → FrameHeader
  | d0 :: d1 :: rest =>
    let fin : Bool := d0 &&& 0x80 ≠ 0
    let opcode := d0 &&& 0x0F
    let masked : Bool := d1 &&& 0x80 ≠ 0
    if d0 &&& 0x70 ≠ 0 ∨ !masked then .close 1002
    else
      match readSize (d1 &&& 0x7F) rest with
      | .short => .short
      | .close code => .close code
      | .size header size =>
        let control : Bool := opcode &&& 0x08 ≠ 0
        if kMaxLocalWebSocketPayload < size ∨ control ∧ (!fin ∨ 125 < size) then .close 1009
        else .frame fin opcode header size
  | _ => .short

/-- The payload without its mask. -/
def unmask (mask payload : Bytes) : Bytes := payload.mapIdx fun i b => b ^^^ mask.getD (i % 4) 0

/-- `WebSocketFrame`. -/
def webSocketFrame (opcode : UInt8) (payload : Bytes) : Bytes :=
  let size := payload.length
  let length :=
    if size < 126 then [UInt8.ofNat size]
    else if size ≤ 0xFFFF then [126, UInt8.ofNat (size >>> 8), UInt8.ofNat size]
    else 127 :: bigEndian 8 size
  (0x80 ||| opcode) :: length ++ payload

/-! ## The client -/

/-- A message. -/
structure Message where
  opcode : UInt8
  payload : Bytes
  deriving DecidableEq

/-- `Client`, with its entry in `_clients` and its socket: `present` while there is an entry and
`connected` while the socket is.  `delivered` are the messages that were handed over, `written` the
frames that were given to the socket. -/
structure Client where
  present : Bool := true
  connected : Bool := true
  authenticated : Bool := false
  input : Bytes := []
  fragmented : Bytes := []
  fragmentedOpcode : UInt8 := 0
  delivered : List Message := []
  written : List Bytes := []

/-- What others do to a client: the flag they leave, what they write, and whether they disconnect
it, and at once. -/
structure Reaction where
  authenticated : Bool
  writes : List Bytes := []
  disconnects : Option Bool := none

/-- What follows a message, of all that were delivered, and whether the socket has nothing left to
write when the loop disconnects. -/
structure Host where
  handle : List Message → Reaction
  atOnce : Bool

/-- `disconnectFromHost`. -/
def Client.disconnectFromHost (s : Client) (atOnce : Bool) : Client :=
  { s with connected := false, present := s.present && !atOnce }

/-- `writeWebSocket`. -/
def Client.writeWebSocket (s : Client) (opcode : UInt8) (payload : Bytes) : Client :=
  { s with written := s.written ++ [webSocketFrame opcode payload] }

/-- `closeWebSocket`. -/
def Client.closeWebSocket (s : Client) (host : Host) (code : UInt16) : Client :=
  let payload := [UInt8.ofNat (code.toNat >>> 8), UInt8.ofNat code.toNat]
  (s.writeWebSocket 0x08 payload).disconnectFromHost host.atOnce

/-- A client after others were at work. -/
def Client.react (s : Client) (reaction : Reaction) : Client :=
  let written := s.written ++ reaction.writes
  let s := { s with authenticated := reaction.authenticated, written }
  match reaction.disconnects with
  | some atOnce => s.disconnectFromHost atOnce
  | none => s

/-- `processWebSocketMessage`. -/
def Client.processWebSocketMessage (s : Client) (host : Host) (opcode : UInt8) (payload : Bytes) :
    Client :=
  let delivered := s.delivered ++ [⟨opcode, payload⟩]
  { s with delivered }.react (host.handle delivered)

/-- How the loop goes on after a frame. -/
inductive Next
  | again (s : Client)
  | leave (s : Client)

/-- The loop of `processWebSocket`, behind the point where a frame was cut off. -/
def Client.processFrame (s : Client) (host : Host) (fin : Bool) (opcode : UInt8) (payload : Bytes) :
    Next :=
  if opcode = 0x08 then
    if payload.length = 1 then
      .leave (s.closeWebSocket host 1002)
    else
      .leave ((s.writeWebSocket 0x08 (payload.take 125)).disconnectFromHost host.atOnce)
  else if opcode = 0x09 then
    .again (if s.authenticated then s.writeWebSocket 0x0A payload else s)
  else if opcode = 0x0A then
    .again s
  else if opcode = 0x00 then
    if s.fragmentedOpcode = 0 then
      .leave (s.closeWebSocket host 1002)
    else
      let fragmented := s.fragmented ++ payload
      if kMaxLocalWebSocketPayload < fragmented.length then
        .leave ({ s with fragmented }.closeWebSocket host 1009)
      else if fin then
        .again ({ s with fragmented := [], fragmentedOpcode := 0 }.processWebSocketMessage host
          s.fragmentedOpcode fragmented)
      else
        .again { s with fragmented }
  else if opcode = 0x01 ∨ opcode = 0x02 then
    if s.fragmentedOpcode ≠ 0 then
      .leave (s.closeWebSocket host 1002)
    else if fin then
      .again (s.processWebSocketMessage host opcode payload)
    else
      .again { s with fragmentedOpcode := opcode, fragmented := payload }
  else
    .leave (s.closeWebSocket host 1002)

@[simp] theorem Client.input_react (s : Client) (reaction : Reaction) :
    (s.react reaction).input = s.input := by
  rw [react]
  cases reaction.disconnects <;> rfl

theorem Client.input_processFrame {s s' : Client} {host : Host} {fin : Bool} {opcode : UInt8}
    {payload : Bytes} (h : s.processFrame host fin opcode payload = .again s') :
    s'.input = s.input := by
  unfold processFrame at h
  dsimp only at h
  split_ifs at h <;> cases h <;> simp [processWebSocketMessage, writeWebSocket]

/-- `processWebSocket`. -/
def Client.processWebSocket (s : Client) (host : Host) : Client :=
  if s.present then
    match _h : readHeader s.input with
    | .short => s
    | .close code => s.closeWebSocket host code
    | .frame fin opcode header size =>
      let full := header + 4 + size
      if _hfull : s.input.length < full then s
      else
        let mask := slice s.input header 4
        let payload := unmask mask (slice s.input (header + 4) size)
        let s := { s with input := s.input.drop full }
        match _hnext : s.processFrame host fin opcode payload with
        | .again s' => s'.processWebSocket host
        | .leave s' => s'
  else s
termination_by s.input.length
decreasing_by
  rw [Client.input_processFrame _hnext, List.length_drop]
  omega

/-! ## What happens to a client -/

/-- The socket has something to read, or others are at work. -/
inductive Event
  | read (chunk : Bytes)
  | others (reaction : Reaction)

/-- `clientReadyRead`, once: nothing is read from a socket that is not connected. -/
def Client.clientReadyRead (s : Client) (host : Host) (chunk : Bytes) : Client :=
  if s.connected && s.present then
    { s with input := s.input ++ chunk }.processWebSocket host
  else s

/-- An event. -/
def Client.step (host : Host) (s : Client) : Event → Client
  | .read chunk => s.clientReadyRead host chunk
  | .others reaction => s.react reaction

/-- All bytes the browser sends in some events. -/
def Event.chunks (events : List Event) : Bytes :=
  events.flatMap fun
    | .read chunk => chunk
    | .others _ => []

/-! ## The loop, turn by turn -/

/-- What the loop comes to after a frame. -/
def Next.outcome (host : Host) : Next → Client
  | again s => s.processWebSocket host
  | leave s => s

variable {s s' : Client} {host : Host} {fin : Bool} {opcode : UInt8} {header size : ℕ}
  {code : UInt16}

theorem Client.processWebSocket_absent (h : s.present = false) : s.processWebSocket host = s := by
  rw [processWebSocket, h]
  rfl

theorem Client.processWebSocket_short (h : readHeader s.input = .short) :
    s.processWebSocket host = s := by
  rw [processWebSocket]
  split_ifs
  · split <;> simp_all
  · rfl

theorem Client.processWebSocket_close (hpresent : s.present = true)
    (h : readHeader s.input = .close code) :
    s.processWebSocket host = s.closeWebSocket host code := by
  rw [processWebSocket, if_pos hpresent]
  split <;> simp_all

theorem Client.processWebSocket_incomplete (h : readHeader s.input = .frame fin opcode header size)
    (hfull : s.input.length < header + 4 + size) : s.processWebSocket host = s := by
  rw [processWebSocket]
  split_ifs
  · split <;> simp_all
  · rfl

theorem Client.processWebSocket_frame (hpresent : s.present = true)
    (h : readHeader s.input = .frame fin opcode header size)
    (hfull : header + 4 + size ≤ s.input.length) : s.processWebSocket host =
      ({ s with input := s.input.drop (header + 4 + size) }.processFrame host fin opcode
        (unmask (slice s.input header 4) (slice s.input (header + 4) size))).outcome host := by
  rw [processWebSocket, if_pos hpresent]
  split
  · simp_all
  · simp_all
  · next fin' opcode' header' size' h' =>
    obtain ⟨rfl, rfl, rfl, rfl⟩ := FrameHeader.frame.inj (h.symm.trans h')
    rw [dif_neg (not_lt.mpr hfull)]
    dsimp only
    split <;> simp_all [Next.outcome]

theorem Client.clientReadyRead_closed {chunk : Bytes} (h : s.connected = false) :
    s.clientReadyRead host chunk = s := by
  rw [clientReadyRead, h]
  rfl

theorem Client.clientReadyRead_open {chunk : Bytes} (hconnected : s.connected = true)
    (hpresent : s.present = true) : s.clientReadyRead host chunk =
      { s with input := s.input ++ chunk }.processWebSocket host :=
  if_pos ((Bool.and_eq_true _ _).mpr ⟨hconnected, hpresent⟩)

/-! ## Headers and what arrives behind them -/

theorem readSize_append (size : UInt8) (b c : Bytes) (h : readSize size b ≠ .short) :
    readSize size (b ++ c) = readSize size b := by
  unfold readSize at h ⊢
  split_ifs with h126 h127
  · rw [if_pos h126] at h
    match b, h with
    | d2 :: d3 :: rest, _ => rfl
    | [], h => exact absurd rfl h
    | [_], h => exact absurd rfl h
  · rw [if_neg h126, if_pos h127] at h
    match b, h with
    | d2 :: d3 :: d4 :: d5 :: d6 :: d7 :: d8 :: d9 :: rest, _ => rfl
    | [], h => exact absurd rfl h
    | [_], h => exact absurd rfl h
    | [_, _], h => exact absurd rfl h
    | [_, _, _], h => exact absurd rfl h
    | [_, _, _, _], h => exact absurd rfl h
    | [_, _, _, _, _], h => exact absurd rfl h
    | [_, _, _, _, _, _], h => exact absurd rfl h
    | [_, _, _, _, _, _, _], h => exact absurd rfl h
  · rfl

/-- **A header that was read does not change when more arrives.** -/
theorem readHeader_append (b c : Bytes) (h : readHeader b ≠ .short) :
    readHeader (b ++ c) = readHeader b := by
  match b, h with
  | d0 :: d1 :: rest, h =>
    rw [List.cons_append, List.cons_append, readHeader, readHeader]
    rw [readHeader] at h
    dsimp only at h ⊢
    split_ifs at h ⊢ with hbits
    · rfl
    · have hsize : readSize (d1 &&& 0x7F) rest ≠ .short := fun hshort => by
        rw [hshort] at h
        exact h rfl
      rw [readSize_append _ rest c hsize]
  | [], h => exact absurd rfl h
  | [_], h => exact absurd rfl h

end WebSocket

end Mtproto

end Yunogram
