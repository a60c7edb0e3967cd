import Yunogram.Mtproto.TcpProtocol

/-!
# Mtproto/TcpConnection — reading packets off a socket through two buffers

`TcpConnection::socketRead` and `ensureAvailableInBuffer` of `mtproto/connection_tcp.cpp`.  Bytes are
read into a small buffer at `_offsetBytes + _readBytes`, decrypted in place and cut into packets.  A
packet that does not fit behind the ones before it moves to the front of the small buffer, or to a
large buffer of its size; the connection then reads exactly the `_leftBytes` that are missing.

While packets are cut off, the source keeps a view `available` into the buffer, also across a move of
the bytes to the front: the view is a position and a length here and is read where the source reads
it.  Every span operation and every assertion of the source is checked (`Except Fault`).

The socket gives at most as many bytes as are asked for.  It is gone for good when `socketPacket`
made its owner drop it; an error makes the owner destroy the connection.
-/

open Machinery

namespace Yunogram

namespace Mtproto

/-- `kSmallBufferSize`. -/
def kSmallBufferSize : ℕ := 256 * 1024

/-- `kMinPacketBuffer`. -/
def kMinPacketBuffer : ℕ := 256

/-- What surrounds a connection: its protocol, the key stream of `aesCtrEncrypt` under the receive
key, and whether the socket is still connected after `socketPacket` was given these packets. -/
structure TcpPeer where
  protocol : Protocol
  keystream : ℕ → UInt8
  keeps : List Bytes → Bool

/-- Whether a connection goes on reading. -/
inductive TcpStatus
  | reading
  | failed
  | closed
  deriving DecidableEq

/-- `TcpConnection`, the state of its reading side; `packets` are those given to `socketPacket`. -/
structure TcpConnection where
  offsetBytes : ℕ := 0
  readBytes : ℕ := 0
  leftBytes : ℕ := 0
  smallBuffer : Bytes := []
  largeBuffer : Bytes := []
  usingLargeBuffer : Bool := false
  receiveState : ℕ := 0
  packets : List Bytes := []
  status : TcpStatus := .reading

namespace TcpConnection

/-- The buffer in use. -/
def buffer (s : TcpConnection) : Bytes :=
  if s.usingLargeBuffer then s.largeBuffer else s.smallBuffer

/-- The state with other bytes in one of the buffers. -/
def setBuffer (s : TcpConnection) (large : Bool) (bytes : Bytes) : TcpConnection :=
  if large then { s with largeBuffer := bytes } else { s with smallBuffer := bytes }

/-- `aesCtrEncrypt`: counter mode is the exclusive or with a key stream. -/
def decrypt (keystream : ℕ → UInt8) (position : ℕ) : Bytes → Bytes
  | [] => []
  | b :: bytes => (b ^^^ keystream position) :: decrypt keystream (position + 1) bytes

/-- `ensureAvailableInBuffer`. -/
def ensureAvailableInBuffer (s : TcpConnection) (amount : ℕ) : Except Fault TcpConnection := do
  let full ← subspan s.buffer s.offsetBytes (s.buffer.length - s.offsetBytes)
  if amount ≤ full.length then
    return s
  let read ← subspan full 0 s.readBytes
  if amount ≤ s.smallBuffer.length then
    let smallBuffer ← copy s.smallBuffer read
    if s.usingLargeBuffer then
      return { s with smallBuffer, usingLargeBuffer := false, largeBuffer := [], offsetBytes := 0 }
    return { s with smallBuffer, offsetBytes := 0 }
  else if amount ≤ s.largeBuffer.length then
    expects s.usingLargeBuffer
    let largeBuffer ← copy s.largeBuffer read
    return { s with largeBuffer, offsetBytes := 0 }
  else
    let enough ← copy (List.replicate amount 0) read
    return { s with largeBuffer := enough, usingLargeBuffer := true, offsetBytes := 0 }

/-- `socketPacket`, as far as the reading goes on after it. -/
def socketPacket (s : TcpConnection) (peer : TcpPeer) (bytes : Bytes) : TcpConnection :=
  let packets := s.packets ++ [bytes]
  if peer.keeps packets then { s with packets } else { s with packets, status := .closed }

/-- The loop of `socketRead` that cuts packets off the view `available`, which is the `size` bytes
from `pos` of the buffer that was in use. -/
def cutPackets (s : TcpConnection) (peer : TcpPeer) (large : Bool) (pos size : ℕ) :
    Except Fault TcpConnection := do
  if s.readBytes = 0 then
    return s
  let available ← subspan (if large then s.largeBuffer else s.smallBuffer) pos size
  let packetSize := peer.protocol.readPacketLength available
  if packetSize = Protocol.kUnknownSize then
    -- Not enough bytes yet.
    return s
  else if _h : packetSize ≤ 0 then
    return { s with status := .failed }
  else if _h' : packetSize ≤ size then
    let s : TcpConnection := s.socketPacket peer (available.take packetSize.toNat)
    if s.status = .closed then
      return s
    let s : TcpConnection := { s with
      offsetBytes := s.offsetBytes + packetSize.toNat
      readBytes := s.readBytes - packetSize.toNat }
    -- If we have too little space left in the buffer.
    let s ← s.ensureAvailableInBuffer kMinPacketBuffer
    s.cutPackets peer large (pos + packetSize.toNat) (size - packetSize.toNat)
  else
    let s : TcpConnection := { s with leftBytes := packetSize.toNat - size }
    -- If the next packet won't fit in the buffer.
    s.ensureAvailableInBuffer packetSize.toNat
termination_by size
decreasing_by omega

/-- How much `socketRead` asks the socket for. -/
def readLimit (s : TcpConnection) : ℕ :=
  if 0 < s.leftBytes then s.leftBytes else kSmallBufferSize - s.offsetBytes - s.readBytes

/-- The bytes of a read, decrypted behind those that were there. -/
def written (s : TcpConnection) (peer : TcpPeer) (bytes : Bytes) : TcpConnection :=
  { s.setBuffer s.usingLargeBuffer (overwrite s.buffer (s.offsetBytes + s.readBytes)
      (decrypt peer.keystream s.receiveState bytes)) with
    receiveState := s.receiveState + bytes.length
    readBytes := s.readBytes + bytes.length }

/-- The state after the packet that was waited for. -/
def emptied (s : TcpConnection) : TcpConnection :=
  { s with usingLargeBuffer := false, largeBuffer := [], offsetBytes := 0, readBytes := 0 }

/-- What `socketRead` does with bytes it read. -/
def takeBytes (s : TcpConnection) (peer : TcpPeer) (bytes : Bytes) : Except Fault TcpConnection := do
  let large := s.usingLargeBuffer
  let s : TcpConnection := s.written peer bytes
  if 0 < s.leftBytes then
    expects (bytes.length ≤ s.leftBytes)
    let s : TcpConnection := { s with leftBytes := s.leftBytes - bytes.length }
    if s.leftBytes = 0 then
      let packet ← subspan s.buffer s.offsetBytes s.readBytes
      let s : TcpConnection := s.socketPacket peer packet
      if s.status = .closed then
        return s
      return s.emptied
    return s
  else
    s.cutPackets peer large s.offsetBytes s.readBytes

/-- One round of the loop of `socketRead`: the socket has `stream` to give, and `arrived` of it
already came. -/
def readOnce (s : TcpConnection) (peer : TcpPeer) (stream : Bytes) (arrived : ℕ) :
    Except Fault (TcpConnection × Bytes) := do
  expects (0 < s.readLimit)
  let full ← subspan s.buffer s.offsetBytes (s.buffer.length - s.offsetBytes)
  let free ← subspan full s.readBytes (full.length - s.readBytes)
  let _ ← subspan free 0 s.readLimit
  let readCount := min arrived (min s.readLimit stream.length)
  if readCount = 0 then
    return (s, stream)
  let s ← s.takeBytes peer (stream.take readCount)
  return (s, stream.drop readCount)

/-- The loop of `socketRead`; it goes on while bytes were read and the socket is connected. -/
def readAll (s : TcpConnection) (peer : TcpPeer) (stream : Bytes) :
    List ℕ → Except Fault (TcpConnection × Bytes)
  | [] => return (s, stream)
  | arrived :: rest => do
    let (s, left) ← s.readOnce peer stream arrived
    if left.length < stream.length ∧ s.status = .reading then s.readAll peer left rest
    else return (s, left)

/-- The state with a small buffer to read into. -/
def prepared (s : TcpConnection) : TcpConnection :=
  if s.smallBuffer.isEmpty then { s with smallBuffer := List.replicate kSmallBufferSize 0 } else s

/-- `socketRead`. -/
def socketRead (s : TcpConnection) (peer : TcpPeer) (stream : Bytes) (arrivals : List ℕ) :
    Except Fault (TcpConnection × Bytes) := do
  expects (0 < s.leftBytes ∨ s.usingLargeBuffer = false)
  s.prepared.readAll peer stream arrivals

/-- The calls of `socketRead` that the socket makes while the connection is there. -/
def socketReads (s : TcpConnection) (peer : TcpPeer) (stream : Bytes) :
    List (List ℕ) → Except Fault (TcpConnection × Bytes)
  | [] => return (s, stream)
  | arrivals :: rest => do
    let (s, stream) ← s.socketRead peer stream arrivals
    if s.status = .reading then s.socketReads peer stream rest else return (s, stream)

end TcpConnection

end Mtproto

end Yunogram
