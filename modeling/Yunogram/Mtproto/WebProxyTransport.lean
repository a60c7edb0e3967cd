import Yunogram.Machinery.FlatMap
import Yunogram.Mtproto.WebProxyFrame

/-!
# Mtproto/WebProxyTransport — streams over one carrier

`Transport` of `mtproto/web_proxy/web_proxy_transport.cpp` with its `Private`: streams are
multiplexed over a browser socket or a web view, with a send and a receive window for each, a queue
of control frames in front of the data, and counters of what is accepted and not written yet.

Other threads call into it through a queue of calls, and reserve what is pending in two steps that
interleave with everything else.  `written` are the frames that the carrier has got since streams
were last dropped, and `log` is what happens to streams; neither is read.  The clock is left out:
what waits for a time may happen at any.  So are the clients that are not the browser, the token
they show, and what is published of the state.
-/

open Machinery

namespace Yunogram

namespace Mtproto

namespace WebProxy

/-! ## Limits -/

/-- `kInitialStreamWindow`. -/
def kInitialStreamWindow : ℕ := 4 * 1024 * 1024

/-- `kMaxPendingStreamBytes`. -/
def kMaxPendingStreamBytes : ℤ := 8 * 1024 * 1024

/-- `kMaxPendingStreamItems`. -/
def kMaxPendingStreamItems : ℕ := 1024

/-- `kMaxPendingTransportBytes`. -/
def kMaxPendingTransportBytes : ℤ := 64 * 1024 * 1024

/-- `kMaxPendingTransportItems`. -/
def kMaxPendingTransportItems : ℤ := 8192

/-- `kMaxLocalSocketPendingBytes`. -/
def kMaxLocalSocketPendingBytes : ℤ := 4 * 1024 * 1024

/-- `kLocalSocketControlReserve`. -/
def kLocalSocketControlReserve : ℤ := 64 * 1024

/-- `kMaxPendingControlBytes`. -/
def kMaxPendingControlBytes : ℤ := 64 * 1024

/-- `kMaxPendingControlFrames`. -/
def kMaxPendingControlFrames : ℕ := 1024

/-- `kMaxFlushFramesPerTurn`. -/
def kMaxFlushFramesPerTurn : ℕ := 256

/-- `kDataFrameSize`. -/
def kDataFrameSize : ℕ := 64 * 1024

/-- `kMaxClosedStreamIds`. -/
def kMaxClosedStreamIds : ℕ := 4096

/-- `kMaxWebviewPendingItems`. -/
def kMaxWebviewPendingItems : ℤ := 512

/-- `kWebviewItemsControlReserve`. -/
def kWebviewItemsControlReserve : ℤ := 64

/-- `kWindowFlushBytes`. -/
def kWindowFlushBytes : ℕ := 256 * 1024

/-- `std::numeric_limits<uint32>::max()`. -/
def uint32Max : ℕ := 2 ^ 32 - 1

/-! ## Data -/

/-- `WindowPayload`. -/
def windowPayload (amount : ℕ) : Bytes :=
  [UInt8.ofNat (amount >>> 24), UInt8.ofNat (amount >>> 16), UInt8.ofNat (amount >>> 8),
    UInt8.ofNat amount]

/-- `ReadWindow`. -/
def readWindow (payload : Bytes) : ℕ := ofBigEndian payload

/-- `WebSocketHeaderSize`. -/
def webSocketHeaderSize (payloadSize : ℕ) : ℕ :=
  if payloadSize < 126 then 2 else if payloadSize ≤ 0xFFFF then 4 else 10

/-- The size of the bytes of a frame. -/
def Frame.size (frame : Frame) : ℕ := kFrameHeaderSize + frame.payload.length

/-- `Transport::Private::Stream::Pending`. -/
structure Pending where
  data : Bytes
  offset : ℕ := 0

/-- `Transport::Private::Stream`, without its handlers. -/
structure Stream where
  pending : List Pending := []
  sendWindow : ℕ := kInitialStreamWindow
  receiveWindow : ℕ := kInitialStreamWindow
  pendingWindow : ℕ := 0
  pendingBytes : ℤ := 0
  opened : Bool := false

/-- Whether `sendData` appends to what is pending last. -/
def Stream.coalesces (stream : Stream) (data : Bytes) : Bool :=
  match stream.pending.getLast? with
  | some back =>
    decide (back.offset = 0) && decide (back.data.length + data.length ≤ kDataFrameSize)
  | none => false

/-- `stream.pending.back().data.append(data)`. -/
def appendLast : List Pending → Bytes → List Pending
  | [], _ => []
  | [back], data => [{ back with data := back.data ++ data }]
  | item :: rest, data => item :: appendLast rest data

/-- What `sendData` adds to what is pending. -/
def Stream.push (stream : Stream) (data : Bytes) : Stream :=
  { stream with
    pendingBytes := stream.pendingBytes + data.length
    pending :=
      if stream.coalesces data then appendLast stream.pending data
      else stream.pending ++ [⟨data, 0⟩] }

/-- What `flushStream` takes from what is pending first. -/
def Stream.pop (stream : Stream) (front : Pending) (rest : List Pending) (take : ℕ) : Stream :=
  { stream with
    pending :=
      if front.offset + take = front.data.length then rest
      else { front with offset := front.offset + take } :: rest
    pendingBytes := stream.pendingBytes - take
    sendWindow := stream.sendWindow - take }

/-- `Transport::State`. -/
inductive TransportState
  | idle | connecting | waitingForBrowser | connected | failed
  deriving DecidableEq

/-- What happens to streams: calls, frames of both sides, and what the handlers are told. -/
inductive Entry
  | registered (streamId : ℕ)
  | refused (streamId : ℕ)
  | accepted (streamId : ℕ) (data : Bytes)
  | issued (frame : Frame)
  | credited (streamId amount : ℕ)
  | granted (streamId amount : ℕ)
  | connected (streamId : ℕ)
  | received (streamId : ℕ) (data : Bytes)
  | closed (streamId : ℕ)
  | disconnected (streamId : ℕ)
  | failed (streamId : ℕ)
  | dropped

/-- A call that is queued for the thread of the transport, or is about to be. -/
inductive Call
  | registerStream (streamId : ℕ)
  | closeStream (streamId : ℕ)
  | failStream (streamId : ℕ)
  | sendData (streamId : ℕ) (data : Bytes)
  | grantWindow (streamId amount : ℕ)
  | webviewStarting (generation : ℕ)
  | webviewReady (generation : ℕ)
  | webviewPayload (generation : ℕ) (payload : Bytes)
  | webviewWritten (generation : ℕ) (bytes : ℤ)
  | webviewFailed (generation : ℕ)
  | webviewUnavailable
  | protocolError
  | socketError (socket : ℕ)

/-- The bytes a call reserves. -/
def Call.bytes : Call → ℤ
  | .sendData _ data => data.length
  | .webviewPayload _ payload => payload.length
  | _ => 0

/-- The items a call reserves. -/
def Call.items : Call → ℤ
  | .sendData _ _ | .webviewPayload _ _ => 1
  | _ => 0

/-- `QTcpSocket` of the browser: which one it is, and the bytes it is still to write. -/
structure BrowserSocket where
  number : ℕ
  bytesToWrite : ℤ

/-- `Transport` and `Transport::Private`; `reserving` are calls that have got an item so far. -/
structure Transport where
  streams : FlatMap ℕ Stream := .empty
  readyStreams : List ℕ := []
  readySet : Finset ℕ := ∅
  closedStreams : Finset ℕ := ∅
  closedStreamOrder : List ℕ := []
  controlFrames : List Frame := []
  controlBytes : ℤ := 0
  browserSocket : Option BrowserSocket := none
  sockets : ℕ := 0
  proxy : Bool := false
  state : TransportState := .idle
  webviewCandidateGeneration : ℕ := 0
  webviewGeneration : ℕ := 0
  webviewPendingBytes : ℤ := 0
  webviewPendingItems : ℤ := 0
  welcomed : Bool := false
  browserWriteFailed : Bool := false
  pendingBytes : ℤ := 0
  pendingItems : ℤ := 0
  asserted : Bool := false
  reserving : List Call := []
  queue : List Call := []
  written : List Frame := []
  log : List Entry := []

namespace Transport

/-- One more entry of the log. -/
def note (t : Transport) (entry : Entry) : Transport := { t with log := t.log ++ [entry] }

/-! ## Counters -/

/-- A call is queued. -/
def post (t : Transport) (call : Call) : Transport := { t with queue := t.queue ++ [call] }

/-- `Transport::releasePending`; an assertion that fails is kept. -/
def releasePending (t : Transport) (bytes items : ℤ) : Transport :=
  { t with
    pendingBytes := t.pendingBytes - bytes
    pendingItems := t.pendingItems - items
    asserted := t.asserted || decide (bytes < 0 ∨ items < 0)
      || decide (bytes ≠ 0 ∧ t.pendingBytes < bytes)
      || decide (items ≠ 0 ∧ t.pendingItems < items) }

/-- `Transport::Private::releasePending`, of a stream that is removed. -/
def releaseStream (t : Transport) (stream : Stream) : Transport :=
  t.releasePending stream.pendingBytes stream.pending.length

/-! ## The carrier -/

/-- `carrierAvailable`. -/
def carrierAvailable (t : Transport) : Bool :=
  decide (t.webviewGeneration ≠ 0) || t.browserSocket.isSome

/-- `carrierPendingBytes`. -/
def carrierPendingBytes (t : Transport) : ℤ :=
  if t.webviewGeneration ≠ 0 then t.webviewPendingBytes
  else (t.browserSocket.map BrowserSocket.bytesToWrite).getD 0

/-- `carrierPendingItems`. -/
def carrierPendingItems (t : Transport) : ℤ :=
  if t.webviewGeneration ≠ 0 then t.webviewPendingItems else 0

/-- `carrierFrameSize`. -/
def carrierFrameSize (t : Transport) (payloadSize : ℕ) : ℕ :=
  payloadSize + if t.webviewGeneration ≠ 0 then 0 else webSocketHeaderSize payloadSize

/-- `carrierAccepts`. -/
def carrierAccepts (t : Transport) (frameSize : ℕ) (control : Bool) : Bool :=
  let bytesLimit :=
    if control then kMaxLocalSocketPendingBytes
    else kMaxLocalSocketPendingBytes - kLocalSocketControlReserve
  let itemsLimit :=
    if control then kMaxWebviewPendingItems
    else kMaxWebviewPendingItems - kWebviewItemsControlReserve
  decide (t.carrierPendingBytes ≤ bytesLimit - t.carrierFrameSize frameSize)
    && decide (t.carrierPendingItems < itemsLimit)

/-- `writeCarrierFrame`. -/
def writeCarrierFrame (t : Transport) (frame : Frame) : Transport :=
  if t.webviewGeneration ≠ 0 then { t with
    webviewPendingBytes := t.webviewPendingBytes + frame.size
    webviewPendingItems := t.webviewPendingItems + 1
    written := t.written ++ [frame] }
  else
    match t.browserSocket with
    | some socket => { t with
      browserSocket := some { socket with
        bytesToWrite := socket.bytesToWrite + (webSocketHeaderSize frame.size + frame.size) }
      written := t.written ++ [frame] }
    | none => t

/-! ## Control frames -/

/-- `queueControlFrame`. -/
def queueControlFrame (t : Transport) (frame : Frame) : Transport :=
  if !t.carrierAvailable || t.browserWriteFailed then t
  else if t.controlFrames.isEmpty && t.carrierAccepts frame.size true then
    (t.note (.issued frame)).writeCarrierFrame frame
  else if frame.size > kMaxPendingControlBytes
      ∨ t.controlFrames.length ≥ kMaxPendingControlFrames
      ∨ t.controlBytes > kMaxPendingControlBytes - frame.size then
    { t with browserWriteFailed := true }.post .protocolError
  else { t.note (.issued frame) with
    controlBytes := t.controlBytes + frame.size
    controlFrames := t.controlFrames ++ [frame] }

/-- `sendFrame`. -/
def sendFrame (t : Transport) (type : FrameType) (streamId : ℕ) (payload : Bytes := []) :
    Transport :=
  if !t.carrierAvailable then t
  else t.queueControlFrame { type, streamId, payload }

/-- The loop of `flushControlFrames`, over the frames there are. -/
def flushControlLoop : List Frame → Transport → Transport
  | [], t => t
  | frame :: rest, t =>
    if !t.carrierAvailable then t
    else if !t.carrierAccepts frame.size true then t
    else flushControlLoop rest { t.writeCarrierFrame frame with
      controlBytes := t.controlBytes - frame.size
      controlFrames := rest }

/-- `flushControlFrames`. -/
def flushControlFrames (t : Transport) : Transport := flushControlLoop t.controlFrames t

/-! ## Streams that are ready -/

/-- `markStreamReady`. -/
def markStreamReady (t : Transport) (streamId : ℕ) : Transport :=
  match t.streams.find? streamId with
  | none => t
  | some stream =>
    if !stream.opened || stream.sendWindow == 0 || stream.pending.isEmpty
        || decide (streamId ∈ t.readySet) then t
    else { t with
      readySet := insert streamId t.readySet
      readyStreams := t.readyStreams ++ [streamId] }

/-- `unmarkStreamReady`. -/
def unmarkStreamReady (t : Transport) (streamId : ℕ) : Transport :=
  { t with readySet := t.readySet.erase streamId }

/-- The bytes that are left for data in what the socket is to write. -/
def localAllowance (t : Transport) : ℤ :=
  kMaxLocalSocketPendingBytes - kLocalSocketControlReserve - t.carrierPendingBytes

/-- `take` of `flushStream`. -/
def flushTake (t : Transport) (stream : Stream) (front : Pending) : ℕ :=
  min (min stream.sendWindow (front.data.length - front.offset))
    (min kDataFrameSize (t.localAllowance - kFrameHeaderSize - 10).toNat)

/-- `flushStream`, of so many bytes of what is pending first. -/
def sendPending (t : Transport) (streamId : ℕ) (stream : Stream) (front : Pending)
    (rest : List Pending) (take : ℕ) : Transport :=
  let frame : Frame := ⟨.data, streamId, slice front.data front.offset take⟩
  let t := (t.note (.issued frame)).writeCarrierFrame frame
  let itemDone := front.offset + take = front.data.length
  { t with streams := t.streams.assign streamId (stream.pop front rest take) }.releasePending take
    (if itemDone then 1 else 0)

/-- `flushStream`. -/
def flushStream (t : Transport) (streamId : ℕ) : Transport :=
  match t.streams.find? streamId with
  | none => t
  | some stream =>
    if !stream.opened || !t.carrierAvailable then t
    else
      match stream.pending with
      | [] => t
      | front :: rest =>
        if stream.sendWindow == 0 || t.browserWriteFailed then t
        else if t.localAllowance ≤ kFrameHeaderSize + 10
            ∨ t.carrierAccepts (kFrameHeaderSize + 1) false = false then t
        else t.sendPending streamId stream front rest (t.flushTake stream front)

/-- The loop of `flushStreams`, for so many more turns. -/
def flushLoop : ℕ → Transport → Transport
  | 0, t => t
  | turns + 1, t =>
    if !t.carrierAccepts (kFrameHeaderSize + 1) false then t
    else
      match t.readyStreams.dropWhile (fun streamId => decide (streamId ∉ t.readySet)) with
      | [] => { t with readyStreams := [] }
      | streamId :: rest =>
        let t := { t with readyStreams := rest, readySet := t.readySet.erase streamId }
        flushLoop turns ((t.flushStream streamId).markStreamReady streamId)

/-- `flushStreams`. -/
def flushStreams (t : Transport) : Transport :=
  if !t.carrierAvailable || t.browserWriteFailed then t
  else
    let t := t.flushControlFrames
    if !t.controlFrames.isEmpty then t else flushLoop kMaxFlushFramesPerTurn t

/-! ## Closing -/

/-- `setState`. -/
def setState (t : Transport) (state : TransportState) : Transport := { t with state }

/-- `rememberClosedStream`. -/
def rememberClosedStream (t : Transport) (streamId : ℕ) : Transport :=
  if streamId ∈ t.closedStreams then t
  else
    let closedStreams := insert streamId t.closedStreams
    let closedStreamOrder := t.closedStreamOrder ++ [streamId]
    if closedStreamOrder.length > kMaxClosedStreamIds then { t with
      closedStreams := closedStreams.erase (closedStreamOrder.headD 0)
      closedStreamOrder := closedStreamOrder.tail }
    else { t with closedStreams, closedStreamOrder }

/-- A stream is taken out. -/
def removeStream (t : Transport) (streamId : ℕ) (stream : Stream) : Transport :=
  ({ t with streams := t.streams.erase streamId }.unmarkStreamReady streamId).releaseStream stream

/-- What `closeStream`, `failStream` and `sendData` do to a stream that is open. -/
def sendClose (t : Transport) (streamId : ℕ) (stream : Stream) : Transport :=
  if stream.opened then (t.sendFrame .close streamId).rememberClosedStream streamId else t

/-- `closeStream`. -/
def closeStream (t : Transport) (streamId : ℕ) : Transport :=
  match t.streams.find? streamId with
  | none => t
  | some stream =>
    ((t.sendClose streamId stream).removeStream streamId stream).note (.closed streamId)

/-- `failStream`. -/
def failStream (t : Transport) (streamId : ℕ) : Transport :=
  match t.streams.find? streamId with
  | none => t
  | some stream =>
    ((t.sendClose streamId stream).removeStream streamId stream).note (.failed streamId)

/-- `closeAllStreams`. -/
def closeAllStreams (t : Transport) (failed : Bool) : Transport :=
  t.streams.entries.foldl
    (fun t (streamId, stream) => (t.releaseStream stream).note
      (if failed then .failed streamId else .disconnected streamId))
    { t with streams := .empty, readyStreams := [], readySet := ∅ }

/-- Streams are dropped, and with them the control frames. -/
def dropControl (t : Transport) : Transport :=
  { t with controlFrames := [], controlBytes := 0, written := [] }.note .dropped

/-- What is forgotten when streams are dropped. -/
def forgetFrames (t : Transport) : Transport :=
  { t.dropControl with
    readyStreams := []
    readySet := ∅
    closedStreams := ∅
    closedStreamOrder := [] }

/-- `webviewFailed`, of the web view that is the carrier. -/
def dropWebview (t : Transport) : Transport :=
  let t := { t with
    webviewGeneration := 0
    webviewPendingBytes := 0
    webviewPendingItems := 0
    welcomed := false }
  { (t.closeAllStreams false).forgetFrames with browserWriteFailed := false }

/-- `webviewFailed`. -/
def webviewFailed (t : Transport) (generation : ℕ) : Transport :=
  let candidate := decide (t.webviewCandidateGeneration = generation)
  let active := decide (t.webviewGeneration = generation)
  if !candidate && !active then t
  else
    let t := if candidate then { t with webviewCandidateGeneration := 0 } else t
    let t := if active then t.dropWebview else t
    if t.browserSocket.isNone && decide (t.state ≠ .waitingForBrowser) then
      t.setState .connecting
    else t

/-- `loseBrowser`. -/
def loseBrowser (t : Transport) (failed : Bool) : Transport :=
  ({ t with welcomed := false }.closeAllStreams failed).forgetFrames.setState
    (if t.webviewCandidateGeneration ≠ 0 then .connecting
    else if failed then .failed
    else .waitingForBrowser)

/-- `clientDisconnected`, of the browser. -/
def browserDisconnected (t : Transport) : Transport :=
  if t.browserSocket.isNone then t
  else { t with browserSocket := none, browserWriteFailed := false }.loseBrowser
    (decide (t.state = TransportState.failed))

/-- `writeWebSocket`, to the browser, of a frame of that size that is not one of the relay. -/
def writeWebSocket (t : Transport) (size : ℕ) : Transport :=
  match t.browserSocket with
  | none => t
  | some socket =>
    if t.browserWriteFailed then t
    else if size > kMaxLocalSocketPendingBytes
        ∨ socket.bytesToWrite > kMaxLocalSocketPendingBytes - size then
      { t with browserWriteFailed := true }.post (.socketError socket.number)
    else { t with
      browserSocket := some { socket with bytesToWrite := socket.bytesToWrite + size } }

/-- `closeWebSocket`, of the browser: with nothing to write, a socket disconnects at once. -/
def closeWebSocket (t : Transport) : Transport :=
  let t := t.writeWebSocket 4
  if t.browserSocket.any fun socket => socket.bytesToWrite = 0 then t.browserDisconnected else t

/-- `protocolError`. -/
def protocolError (t : Transport) : Transport :=
  if t.webviewGeneration ≠ 0 then (t.closeAllStreams true).webviewFailed t.webviewGeneration
  else
    let t := (t.closeAllStreams true).forgetFrames
    (Transport.setState { t with welcomed := false } .failed).closeWebSocket

/-! ## Streams -/

/-- A stream is opened. -/
def openStream (t : Transport) (streamId : ℕ) (stream : Stream) : Transport :=
  ({ t with streams := t.streams.assign streamId { stream with opened := true } }.sendFrame .open
    streamId).note (.connected streamId)

/-- `registerStream`. -/
def registerStream (t : Transport) (streamId : ℕ) : Transport :=
  if !t.proxy || t.streams.contains streamId || decide (streamId ∈ t.closedStreams) then
    t.note (.refused streamId)
  else
    let t := { t with streams := t.streams.emplace streamId {} }.note (.registered streamId)
    if t.welcomed then t.openStream streamId {} else t

/-- `sendData`. -/
def sendData (t : Transport) (streamId : ℕ) (data : Bytes) : Transport :=
  match t.streams.find? streamId with
  | none => t.releasePending data.length (if data.isEmpty then 0 else 1)
  | some stream =>
    if data.isEmpty then t.releasePending data.length 0
    else
      let coalesce := stream.coalesces data
      if stream.pendingBytes + data.length > kMaxPendingStreamBytes
          ∨ (coalesce = false ∧ stream.pending.length ≥ kMaxPendingStreamItems) then
        (((t.releasePending data.length 1).sendClose streamId stream).removeStream streamId
          stream).note (.failed streamId)
      else
        let t := { t with streams := t.streams.assign streamId (stream.push data) }.note
          (.accepted streamId data)
        let t := if coalesce then t.releasePending 0 1 else t
        (t.markStreamReady streamId).flushStreams

/-- `grantWindow`. -/
def grantWindow (t : Transport) (streamId amount : ℕ) : Transport :=
  match t.streams.find? streamId with
  | none => t
  | some stream =>
    if !stream.opened || amount == 0 then t
    else if amount > kInitialStreamWindow - stream.receiveWindow then t.protocolError
    else
      let pending := stream.pendingWindow + amount
      let flushes := pending ≥ kWindowFlushBytes
      let stream := { stream with
        receiveWindow := stream.receiveWindow + amount
        pendingWindow := if flushes then 0 else pending }
      let t := { t with streams := t.streams.assign streamId stream }.note
        (.granted streamId amount)
      if flushes then t.sendFrame .window streamId (windowPayload pending) else t

/-- A step of the loop of `flushWindows`. -/
def flushWindow (t : Transport) (streamId : ℕ) (stream : Stream) : Transport :=
  if stream.opened && stream.pendingWindow != 0 then
    { t with streams := t.streams.assign streamId { stream with pendingWindow := 0 } }.sendFrame
      .window streamId (windowPayload stream.pendingWindow)
  else t

/-- `flushWindows`. -/
def flushWindows (t : Transport) : Transport :=
  t.streams.entries.foldl (fun t (streamId, stream) => t.flushWindow streamId stream) t

/-- `welcome`. -/
def welcome (t : Transport) : Transport :=
  if t.welcomed || !t.carrierAvailable then t.protocolError
  else
    let t := { t with welcomed := true }.setState .connected
    (t.streams.entries.foldl (fun t (streamId, stream) =>
      (t.openStream streamId stream).markStreamReady streamId) t).flushStreams

/-! ## Frames of the relay -/

/-- `processRelayFrame`, of a frame without a stream. -/
def processTransportFrame (t : Transport) (frame : Frame) : Bool × Transport :=
  match frame.type with
  | .welcome => if t.welcomed || !frame.payload.isEmpty then (false, t) else (true, t.welcome)
  | .ping =>
    if frame.payload.length > 64 then (false, t) else (true, t.sendFrame .pong 0 frame.payload)
  | .bye =>
    let lost :=
      if t.webviewGeneration ≠ 0 then t.webviewFailed t.webviewGeneration else t.loseBrowser true
    (true, lost.closeWebSocket)
  | _ => (false, t)

/-- `processRelayFrame`, of a frame for a stream that is closed. -/
def acceptsClosed (frame : Frame) : Bool :=
  match frame.type with
  | .data => !frame.payload.isEmpty
  | .window => decide (frame.payload.length = 4) && decide (readWindow frame.payload ≠ 0)
  | .close => frame.payload.isEmpty
  | _ => false

/-- `processRelayFrame`, of a frame for a stream that is open. -/
def processStreamFrame (t : Transport) (frame : Frame) (stream : Stream) : Bool × Transport :=
  match frame.type with
  | .data =>
    if frame.payload.isEmpty || decide (frame.payload.length > stream.receiveWindow) then (false, t)
    else
      let stream := { stream with receiveWindow := stream.receiveWindow - frame.payload.length }
      (true, { t with streams := t.streams.assign frame.streamId stream }.note
        (.received frame.streamId frame.payload))
  | .window =>
    if frame.payload.length ≠ 4 ∨ readWindow frame.payload = 0 then (false, t)
    else
      let amount := readWindow frame.payload
      let stream := { stream with sendWindow := min (stream.sendWindow + amount) uint32Max }
      (true, ((({ t with streams := t.streams.assign frame.streamId stream }.note
        (.credited frame.streamId amount)).markStreamReady frame.streamId).flushStreams))
  | .close =>
    if !frame.payload.isEmpty then (false, t)
    else (true, ((t.rememberClosedStream frame.streamId).removeStream frame.streamId stream).note
      (.disconnected frame.streamId))
  | _ => (false, t)

/-- `processRelayFrame`. -/
def processRelayFrame (t : Transport) (frame : Frame) : Bool × Transport :=
  if !t.welcomed && (decide (frame.type ≠ .welcome) || decide (frame.streamId ≠ 0)) then (false, t)
  else if frame.streamId = 0 then t.processTransportFrame frame
  else
    match t.streams.find? frame.streamId with
    | none => (decide (frame.streamId ∈ t.closedStreams) && acceptsClosed frame, t)
    | some stream => if !stream.opened then (false, t) else t.processStreamFrame frame stream

/-- The loop of `processRelayPayload`. -/
def processRelayFrames : List Frame → Transport → Transport
  | [], t => t
  | frame :: rest, t =>
    match t.processRelayFrame frame with
    | (true, t) => processRelayFrames rest t
    | (false, t) => t.protocolError

/-- `processRelayPayload`; a payload is too short for `ParseFrames` to overflow. -/
def processRelayPayload (t : Transport) (payload : Bytes) : Transport :=
  match parseFrames payload [] with
  | .ok (true, [], frames) =>
    if frames.isEmpty then t.protocolError else processRelayFrames frames t
  | _ => t.protocolError

/-! ## Carriers -/

/-- A new carrier takes the place of the old one. -/
def startCarrier (t : Transport) : Transport :=
  { t.dropControl with browserWriteFailed := false, welcomed := false }

/-- `webviewStarting`. -/
def webviewStarting (t : Transport) (generation : ℕ) : Transport :=
  if !t.proxy || generation == 0 then t
  else
    let t := { t with webviewCandidateGeneration := generation }
    if !t.carrierAvailable && decide (t.state ≠ .waitingForBrowser) then t.setState .connecting
    else t

/-- `webviewReady`. -/
def webviewReady (t : Transport) (generation : ℕ) : Transport :=
  if t.webviewCandidateGeneration ≠ generation ∨ t.webviewGeneration ≠ 0 then t
  else
    let t := { t with webviewCandidateGeneration := 0 }
    let t := if t.browserSocket.isSome && t.welcomed then t.closeAllStreams false else t
    { ({ t with browserSocket := none }.startCarrier) with
      webviewGeneration := generation
      webviewPendingBytes := 0
      webviewPendingItems := 0 }.welcome

/-- `webviewWritten`. -/
def webviewWritten (t : Transport) (generation : ℕ) (bytes : ℤ) : Transport :=
  if t.webviewGeneration ≠ generation then t
  else if bytes ≤ 0 ∨ bytes > t.webviewPendingBytes ∨ t.webviewPendingItems ≤ 0 then t.protocolError
  else
    { t with
      webviewPendingBytes := t.webviewPendingBytes - bytes
      webviewPendingItems := t.webviewPendingItems - 1 }.flushControlFrames.flushStreams

/-- `webviewUnavailable`. -/
def webviewUnavailable (t : Transport) : Transport :=
  if !t.proxy || t.browserSocket.isSome || decide (t.webviewGeneration ≠ 0) then t
  else t.setState .waitingForBrowser

/-- `authenticateBrowser`, of a client that shows the token, with `bridge` what it is written. -/
def authenticateBrowser (t : Transport) (bridge : ℕ) : Transport :=
  if t.webviewGeneration ≠ 0 then t
  else
    let t := if t.browserSocket.isSome then (t.closeAllStreams false).closeWebSocket else t
    let t := { t with browserSocket := some ⟨t.sockets, 0⟩, sockets := t.sockets + 1 }.startCarrier
    (({ t with closedStreams := ∅, closedStreamOrder := [] }.setState .connecting).writeWebSocket
      bridge).sendFrame .hello 0 [1]

/-- `processBrowserControl`, of the browser, with the state that it shows. -/
def processBrowserControl (t : Transport) (state : Option TransportState) : Transport :=
  if t.browserSocket.isNone then t
  else
    match state with
    | some .failed => (t.loseBrowser true).closeWebSocket
    | some .connecting => t.setState .connecting
    | some .connected => t.setState (if t.welcomed then .connected else .connecting)
    | _ => t.closeWebSocket

/-- `browserBytesWritten`, with what the socket is still to write. -/
def browserBytesWritten (t : Transport) (bytesToWrite : ℕ) : Transport :=
  let browserSocket := t.browserSocket.map fun socket =>
    { socket with bytesToWrite := (bytesToWrite : ℤ) }
  { t with browserSocket }.flushControlFrames.flushStreams

/-- `deactivate`. -/
def deactivate (t : Transport) : Transport :=
  let t := t.closeAllStreams false
  let t : Transport := { t with browserSocket := none }
  { t.forgetFrames.startCarrier with
    webviewCandidateGeneration := 0
    webviewGeneration := 0
    webviewPendingBytes := 0
    webviewPendingItems := 0
    proxy := false
    state := .idle }

/-- `configure`, with another proxy than before. -/
def configure (t : Transport) : Transport :=
  { t.deactivate with proxy := true }.setState .connecting

/-! ## Calls of other threads -/

/-- `sendData` and `webviewPayload` of `Transport`, when nothing can be reserved; `own` says that
the caller is in the thread of the transport. -/
def refuse (t : Transport) (own : Bool) : Call → Transport
  | .sendData streamId _ => if own then t.failStream streamId else t.post (.failStream streamId)
  | .webviewPayload generation _ => t.post (.webviewFailed generation)
  | _ => t

/-- `reservePending`, the first loop, for a call that has bytes. -/
def reserveItem (t : Transport) (call : Call) (own : Bool) : Transport :=
  if call.bytes ≤ 0 then t
  else if t.pendingItems ≥ kMaxPendingTransportItems then t.refuse own call
  else { t with pendingItems := t.pendingItems + 1, reserving := t.reserving ++ [call] }

/-- `reservePending`, the second loop, and what follows it. -/
def reserveBytes (t : Transport) (index : ℕ) (own : Bool) : Transport :=
  match t.reserving[index]? with
  | none => t
  | some call =>
    let t := { t with reserving := t.reserving.eraseIdx index }
    if t.pendingBytes > kMaxPendingTransportBytes - call.bytes then
      { t with pendingItems := t.pendingItems - 1 }.refuse own call
    else { t with pendingBytes := t.pendingBytes + call.bytes }.post call

/-- What a queued call does. -/
def execute (t : Transport) : Call → Transport
  | .registerStream streamId => t.registerStream streamId
  | .closeStream streamId => t.closeStream streamId
  | .failStream streamId => t.failStream streamId
  | .sendData streamId data => t.sendData streamId data
  | .grantWindow streamId amount => t.grantWindow streamId amount
  | .webviewStarting generation => t.webviewStarting generation
  | .webviewReady generation => t.webviewReady generation
  | .webviewPayload generation payload =>
    (if t.webviewGeneration = generation then t.processRelayPayload payload else t).releasePending
      payload.length 1
  | .webviewWritten generation bytes => t.webviewWritten generation bytes
  | .webviewFailed generation => t.webviewFailed generation
  | .webviewUnavailable => t.webviewUnavailable
  | .protocolError => if t.carrierAvailable then t.protocolError else t
  | .socketError number =>
    if t.browserSocket.any fun socket => socket.number = number then t.protocolError else t

/-- The first call that is queued is executed. -/
def executeNext (t : Transport) : Transport :=
  match t.queue with
  | [] => t
  | call :: rest => { t with queue := rest }.execute call

/-! ## Runs -/

/-- What happens, in any order. -/
inductive Event
  | call (call : Call)
  | closeStream (streamId : ℕ)
  | reserveItem (call : Call) (own : Bool)
  | reserveBytes (index : ℕ) (own : Bool)
  | executeNext
  | authenticateBrowser (bridge : ℕ)
  | browserPayload (payload : Bytes)
  | browserControl (state : Option TransportState)
  | browserWrites (size : ℕ)
  | browserCloses
  | browserDisconnected
  | browserBytesWritten (bytesToWrite : ℕ)
  | flushWindows
  | timeout
  | configure
  | deactivate

/-- One step; a call that reserves is not queued without that, and a timeout is of a carrier. -/
def step (t : Transport) : Event → Transport
  | .call call => if call.items = 0 then t.post call else t
  | .closeStream streamId => t.closeStream streamId
  | .reserveItem call own => t.reserveItem call own
  | .reserveBytes index own => t.reserveBytes index own
  | .executeNext => t.executeNext
  | .authenticateBrowser bridge => t.authenticateBrowser bridge
  | .browserPayload payload => if t.browserSocket.isSome then t.processRelayPayload payload else t
  | .browserControl state => t.processBrowserControl state
  | .browserWrites size => t.writeWebSocket size
  | .browserCloses => t.closeWebSocket
  | .browserDisconnected => t.browserDisconnected
  | .browserBytesWritten bytesToWrite =>
    if t.browserSocket.isSome then t.browserBytesWritten bytesToWrite else t
  | .flushWindows => t.flushWindows
  | .timeout => if t.carrierAvailable then t.protocolError else t
  | .configure => t.configure
  | .deactivate => t.deactivate

/-- The transport after a run. -/
def run (events : List Event) : Transport := events.foldl step {}

end Transport

end WebProxy

end Mtproto

end Yunogram
