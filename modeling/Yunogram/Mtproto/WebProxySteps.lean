import Yunogram.Machinery.FlatTotals
import Yunogram.Mtproto.WebProxyPending

/-!
# Mtproto/WebProxySteps — what every step keeps

The operations of the transport call one another, down to about ten **moves**: a frame is sent, a
stream is taken out, what is queued is written.  A property of what a transport has pending, has
written and has told that no move breaks is kept by every operation (`Kept`), and, if the calls of
other threads keep it too, by every run (`Kept.run`).
-/

open Machinery

namespace Yunogram

namespace Mtproto

namespace WebProxy

/-- An entry that is not about a frame. -/
def Entry.silent : Entry → Bool
  | .issued _ | .dropped => false
  | _ => true

/-- What a transport has pending, has written and has told. -/
structure View where
  streams : FlatMap ℕ Stream
  controlFrames : List Frame
  controlBytes : ℤ
  pendingBytes : ℤ
  pendingItems : ℤ
  asserted : Bool
  reserving : List Call
  queue : List Call
  written : List Frame
  log : List Entry

/-- The view of a transport. -/
def Transport.view (t : Transport) : View :=
  ⟨t.streams, t.controlFrames, t.controlBytes, t.pendingBytes, t.pendingItems, t.asserted,
    t.reserving, t.queue, t.written, t.log⟩

/-- **A property that every move keeps.** -/
structure Kept (P : View → Prop) : Prop where
  note : ∀ {t : Transport} {entry : Entry}, entry.silent = true → P t.view → P (t.note entry).view
  post : ∀ {t : Transport} {call : Call}, call.items = 0 → P t.view → P (t.post call).view
  sendFrame : ∀ {t : Transport} (type : FrameType) (streamId : ℕ) (payload : Bytes),
    P t.view → P (t.sendFrame type streamId payload).view
  flushControlFrames : ∀ {t : Transport}, P t.view → P t.flushControlFrames.view
  flushStream : ∀ {t : Transport} (streamId : ℕ), t.controlFrames = [] → P t.view →
    P (t.flushStream streamId).view
  emplace : ∀ {t : Transport} {streamId : ℕ}, t.streams.find? streamId = none → P t.view →
    P (Transport.view { t with streams := t.streams.emplace streamId {} })
  assign : ∀ {t : Transport} {streamId : ℕ} {stream stream' : Stream},
    t.streams.find? streamId = some stream → stream'.pending = stream.pending →
    stream'.pendingBytes = stream.pendingBytes → P t.view →
    P (Transport.view { t with streams := t.streams.assign streamId stream' })
  removeStream : ∀ {t : Transport} {streamId : ℕ} {stream : Stream},
    t.streams.find? streamId = some stream → P t.view →
    P (t.removeStream streamId stream).view
  closeAllStreams : ∀ {t : Transport} (failed : Bool), P t.view → P (t.closeAllStreams failed).view
  dropControl : ∀ {t : Transport}, P t.view → P t.dropControl.view

/-! ## What is not seen -/

namespace Transport

variable {t : Transport}

theorem view_markStreamReady (streamId : ℕ) : (t.markStreamReady streamId).view = t.view := by
  rw [markStreamReady]
  cases t.streams.find? streamId with
  | none => rfl
  | some stream =>
    dsimp only
    split_ifs <;> rfl

theorem view_rememberClosedStream (streamId : ℕ) :
    (t.rememberClosedStream streamId).view = t.view := by
  rw [rememberClosedStream]
  dsimp only
  split_ifs <;> rfl

theorem controlFrames_writeCarrierFrame (frame : Frame) :
    (t.writeCarrierFrame frame).controlFrames = t.controlFrames := by
  rw [writeCarrierFrame]
  split_ifs
  · rfl
  · cases t.browserSocket <;> rfl

theorem controlFrames_flushStream (streamId : ℕ) :
    (t.flushStream streamId).controlFrames = t.controlFrames := by
  obtain heq | ⟨stream, front, rest, -, -, -, -, -, -, -, heq⟩ := t.flushStream_cases streamId
  · rw [heq]
  · rw [heq]
    exact controlFrames_writeCarrierFrame _

theorem streams_sendClose (streamId : ℕ) (stream : Stream) :
    (t.sendClose streamId stream).streams = t.streams := by
  rw [sendClose]
  split_ifs
  · exact (congrArg View.streams (view_rememberClosedStream streamId)).trans (streams_sendFrame ..)
  · rfl

end Transport

namespace Kept

variable {P : View → Prop} {t : Transport} {streamId : ℕ} {stream : Stream}

/-! ## Streams -/

theorem flushStreams (hP : Kept P) (h : P t.view) : P t.flushStreams.view := by
  suffices H : ∀ (turns : ℕ) (t : Transport), P t.view → t.controlFrames = [] →
      P (Transport.flushLoop turns t).view by
    rw [Transport.flushStreams]
    dsimp only
    split_ifs with hlost hempty
    · exact h
    · exact hP.flushControlFrames h
    · rw [Bool.not_eq_true, Bool.not_eq_false', List.isEmpty_iff] at hempty
      exact H _ _ (hP.flushControlFrames h) hempty
  intro turns
  induction turns with
  | zero => exact fun _ h _ => h
  | succ turns ih =>
    intro t h hempty
    rw [Transport.flushLoop]
    split_ifs
    · exact h
    cases t.readyStreams.dropWhile _ with
    | nil => exact h
    | cons streamId rest =>
      dsimp only
      generalize hnext : ({ t with readyStreams := rest, readySet := t.readySet.erase streamId }
        : Transport) = next
      have hview : next.view = t.view := hnext ▸ rfl
      have hsent := hP.flushStream streamId ((congrArg View.controlFrames hview).trans hempty)
        (hview ▸ h)
      refine ih _ ?_ ?_
      · rwa [Transport.view_markStreamReady]
      · exact (congrArg View.controlFrames (Transport.view_markStreamReady streamId)).trans
          ((Transport.controlFrames_flushStream streamId).trans
            ((congrArg View.controlFrames hview).trans hempty))

theorem sendClose (hP : Kept P) (h : P t.view) (streamId : ℕ) (stream : Stream) :
    P (t.sendClose streamId stream).view := by
  rw [Transport.sendClose]
  split_ifs
  · rw [Transport.view_rememberClosedStream]
    exact hP.sendFrame _ _ _ h
  · exact h

/-- A stream is closed and taken out, with one last word. -/
theorem closeAndRemove (hP : Kept P) (h : P t.view) (hfind : t.streams.find? streamId = some stream)
    (entry : Entry) (hentry : entry.silent = true) :
    P (((t.sendClose streamId stream).removeStream streamId stream).note entry).view := by
  refine hP.note hentry (hP.removeStream ?_ (hP.sendClose h streamId stream))
  rwa [Transport.streams_sendClose]

theorem closeStream (hP : Kept P) (h : P t.view) (streamId : ℕ) :
    P (t.closeStream streamId).view := by
  rw [Transport.closeStream]
  cases hfind : t.streams.find? streamId with
  | none => exact h
  | some stream => exact hP.closeAndRemove h hfind _ rfl

theorem failStream (hP : Kept P) (h : P t.view) (streamId : ℕ) :
    P (t.failStream streamId).view := by
  rw [Transport.failStream]
  cases hfind : t.streams.find? streamId with
  | none => exact h
  | some stream => exact hP.closeAndRemove h hfind _ rfl

theorem openStream (hP : Kept P) (h : P t.view) (hfind : t.streams.find? streamId = some stream) :
    P (t.openStream streamId stream).view := by
  refine hP.note rfl (hP.sendFrame (t := { t with streams := _ }) .open streamId [] ?_)
  exact hP.assign hfind rfl rfl h

theorem registerStream (hP : Kept P) (h : P t.view) (streamId : ℕ) :
    P (t.registerStream streamId).view := by
  rw [Transport.registerStream]
  by_cases hrefused : (!t.proxy || t.streams.contains streamId
      || decide (streamId ∈ t.closedStreams)) = true
  · rw [if_pos hrefused]
    exact hP.note rfl h
  · have hnone : t.streams.find? streamId = none := by
      rw [Bool.not_eq_true, Bool.or_eq_false_iff, Bool.or_eq_false_iff] at hrefused
      exact FlatMap.contains_eq_false.1 hrefused.1.2
    have hnew : P (Transport.note { t with streams := t.streams.emplace streamId {} }
        (.registered streamId)).view := hP.note rfl (hP.emplace hnone h)
    rw [if_neg hrefused]
    dsimp only
    split
    · refine hP.openStream hnew ?_
      exact (FlatMap.find?_emplace_of_none hnone streamId _).trans (if_pos rfl)
    · exact hnew

/-! ## Carriers that are lost -/

theorem writeWebSocket (hP : Kept P) (h : P t.view) (size : ℕ) :
    P (t.writeWebSocket size).view := by
  rw [Transport.writeWebSocket]
  cases t.browserSocket with
  | none => exact h
  | some socket =>
    dsimp only
    split_ifs
    · exact h
    · exact hP.post (t := { t with browserWriteFailed := true }) rfl h
    · exact h

/-- Streams are closed, and what they had to send is forgotten. -/
theorem forgetFrames (hP : Kept P) (h : P t.view) (failed : Bool) :
    P (t.closeAllStreams failed).forgetFrames.view :=
  hP.dropControl (t := t.closeAllStreams failed) (hP.closeAllStreams failed h)

theorem loseBrowser (hP : Kept P) (h : P t.view) (failed : Bool) :
    P (t.loseBrowser failed).view :=
  hP.forgetFrames (t := { t with welcomed := false }) h failed

theorem browserDisconnected (hP : Kept P) (h : P t.view) : P t.browserDisconnected.view := by
  rw [Transport.browserDisconnected]
  split_ifs
  · exact h
  · exact hP.loseBrowser (t := { t with browserSocket := none, browserWriteFailed := false }) h _

theorem closeWebSocket (hP : Kept P) (h : P t.view) : P t.closeWebSocket.view := by
  rw [Transport.closeWebSocket]
  split_ifs
  · exact hP.browserDisconnected (hP.writeWebSocket h 4)
  · exact hP.writeWebSocket h 4

theorem dropWebview (hP : Kept P) (h : P t.view) : P t.dropWebview.view :=
  hP.forgetFrames (t := { t with
    webviewGeneration := 0, webviewPendingBytes := 0, webviewPendingItems := 0
    welcomed := false }) h false

theorem webviewFailed (hP : Kept P) (h : P t.view) (generation : ℕ) :
    P (t.webviewFailed generation).view := by
  have hstate : ∀ t : Transport, P t.view →
      P (if t.browserSocket.isNone && decide (t.state ≠ .waitingForBrowser) then
        t.setState .connecting else t).view := fun t h => by
    split_ifs <;> exact h
  have hcandidate : P (Transport.view
      (if decide (t.webviewCandidateGeneration = generation) = true then
        { t with webviewCandidateGeneration := 0 } else t)) := by
    split_ifs <;> exact h
  rw [Transport.webviewFailed]
  dsimp only
  split
  · exact h
  · refine hstate _ ?_
    split
    · exact hP.dropWebview hcandidate
    · exact hcandidate

theorem protocolError (hP : Kept P) (h : P t.view) : P t.protocolError.view := by
  rw [Transport.protocolError]
  split_ifs
  · exact hP.webviewFailed (hP.closeAllStreams true h) _
  · exact hP.closeWebSocket (t := Transport.setState
      { (t.closeAllStreams true).forgetFrames with welcomed := false } .failed)
      (hP.forgetFrames h true)

/-! ## Windows -/

theorem grantWindow (hP : Kept P) (h : P t.view) (streamId amount : ℕ) :
    P (t.grantWindow streamId amount).view := by
  rw [Transport.grantWindow]
  cases hfind : t.streams.find? streamId with
  | none => exact h
  | some stream =>
    dsimp only
    split
    · exact h
    split
    · exact hP.protocolError h
    split
    · refine hP.sendFrame _ _ _ (hP.note rfl ?_)
      exact hP.assign hfind rfl rfl h
    · refine hP.note rfl ?_
      exact hP.assign hfind rfl rfl h

theorem flushWindows (hP : Kept P) (h : P t.view) : P t.flushWindows.view := by
  refine FlatMap.foldl_entries t.streams Transport.streams (fun t => P t.view) rfl h
    fun t streamId stream _ h hfind => ?_
  show P (t.flushWindow streamId stream).view ∧ ∀ other ≠ streamId,
    (t.flushWindow streamId stream).streams.find? other = _
  rw [Transport.flushWindow]
  split_ifs
  · refine ⟨hP.sendFrame (t := { t with streams := _ }) _ _ _ ?_, fun other hne => ?_⟩
    · exact hP.assign hfind rfl rfl h
    · rw [Transport.streams_sendFrame, FlatMap.find?_assign, if_neg hne]
  · exact ⟨h, fun _ _ => rfl⟩

theorem welcome (hP : Kept P) (h : P t.view) : P t.welcome.view := by
  rw [Transport.welcome]
  dsimp only
  split
  · exact hP.protocolError h
  refine hP.flushStreams (FlatMap.foldl_entries t.streams Transport.streams (fun t => P t.view)
    rfl h fun t streamId stream _ h hfind => ?_)
  show P ((t.openStream streamId stream).markStreamReady streamId).view ∧ ∀ other ≠ streamId,
    ((t.openStream streamId stream).markStreamReady streamId).streams.find? other = _
  rw [Transport.view_markStreamReady, Transport.streams_markStreamReady,
    Transport.streams_openStream]
  refine ⟨hP.openStream h hfind, fun other hne => ?_⟩
  rw [FlatMap.find?_assign, if_neg hne]

/-! ## Frames of the relay -/

theorem processTransportFrame (hP : Kept P) (h : P t.view) (frame : Frame) :
    P (t.processTransportFrame frame).2.view := by
  rw [Transport.processTransportFrame]
  split
  · split
    · exact h
    · exact hP.welcome h
  · split
    · exact h
    · exact hP.sendFrame _ _ _ h
  · refine hP.closeWebSocket ?_
    split
    · exact hP.webviewFailed h _
    · exact hP.loseBrowser h true
  · exact h

theorem processStreamFrame (hP : Kept P) (h : P t.view) (frame : Frame)
    (hfind : t.streams.find? frame.streamId = some stream) :
    P (t.processStreamFrame frame stream).2.view := by
  rw [Transport.processStreamFrame]
  split
  · split
    · exact h
    · exact hP.note rfl (hP.assign hfind rfl rfl h)
  · split
    · exact h
    · refine hP.flushStreams ?_
      rw [Transport.view_markStreamReady]
      exact hP.note rfl (hP.assign hfind rfl rfl h)
  · split
    · exact h
    · have hview : (t.rememberClosedStream frame.streamId).view = t.view :=
        Transport.view_rememberClosedStream frame.streamId
      exact hP.note rfl (hP.removeStream
        ((congrArg (·.streams.find? frame.streamId) hview).trans hfind) (hview ▸ h))
  · exact h

theorem processRelayFrame (hP : Kept P) (h : P t.view) (frame : Frame) :
    P (t.processRelayFrame frame).2.view := by
  rw [Transport.processRelayFrame]
  split
  · exact h
  split
  · exact hP.processTransportFrame h frame
  cases hfind : t.streams.find? frame.streamId with
  | none => exact h
  | some stream =>
    dsimp only
    split
    · exact h
    · exact hP.processStreamFrame h frame hfind

theorem processRelayFrames (hP : Kept P) (frames : List Frame) (h : P t.view) :
    P (Transport.processRelayFrames frames t).view := by
  induction frames generalizing t with
  | nil => exact h
  | cons frame frames ih =>
    have hnext := hP.processRelayFrame h frame
    rw [Transport.processRelayFrames]
    generalize t.processRelayFrame frame = result at hnext ⊢
    obtain ⟨good, t'⟩ := result
    cases good with
    | true => exact ih hnext
    | false => exact hP.protocolError hnext

theorem processRelayPayload (hP : Kept P) (h : P t.view) (payload : Bytes) :
    P (t.processRelayPayload payload).view := by
  rw [Transport.processRelayPayload]
  split
  · split
    · exact hP.protocolError h
    · exact hP.processRelayFrames _ h
  · exact hP.protocolError h

/-! ## Carriers that come -/

theorem webviewReady (hP : Kept P) (h : P t.view) (generation : ℕ) :
    P (t.webviewReady generation).view := by
  rw [Transport.webviewReady]
  dsimp only
  split
  · exact h
  refine hP.welcome ?_
  split
  · exact hP.dropControl (hP.closeAllStreams (t := { t with webviewCandidateGeneration := 0 })
      false h)
  · exact hP.dropControl (t := t) h

theorem webviewWritten (hP : Kept P) (h : P t.view) (generation : ℕ) (bytes : ℤ) :
    P (t.webviewWritten generation bytes).view := by
  rw [Transport.webviewWritten]
  split
  · exact h
  split
  · exact hP.protocolError h
  · exact hP.flushStreams (hP.flushControlFrames h)

theorem authenticateBrowser (hP : Kept P) (h : P t.view) (bridge : ℕ) :
    P (t.authenticateBrowser bridge).view := by
  rw [Transport.authenticateBrowser]
  dsimp only
  split
  · exact h
  refine hP.sendFrame _ _ _ (hP.writeWebSocket ?_ bridge)
  split
  · exact hP.dropControl (hP.closeWebSocket (hP.closeAllStreams false h))
  · exact hP.dropControl h

theorem processBrowserControl (hP : Kept P) (h : P t.view) (state : Option TransportState) :
    P (t.processBrowserControl state).view := by
  unfold Transport.processBrowserControl
  split
  · exact h
  split
  · exact hP.closeWebSocket (hP.loseBrowser h true)
  · exact h
  · exact h
  · exact hP.closeWebSocket h

theorem browserBytesWritten (hP : Kept P) (h : P t.view) (bytesToWrite : ℕ) :
    P (t.browserBytesWritten bytesToWrite).view := by
  rw [Transport.browserBytesWritten]
  exact hP.flushStreams (hP.flushControlFrames h)

theorem deactivate (hP : Kept P) (h : P t.view) : P t.deactivate.view :=
  hP.dropControl (t := Transport.forgetFrames
    { (t.closeAllStreams false) with browserSocket := none }) (hP.forgetFrames h false)

/-! ## Calls of other threads -/

theorem refuse (hP : Kept P) (h : P t.view) (own : Bool) (call : Call) :
    P (t.refuse own call).view := by
  cases call with
  | sendData streamId data =>
    rw [Transport.refuse]
    split_ifs
    · exact hP.failStream h streamId
    · exact hP.post rfl h
  | webviewPayload generation payload => exact hP.post rfl h
  | _ => exact h

/-- A call that reserves nothing is executed. -/
theorem execute (hP : Kept P) (h : P t.view) {call : Call} (hcall : call.items = 0) :
    P (t.execute call).view := by
  cases call with
  | registerStream streamId => exact hP.registerStream h streamId
  | closeStream streamId => exact hP.closeStream h streamId
  | failStream streamId => exact hP.failStream h streamId
  | sendData streamId data => cases hcall
  | grantWindow streamId amount => exact hP.grantWindow h streamId amount
  | webviewStarting generation =>
    rw [Transport.execute, Transport.webviewStarting]
    dsimp only
    split_ifs <;> exact h
  | webviewReady generation => exact hP.webviewReady h generation
  | webviewPayload generation payload => cases hcall
  | webviewWritten generation bytes => exact hP.webviewWritten h generation bytes
  | webviewFailed generation => exact hP.webviewFailed h generation
  | webviewUnavailable =>
    rw [Transport.execute, Transport.webviewUnavailable]
    split_ifs <;> exact h
  | protocolError =>
    rw [Transport.execute]
    split
    · exact hP.protocolError h
    · exact h
  | socketError number =>
    rw [Transport.execute]
    split
    · exact hP.protocolError h
    · exact h

/-! ## Steps and runs -/

/-- **Every step keeps it**, if calls that reserve do. -/
theorem step (hP : Kept P)
    (hitem : ∀ t call own, P (Transport.view t) → P (t.reserveItem call own).view)
    (hbytes : ∀ t index own, P (Transport.view t) → P (t.reserveBytes index own).view)
    (hnext : ∀ t, P (Transport.view t) → P t.executeNext.view)
    (h : P t.view) (event : Transport.Event) : P (t.step event).view := by
  cases event with
  | call call =>
    rw [Transport.step]
    split_ifs with hcall
    · exact hP.post hcall h
    · exact h
  | closeStream streamId => exact hP.closeStream h streamId
  | reserveItem call own => exact hitem t call own h
  | reserveBytes index own => exact hbytes t index own h
  | executeNext => exact hnext t h
  | authenticateBrowser bridge => exact hP.authenticateBrowser h bridge
  | browserPayload payload =>
    rw [Transport.step]
    split_ifs
    · exact hP.processRelayPayload h payload
    · exact h
  | browserControl state => exact hP.processBrowserControl h state
  | browserWrites size => exact hP.writeWebSocket h size
  | browserCloses => exact hP.closeWebSocket h
  | browserDisconnected => exact hP.browserDisconnected h
  | browserBytesWritten bytesToWrite =>
    rw [Transport.step]
    split_ifs
    · exact hP.browserBytesWritten h bytesToWrite
    · exact h
  | flushWindows => exact hP.flushWindows h
  | timeout =>
    rw [Transport.step]
    split_ifs
    · exact hP.protocolError h
    · exact h
  | configure => exact hP.deactivate h
  | deactivate => exact hP.deactivate h

/-- **Every run keeps it.** -/
theorem run (hP : Kept P) (hstart : P (Transport.view {}))
    (hitem : ∀ t call own, P (Transport.view t) → P (t.reserveItem call own).view)
    (hbytes : ∀ t index own, P (Transport.view t) → P (t.reserveBytes index own).view)
    (hnext : ∀ t, P (Transport.view t) → P t.executeNext.view) (events : List Transport.Event) :
    P (Transport.run events).view := by
  suffices H : ∀ t : Transport, P t.view → P (events.foldl Transport.step t).view from H {} hstart
  induction events with
  | nil => exact fun _ h => h
  | cons event events ih => exact fun t h => ih _ (hP.step hitem hbytes hnext h event)

end Kept

end WebProxy

end Mtproto

end Yunogram
