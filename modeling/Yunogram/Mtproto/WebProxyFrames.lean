import Yunogram.Mtproto.WebProxySteps

/-!
# Mtproto/WebProxyFrames — the order in which frames are written

Frames of control wait in a queue while the carrier is full, and data is sent past an empty queue
only.  Over every run the frames that the carrier has got, and then the queue, are the frames that
were issued since streams were last dropped, in that order (`frames_in_order`).
-/

open Machinery

namespace Yunogram

namespace Mtproto

namespace WebProxy

/-! ## Frames that are issued -/

/-- The frames that were issued, after one more entry. -/
def Entry.follow : List Frame → Entry → List Frame
  | frames, .issued frame => frames ++ [frame]
  | _, .dropped => []
  | frames, _ => frames

/-- The frames that were issued since streams were last dropped. -/
def issuedFrames (log : List Entry) : List Frame := log.foldl Entry.follow []

theorem Entry.follow_silent {entry : Entry} (h : entry.silent = true) (frames : List Frame) :
    Entry.follow frames entry = frames := by
  cases entry with
  | issued _ | dropped => cases h
  | _ => rfl

/-- What is written, what waits to be, and what was issued. -/
structure Desk where
  written : List Frame
  controlFrames : List Frame
  controlBytes : ℤ
  issued : List Frame

/-- The desk of a view. -/
def View.desk (view : View) : Desk :=
  ⟨view.written, view.controlFrames, view.controlBytes, issuedFrames view.log⟩

/-- The desk of a transport. -/
def Transport.desk (t : Transport) : Desk := t.view.desk

/-- **Frames are in order**: what is written, and then what waits, is what was issued. -/
structure InOrder (d : Desk) : Prop where
  order : d.written ++ d.controlFrames = d.issued
  bytes : d.controlBytes = (d.controlFrames.map fun frame => (frame.size : ℤ)).sum
  le_bytes : d.controlBytes ≤ kMaxPendingControlBytes
  le_frames : d.controlFrames.length ≤ kMaxPendingControlFrames

namespace Transport

variable {t : Transport}

theorem desk_note (t : Transport) (entry : Entry) :
    (t.note entry).desk = { t.desk with issued := Entry.follow t.desk.issued entry } := by
  rw [desk, view, View.desk, note, issuedFrames, List.foldl_append]
  rfl

theorem desk_writeCarrierFrame (h : t.carrierAvailable = true) (frame : Frame) :
    (t.writeCarrierFrame frame).desk = { t.desk with written := t.desk.written ++ [frame] } := by
  rw [writeCarrierFrame]
  split_ifs with hwebview
  · rfl
  · cases hsocket : t.browserSocket with
    | none => simp [carrierAvailable, hsocket, hwebview] at h
    | some socket => rfl

theorem desk_closeAllStreams (failed : Bool) : (t.closeAllStreams failed).desk = t.desk := by
  suffices H : ∀ (entries : List (ℕ × Stream)) (t : Transport),
      (entries.foldl (fun t entry => (t.releaseStream entry.2).note
        (if failed then .failed entry.1 else .disconnected entry.1)) t).desk = t.desk from
    H t.streams.entries { t with streams := .empty, readyStreams := [], readySet := ∅ }
  intro entries
  induction entries with
  | nil => exact fun _ => rfl
  | cons entry entries ih =>
    intro t
    rw [List.foldl_cons, ih, desk_note, Entry.follow_silent (by cases failed <;> rfl)]
    rfl

end Transport

namespace InOrder

variable {t : Transport}

/-! ## Every move keeps the order -/

theorem empty : InOrder ⟨[], [], 0, []⟩ where
  order := rfl
  bytes := rfl
  le_bytes := Int.zero_le_ofNat _
  le_frames := Nat.zero_le _

theorem note (h : InOrder t.desk) {entry : Entry} (hsilent : entry.silent = true) :
    InOrder (t.note entry).desk := by
  rwa [Transport.desk_note, Entry.follow_silent hsilent]

theorem dropControl (t : Transport) : InOrder t.dropControl.desk := by
  rw [Transport.dropControl, Transport.desk_note]
  exact empty

/-- Nothing waits, and a frame is issued and written at once. -/
theorem write (h : InOrder t.desk) (hempty : t.desk.controlFrames = []) (frame : Frame) :
    InOrder { t.desk with
      written := t.desk.written ++ [frame], issued := t.desk.issued ++ [frame] } := by
  refine { h with order := ?_ }
  have horder := h.order
  rw [hempty, List.append_nil] at horder
  show (t.desk.written ++ [frame]) ++ t.desk.controlFrames = t.desk.issued ++ [frame]
  rw [hempty, List.append_nil, horder]

theorem sendFrame (h : InOrder t.desk) (type : FrameType) (streamId : ℕ) (payload : Bytes) :
    InOrder (t.sendFrame type streamId payload).desk := by
  rw [Transport.sendFrame, Transport.queueControlFrame]
  split_ifs with hcarrier hfailed haccepts hfull
  · exact h
  · exact h
  · rw [Bool.not_eq_true, Bool.not_eq_false'] at hcarrier
    rw [Bool.and_eq_true, List.isEmpty_iff] at haccepts
    rw [Transport.desk_writeCarrierFrame (t := t.note _) hcarrier, Transport.desk_note]
    exact h.write haccepts.1 _
  · exact h
  · rw [not_or, not_or, not_lt, not_le, not_lt] at hfull
    have hissued := congrArg Desk.issued (t.desk_note (.issued ⟨type, streamId, payload⟩))
    refine { order := ?_, bytes := ?_, le_bytes := ?_, le_frames := ?_ }
    · show t.desk.written ++ (t.desk.controlFrames ++ _) = (t.note _).desk.issued
      rw [hissued, ← List.append_assoc, h.order]
      rfl
    · show t.controlBytes + _ = ((t.controlFrames ++ [_]).map _).sum
      rw [List.map_append, List.sum_append, List.map_singleton, List.sum_singleton]
      exact congrArg (· + _) h.bytes
    · have hle := hfull.2.2
      show t.controlBytes + _ ≤ _
      omega
    · show (t.controlFrames ++ [_]).length ≤ _
      rw [List.length_append, List.length_singleton]
      exact hfull.2.1

/-- What is queued is written, from the front. -/
theorem flushControlFrames (h : InOrder t.desk) : InOrder t.flushControlFrames.desk := by
  suffices H : ∀ (frames : List Frame) (t : Transport), t.controlFrames = frames →
      InOrder t.desk → InOrder (Transport.flushControlLoop frames t).desk from
    H t.controlFrames t rfl h
  intro frames
  induction frames with
  | nil => exact fun _ _ h => h
  | cons frame frames ih =>
    intro t hframes h
    rw [Transport.flushControlLoop]
    split_ifs with hcarrier
    · exact h
    · exact h
    rw [Bool.not_eq_true, Bool.not_eq_false'] at hcarrier
    refine ih _ rfl ?_
    show InOrder { (t.writeCarrierFrame frame).desk with
      controlBytes := t.controlBytes - frame.size, controlFrames := frames }
    rw [Transport.desk_writeCarrierFrame hcarrier]
    have hdesk : t.desk.controlFrames = frame :: frames := hframes
    have hbytes := h.bytes
    have horder := h.order
    have hlength := h.le_frames
    have hle := h.le_bytes
    rw [hdesk] at horder hbytes hlength
    rw [List.map_cons, List.sum_cons] at hbytes
    refine { order := ?_, bytes := ?_, le_bytes := ?_, le_frames := ?_ }
    · exact (List.append_cons _ _ _).symm.trans horder
    · exact sub_eq_of_eq_add' hbytes
    · exact (Int.sub_le_self _ (Int.natCast_nonneg _)).trans hle
    · exact (Nat.le_succ _).trans hlength

/-- A stream sends what it can, past an empty queue. -/
theorem flushStream (h : InOrder t.desk) (hempty : t.controlFrames = []) (streamId : ℕ) :
    InOrder (t.flushStream streamId).desk := by
  obtain heq | ⟨stream, front, rest, -, -, -, -, hcarrier, -, -, heq⟩ :=
    t.flushStream_cases streamId
  · rwa [heq]
  rw [heq]
  generalize t.flushTake stream front = take
  have hsent := Transport.desk_writeCarrierFrame (t := t.note (.issued
    ⟨.data, streamId, slice front.data front.offset take⟩)) hcarrier
    ⟨.data, streamId, slice front.data front.offset take⟩
  rw [Transport.desk_note] at hsent
  exact hsent ▸ h.write hempty _

theorem kept : Kept fun view => InOrder view.desk where
  note hsilent h := note h hsilent
  post _ h := h
  sendFrame type streamId payload h := sendFrame h type streamId payload
  flushControlFrames h := flushControlFrames h
  flushStream streamId hempty h := flushStream h hempty streamId
  emplace _ h := h
  assign _ _ _ h := h
  removeStream _ h := h
  closeAllStreams failed h := (congrArg InOrder (Transport.desk_closeAllStreams failed)).mpr h
  dropControl _ := dropControl _

/-! ## Calls that reserve -/

theorem sendData (h : InOrder t.desk) (streamId : ℕ) (data : Bytes) :
    InOrder (t.sendData streamId data).desk := by
  rw [Transport.sendData]
  cases hfind : t.streams.find? streamId with
  | none => exact h
  | some stream =>
    dsimp only
    split
    · exact h
    split
    · exact kept.closeAndRemove (t := t.releasePending data.length 1) h hfind (.failed streamId) rfl
    have haccepted : InOrder (Transport.desk (Transport.note
        { t with streams := t.streams.assign streamId (stream.push data) }
        (.accepted streamId data))) := note h rfl
    refine kept.flushStreams ?_
    rw [Transport.view_markStreamReady]
    split
    · exact haccepted
    · exact haccepted

theorem execute (h : InOrder t.desk) (call : Call) : InOrder (t.execute call).desk := by
  by_cases hitems : call.items = 0
  · exact kept.execute h hitems
  cases call with
  | sendData streamId data => exact h.sendData streamId data
  | webviewPayload generation payload =>
    rw [Transport.execute]
    split
    · exact kept.processRelayPayload h payload
    · exact h
  | _ => exact absurd rfl hitems

theorem reserveItem (h : InOrder t.desk) (call : Call) (own : Bool) :
    InOrder (t.reserveItem call own).desk := by
  rw [Transport.reserveItem]
  split_ifs
  · exact h
  · exact kept.refuse h own call
  · exact h

theorem reserveBytes (h : InOrder t.desk) (index : ℕ) (own : Bool) :
    InOrder (t.reserveBytes index own).desk := by
  rw [Transport.reserveBytes]
  cases t.reserving[index]? with
  | none => exact h
  | some call =>
    dsimp only
    split
    · refine kept.refuse ?_ own call
      exact h
    · exact h

theorem executeNext (h : InOrder t.desk) : InOrder t.executeNext.desk := by
  rw [Transport.executeNext]
  cases t.queue with
  | nil => exact h
  | cons call rest => exact execute (t := { t with queue := rest }) h call

theorem run (events : List Transport.Event) : InOrder (Transport.run events).desk := by
  refine kept.run empty ?_ ?_ ?_ events
  · exact fun t call own h => reserveItem h call own
  · exact fun t index own h => reserveBytes h index own
  · exact fun t h => executeNext h

end InOrder

/-- **Frames in order.**  After every run, the frames that the carrier has got since streams were
last dropped, and then those of the queue, are the frames that were issued since, each once and in
that order; the queue counts its bytes, and stays within its limits. -/
theorem frames_in_order (events : List Transport.Event) :
    let t := Transport.run events
    t.written ++ t.controlFrames = issuedFrames t.log ∧
      t.controlBytes = (t.controlFrames.map fun frame => (frame.size : ℤ)).sum ∧
      t.controlBytes ≤ kMaxPendingControlBytes ∧
      t.controlFrames.length ≤ kMaxPendingControlFrames :=
  have h := InOrder.run events
  ⟨h.order, h.bytes, h.le_bytes, h.le_frames⟩

end WebProxy

end Mtproto

end Yunogram
