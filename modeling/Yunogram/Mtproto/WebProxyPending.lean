import Yunogram.Mtproto.WebProxyTransport

/-!
# Mtproto/WebProxyPending — what a stream has pending

A stream keeps what it is to send as items, the first of which may be sent in part.  `unsent` are
the bytes; `push` and `pop` are what `sendData` and `flushStream` do to them.  A stream is **sound**
when the bytes are counted, each item has something to send, and there is not more than is allowed.
-/

open Machinery

namespace Yunogram

namespace Mtproto

namespace WebProxy

/-! ## Bytes that are not sent -/

/-- The bytes of a pending item that are not sent. -/
def Pending.unsent (pending : Pending) : Bytes := pending.data.drop pending.offset

/-- The bytes of a stream that are not sent. -/
def Stream.unsent (stream : Stream) : Bytes := stream.pending.flatMap Pending.unsent

/-- What a stream has pending is counted, each item has something to send, and there is not more
than a stream may have. -/
structure Stream.Sound (stream : Stream) : Prop where
  bytes : stream.pendingBytes = stream.unsent.length
  offsets : ∀ item ∈ stream.pending, item.offset < item.data.length
  le_bytes : stream.pendingBytes ≤ kMaxPendingStreamBytes
  le_items : stream.pending.length ≤ kMaxPendingStreamItems

theorem Stream.Sound.nonneg {stream : Stream} (h : stream.Sound) : 0 ≤ stream.pendingBytes :=
  h.bytes ▸ Int.natCast_nonneg _

theorem Stream.sound_new : Stream.Sound {} :=
  ⟨rfl, fun _ h => absurd h List.not_mem_nil, by decide, by decide⟩

theorem appendLast_concat (front : List Pending) (back : Pending) (data : Bytes) :
    appendLast (front ++ [back]) data = front ++ [{ back with data := back.data ++ data }] := by
  induction front with
  | nil => rfl
  | cons item front ih =>
    rw [List.cons_append, List.cons_append, ← ih]
    cases front <;> rfl

/-- When data is appended, there is an item for it, nothing of which is sent. -/
theorem Stream.coalesces_iff {stream : Stream} {data : Bytes} :
    stream.coalesces data = true ↔ ∃ front back, stream.pending = front ++ [back]
      ∧ back.offset = 0 ∧ back.data.length + data.length ≤ kDataFrameSize := by
  rw [Stream.coalesces]
  rcases List.eq_nil_or_concat stream.pending with hnil | ⟨front, back, hback⟩
  · simp [hnil]
  · rw [hback, List.concat_eq_append, List.getLast?_concat]
    constructor
    · intro h
      rw [Bool.and_eq_true, decide_eq_true_eq, decide_eq_true_eq] at h
      exact ⟨front, back, rfl, h⟩
    · rintro ⟨front', back', heq, h⟩
      obtain ⟨-, rfl⟩ := List.append_inj' heq rfl |>.imp id List.singleton_inj.1
      rwa [Bool.and_eq_true, decide_eq_true_eq, decide_eq_true_eq]

theorem Stream.unsent_push (stream : Stream) (data : Bytes) :
    (stream.push data).unsent = stream.unsent ++ data := by
  rw [Stream.push, Stream.unsent, Stream.unsent]
  split_ifs with hcoalesce
  · obtain ⟨front, back, hback, hoffset, -⟩ := Stream.coalesces_iff.1 hcoalesce
    simp only [hback, appendLast_concat, List.flatMap_append, List.flatMap_singleton,
      Pending.unsent, hoffset, List.drop_zero, List.append_assoc]
  · simp only [List.flatMap_append, List.flatMap_singleton, Pending.unsent, List.drop_zero]

theorem Stream.length_push (stream : Stream) (data : Bytes) :
    (stream.push data).pending.length =
      stream.pending.length + if stream.coalesces data then 0 else 1 := by
  rw [Stream.push]
  dsimp only
  split_ifs with hcoalesce
  · obtain ⟨front, back, hback, -⟩ := Stream.coalesces_iff.1 hcoalesce
    rw [hback, appendLast_concat, List.length_append, List.length_append]
    rfl
  · rw [List.length_append, List.length_singleton]

theorem Stream.offsets_push {stream : Stream}
    (h : ∀ item ∈ stream.pending, item.offset < item.data.length) {data : Bytes}
    (hdata : data ≠ []) :
    ∀ item ∈ (stream.push data).pending, item.offset < item.data.length := by
  intro item hitem
  have hlength := List.length_pos_of_ne_nil hdata
  rw [Stream.push] at hitem
  dsimp only at hitem
  split_ifs at hitem with hcoalesce
  · obtain ⟨front, back, hback, hoffset, -⟩ := Stream.coalesces_iff.1 hcoalesce
    rw [hback, appendLast_concat, List.mem_append, List.mem_singleton] at hitem
    rcases hitem with hfront | rfl
    · exact h item (hback ▸ List.mem_append_left _ hfront)
    · rw [List.length_append, hoffset]
      omega
  · rw [List.mem_append, List.mem_singleton] at hitem
    rcases hitem with hold | rfl
    · exact h item hold
    · exact hlength

theorem Stream.Sound.push {stream : Stream} (h : stream.Sound) {data : Bytes} (hdata : data ≠ [])
    (hbytes : stream.pendingBytes + data.length ≤ kMaxPendingStreamBytes)
    (hitems : stream.coalesces data = false → stream.pending.length < kMaxPendingStreamItems) :
    (stream.push data).Sound where
  bytes := by
    rw [Stream.unsent_push, List.length_append, Nat.cast_add, ← h.bytes]
    rfl
  offsets := Stream.offsets_push h.offsets hdata
  le_bytes := hbytes
  le_items := by
    rw [Stream.length_push]
    cases hcoalesce : stream.coalesces data with
    | true => exact h.le_items
    | false => exact hitems hcoalesce

theorem Stream.unsent_pop {stream : Stream} {front : Pending} {rest : List Pending} (take : ℕ)
    (hpending : stream.pending = front :: rest) :
    stream.unsent = slice front.data front.offset take ++ (stream.pop front rest take).unsent := by
  have hslice : front.unsent =
      slice front.data front.offset take ++ front.data.drop (front.offset + take) := by
    rw [Pending.unsent, slice, ← List.drop_drop, List.take_append_drop]
  rw [Stream.unsent, Stream.unsent, Stream.pop, hpending, List.flatMap_cons, hslice]
  dsimp only
  split_ifs with hdone
  · rw [hdone, List.drop_length, List.append_nil]
  · rw [List.flatMap_cons, List.append_assoc]
    rfl

theorem Stream.offsets_pop {stream : Stream}
    (h : ∀ item ∈ stream.pending, item.offset < item.data.length) {front : Pending}
    {rest : List Pending} {take : ℕ} (hpending : stream.pending = front :: rest)
    (hle : front.offset + take ≤ front.data.length) :
    ∀ item ∈ (stream.pop front rest take).pending, item.offset < item.data.length := by
  intro item hitem
  rw [hpending, List.forall_mem_cons] at h
  rw [Stream.pop] at hitem
  dsimp only at hitem
  split_ifs at hitem with hdone
  · exact h.2 item hitem
  · rcases List.mem_cons.1 hitem with rfl | hrest
    · exact lt_of_le_of_ne hle hdone
    · exact h.2 item hrest

theorem Stream.Sound.pop {stream : Stream} (h : stream.Sound) {front : Pending}
    {rest : List Pending} {take : ℕ} (hpending : stream.pending = front :: rest)
    (hle : front.offset + take ≤ front.data.length) : (stream.pop front rest take).Sound where
  bytes := by
    have hlength := congrArg List.length (Stream.unsent_pop take hpending)
    rw [List.length_append, slice, List.length_take, List.length_drop, min_eq_left (by omega)]
      at hlength
    have hbytes := h.bytes
    show stream.pendingBytes - take = _
    omega
  offsets := Stream.offsets_pop h.offsets hpending hle
  le_bytes := (Int.sub_le_self _ (Int.natCast_nonneg _)).trans h.le_bytes
  le_items := by
    have hitems := h.le_items
    rw [hpending, List.length_cons] at hitems
    rw [Stream.pop]
    dsimp only
    split_ifs
    · omega
    · rwa [List.length_cons]

namespace Transport

variable {t : Transport}

/-! ## `sendFrame` -/

theorem streams_writeCarrierFrame (frame : Frame) :
    (t.writeCarrierFrame frame).streams = t.streams := by
  rw [writeCarrierFrame]
  split_ifs
  · rfl
  · cases t.browserSocket <;> rfl

theorem streams_sendFrame (type : FrameType) (streamId : ℕ) (payload : Bytes) :
    (t.sendFrame type streamId payload).streams = t.streams := by
  rw [sendFrame, queueControlFrame]
  split_ifs
  · rfl
  · rfl
  · exact streams_writeCarrierFrame _
  · rfl
  · rfl

theorem streams_openStream (streamId : ℕ) (stream : Stream) :
    (t.openStream streamId stream).streams =
      t.streams.assign streamId { stream with opened := true } :=
  streams_sendFrame .open streamId []

theorem streams_markStreamReady (streamId : ℕ) :
    (t.markStreamReady streamId).streams = t.streams := by
  rw [markStreamReady]
  cases t.streams.find? streamId with
  | none => rfl
  | some stream =>
    dsimp only
    split_ifs <;> rfl

/-! ## `flushStream` -/

theorem flushTake_le {stream : Stream} {front : Pending}
    (h : front.offset ≤ front.data.length) :
    front.offset + t.flushTake stream front ≤ front.data.length := by
  rw [flushTake]
  omega

theorem flushTake_pos {stream : Stream} {front : Pending} (hwindow : stream.sendWindow ≠ 0)
    (hoffset : front.offset < front.data.length)
    (hallowance : kFrameHeaderSize + 10 < t.localAllowance) : 0 < t.flushTake stream front := by
  rw [flushTake, kDataFrameSize]
  omega

/-- Something is sent of a stream, or nothing happens. -/
theorem flushStream_cases (t : Transport) (streamId : ℕ) :
    t.flushStream streamId = t ∨ ∃ stream front rest,
      t.streams.find? streamId = some stream ∧ stream.pending = front :: rest ∧
      stream.opened = true ∧ stream.sendWindow ≠ 0 ∧
      t.carrierAvailable = true ∧ t.browserWriteFailed = false ∧
      kFrameHeaderSize + 10 < t.localAllowance ∧
      t.flushStream streamId =
        t.sendPending streamId stream front rest (t.flushTake stream front) := by
  rw [flushStream]
  cases hfind : t.streams.find? streamId with
  | none => exact .inl rfl
  | some stream =>
    dsimp only
    by_cases hclosed : (!stream.opened || !t.carrierAvailable) = true
    · exact .inl (if_pos hclosed)
    rw [if_neg hclosed]
    rw [Bool.not_eq_true, Bool.or_eq_false_iff, Bool.not_eq_false', Bool.not_eq_false'] at hclosed
    cases hpending : stream.pending with
    | nil => exact .inl rfl
    | cons front rest =>
      dsimp only
      split_ifs with hwindow hfull
      · exact .inl rfl
      · exact .inl rfl
      · rw [Bool.not_eq_true, Bool.or_eq_false_iff, beq_eq_false_iff_ne] at hwindow
        exact .inr ⟨stream, front, rest, rfl, hpending, hclosed.1, hwindow.1, hclosed.2,
          hwindow.2, not_le.1 fun hle => hfull (.inl hle), rfl⟩

end Transport

end WebProxy

end Mtproto

end Yunogram
