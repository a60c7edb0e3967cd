import Yunogram.Mtproto.WebProxySteps

/-!
# Mtproto/WebProxyAccounting — the counters of what is pending

`_pendingBytes` and `_pendingItems` are added to by other threads, in two steps, and subtracted from
in about ten places.  The **books** are balanced when the counters are what calls have reserved,
what is queued and what streams have pending, with so many bytes and items in hand: those of the
call that is executed.  Every move keeps the books balanced whatever is in hand, and `sendData`
spends it; so they are balanced after every run, and no assertion of `releasePending` fails
(`pending_accounting`).
-/

open Machinery

namespace Yunogram

namespace Mtproto

namespace WebProxy

/-- What the counters are about. -/
structure Books where
  streams : FlatMap ℕ Stream
  pendingBytes : ℤ
  pendingItems : ℤ
  asserted : Bool
  reserving : List Call
  queue : List Call

/-- The books of a transport. -/
def Transport.books (t : Transport) : Books :=
  ⟨t.streams, t.pendingBytes, t.pendingItems, t.asserted, t.reserving, t.queue⟩

/-- The items that are pending in a stream. -/
def Stream.items (stream : Stream) : ℤ := stream.pending.length

/-- The books of a view. -/
def View.books (view : View) : Books :=
  ⟨view.streams, view.pendingBytes, view.pendingItems, view.asserted, view.reserving, view.queue⟩

/-- **The books are balanced**, with so many bytes and items in hand. -/
structure Balanced (books : Books) (bytes items : ℤ) : Prop where
  hand : 0 ≤ bytes ∧ 0 ≤ items
  bytes_eq : books.pendingBytes =
    bytes + (books.queue.map Call.bytes).sum + books.streams.total Stream.pendingBytes
  items_eq : books.pendingItems = items + (books.reserving.length
    + (books.queue.map Call.items).sum) + books.streams.total Stream.items
  sound : ∀ streamId stream, books.streams.find? streamId = some stream → stream.Sound
  reserving : ∀ call ∈ books.reserving, 0 < call.bytes
  queued : ∀ call ∈ books.queue, call.items ≠ 0 → 0 < call.bytes
  asserted : books.asserted = false
  le_bytes : books.pendingBytes ≤ kMaxPendingTransportBytes
  le_items : books.pendingItems ≤ kMaxPendingTransportItems

theorem Call.bytes_nonneg (call : Call) : 0 ≤ call.bytes := by
  cases call <;> first | exact le_refl _ | exact Int.natCast_nonneg _

theorem Call.items_nonneg (call : Call) : 0 ≤ call.items := by
  cases call <;> first | exact le_refl _ | exact zero_le_one

theorem Call.items_of_bytes {call : Call} (h : 0 < call.bytes) : call.items = 1 := by
  cases call <;> first | rfl | exact absurd h (lt_irrefl _)

theorem Call.bytes_of_items {call : Call} (h : call.items = 0) : call.bytes = 0 := by
  by_contra hne
  have hone := Call.items_of_bytes (lt_of_le_of_ne call.bytes_nonneg (Ne.symm hne))
  omega

theorem sum_nonneg_of_forall {α : Type} {f : α → ℤ} (h : ∀ a, 0 ≤ f a) (l : List α) :
    0 ≤ (l.map f).sum :=
  List.sum_nonneg (List.forall_mem_map.2 fun a _ => h a)

namespace Balanced

variable {t : Transport} {bytes items : ℤ} {books : Books} {streamId : ℕ} {stream : Stream}

/-! ## Counters -/

theorem streams_nonneg (h : Balanced books bytes items) :
    0 ≤ books.streams.total Stream.pendingBytes ∧ 0 ≤ books.streams.total Stream.items :=
  ⟨FlatMap.total_nonneg fun _ _ hfind => (h.sound _ _ hfind).nonneg,
    FlatMap.total_nonneg fun _ _ _ => Int.natCast_nonneg _⟩

/-- What is in hand may be released. -/
theorem release {bytes' items' : ℤ} (h : Balanced t.books (bytes + bytes') (items + items'))
    (hbytes : 0 ≤ bytes ∧ 0 ≤ bytes') (hitems : 0 ≤ items ∧ 0 ≤ items') :
    Balanced (t.releasePending bytes' items').books bytes items := by
  have hbooks := h.bytes_eq
  have hcount := h.items_eq
  have hqueue := sum_nonneg_of_forall Call.bytes_nonneg t.queue
  have hcalls := sum_nonneg_of_forall Call.items_nonneg t.queue
  have hstreams := h.streams_nonneg
  have hmaxBytes := h.le_bytes
  have hmaxItems := h.le_items
  dsimp only [Transport.books] at hbooks hcount hstreams hmaxBytes hmaxItems
  refine ⟨⟨hbytes.1, hitems.1⟩, ?_, ?_, h.sound, h.reserving, h.queued, ?_, ?_, ?_⟩ <;>
    dsimp only [Transport.books, Transport.releasePending]
  · omega
  · omega
  · have hold : t.asserted = false := h.asserted
    rw [hold, Bool.false_or, Bool.or_eq_false_iff, Bool.or_eq_false_iff, decide_eq_false_iff_not,
      decide_eq_false_iff_not, decide_eq_false_iff_not]
    omega
  · omega
  · omega

/-- A call that reserves nothing is queued. -/
theorem post (h : Balanced t.books bytes items) {call : Call} (hcall : call.items = 0) :
    Balanced (t.post call).books bytes items where
  hand := h.hand
  bytes_eq := by
    have hbooks := h.bytes_eq
    dsimp only [Transport.books, Transport.post] at hbooks ⊢
    rw [List.map_append, List.sum_append, List.map_singleton, List.sum_singleton,
      Call.bytes_of_items hcall]
    omega
  items_eq := by
    have hbooks := h.items_eq
    dsimp only [Transport.books, Transport.post] at hbooks ⊢
    rw [List.map_append, List.sum_append, List.map_singleton, List.sum_singleton, hcall]
    omega
  sound := h.sound
  reserving := h.reserving
  queued := List.forall_mem_append.2
    ⟨h.queued, List.forall_mem_singleton.2 fun hne => absurd hcall hne⟩
  asserted := h.asserted
  le_bytes := h.le_bytes
  le_items := h.le_items

/-! ## Streams -/

/-- Streams that have as much pending. -/
theorem setStreams (h : Balanced t.books bytes items) {streams : FlatMap ℕ Stream}
    {bytes' items' : ℤ} (hhand : 0 ≤ bytes' ∧ 0 ≤ items')
    (hbytes : bytes' + streams.total Stream.pendingBytes =
      bytes + t.streams.total Stream.pendingBytes)
    (hitems : items' + streams.total Stream.items = items + t.streams.total Stream.items)
    (hsound : ∀ streamId stream, streams.find? streamId = some stream → stream.Sound) :
    Balanced (Transport.books { t with streams }) bytes' items' := by
  have hbooks := h.bytes_eq
  have hcount := h.items_eq
  dsimp only [Transport.books] at hbooks hcount
  refine ⟨hhand, ?_, ?_, hsound, h.reserving, h.queued, h.asserted, h.le_bytes, h.le_items⟩ <;>
    dsimp only [Transport.books] <;> omega

/-- A stream is put in the place of one with less or more pending. -/
theorem assign (h : Balanced t.books bytes items) (hfind : t.streams.find? streamId = some stream)
    {stream' : Stream} (hsound : stream'.Sound) {bytes' items' : ℤ}
    (hhand : 0 ≤ bytes' ∧ 0 ≤ items')
    (hbytes : bytes' + stream'.pendingBytes = bytes + stream.pendingBytes)
    (hitems : items' + stream'.items = items + stream.items) :
    Balanced (Transport.books { t with streams := t.streams.assign streamId stream' })
      bytes' items' := by
  refine h.setStreams hhand ?_ ?_ fun key value hvalue => ?_
  · rw [FlatMap.total_assign _ hfind]
    omega
  · rw [FlatMap.total_assign _ hfind]
    omega
  · rw [FlatMap.find?_assign] at hvalue
    split_ifs at hvalue with hkey
    · obtain rfl := Option.some.inj hvalue
      exact hsound
    · exact h.sound key value hvalue

/-- A stream is put in the place of one with the same pending. -/
theorem assign_same (h : Balanced t.books bytes items)
    (hfind : t.streams.find? streamId = some stream) {stream' : Stream}
    (hpending : stream'.pending = stream.pending)
    (hbytes : stream'.pendingBytes = stream.pendingBytes) :
    Balanced (Transport.books { t with streams := t.streams.assign streamId stream' })
      bytes items := by
  have hsound := h.sound streamId stream hfind
  refine h.assign hfind ⟨?_, ?_, ?_, ?_⟩ h.hand (by rw [hbytes])
    (by rw [Stream.items, Stream.items, hpending])
  · rw [hbytes, hsound.bytes, Stream.unsent, Stream.unsent, hpending]
  · rw [hpending]
    exact hsound.offsets
  · exact hbytes.trans_le hsound.le_bytes
  · rw [hpending]
    exact hsound.le_items

/-- A stream is taken out, and what it has pending released. -/
theorem removeStream (h : Balanced t.books bytes items)
    (hfind : t.streams.find? streamId = some stream) :
    Balanced (t.removeStream streamId stream).books bytes items := by
  have hnonneg := (h.sound streamId stream hfind).nonneg
  have hitems : 0 ≤ stream.items := Int.natCast_nonneg _
  have hhand := h.hand
  have herased : Balanced (Transport.books { t with streams := t.streams.erase streamId })
      (bytes + stream.pendingBytes) (items + stream.items) := by
    refine h.setStreams ⟨by omega, by omega⟩ ?_ ?_ fun key value hvalue => ?_
    · rw [FlatMap.total_erase _ hfind]
      omega
    · rw [FlatMap.total_erase _ hfind]
      omega
    · rw [FlatMap.find?_erase] at hvalue
      split_ifs at hvalue
      exact h.sound key value hvalue
  exact release (t := { t with streams := t.streams.erase streamId }.unmarkStreamReady streamId)
    herased ⟨hhand.1, hnonneg⟩ ⟨hhand.2, hitems⟩

end Balanced

/-! ## The carrier keeps the books -/

namespace Transport

variable {t : Transport}

@[simp] theorem books_writeCarrierFrame (frame : Frame) :
    (t.writeCarrierFrame frame).books = t.books := by
  rw [writeCarrierFrame]
  split_ifs
  · rfl
  · cases t.browserSocket <;> rfl

@[simp] theorem books_flushControlFrames : t.flushControlFrames.books = t.books := by
  suffices H : ∀ (frames : List Frame) (t : Transport), (flushControlLoop frames t).books = t.books
    from H t.controlFrames t
  intro frames
  induction frames with
  | nil => exact fun _ => rfl
  | cons frame frames ih =>
    intro t
    rw [flushControlLoop]
    split_ifs
    · rfl
    · rfl
    · exact (ih _).trans (books_writeCarrierFrame frame)

theorem streams_books {t' : Transport} (h : t'.books = t.books) : t'.streams = t.streams :=
  congrArg Books.streams h

/-- What `sendFrame` does to the books: at most a call is queued, that reserves nothing. -/
theorem books_sendFrame (type : FrameType) (streamId : ℕ) (payload : Bytes) :
    (t.sendFrame type streamId payload).books = t.books ∨
      (t.sendFrame type streamId payload).books = (t.post .protocolError).books := by
  rw [sendFrame, queueControlFrame]
  split_ifs
  · exact .inl rfl
  · exact .inl rfl
  · exact .inl (books_writeCarrierFrame _)
  · exact .inr rfl
  · exact .inl rfl

end Transport

/-! ## Every move keeps them balanced -/

namespace Balanced

variable {t : Transport} {bytes items : ℤ} {streamId : ℕ} {stream : Stream}

theorem sendFrame (h : Balanced t.books bytes items) (type : FrameType) (streamId : ℕ)
    (payload : Bytes) : Balanced (t.sendFrame type streamId payload).books bytes items := by
  rcases Transport.books_sendFrame (t := t) type streamId payload with heq | heq
  · rwa [heq]
  · rw [heq]
    exact h.post rfl

/-! ### Data -/

/-- What is sent of a stream is released. -/
theorem sendPending (h : Balanced t.books bytes items)
    (hfind : t.streams.find? streamId = some stream) {front : Pending} {rest : List Pending}
    (hpending : stream.pending = front :: rest) {take : ℕ}
    (hle : front.offset + take ≤ front.data.length) :
    Balanced (t.sendPending streamId stream front rest take).books bytes items := by
  have hhand := h.hand
  have hsound := h.sound streamId stream hfind
  rw [Transport.sendPending]
  generalize hsent : Transport.writeCarrierFrame _ _ = sent
  have hbooks : sent.books = t.books := hsent ▸ Transport.books_writeCarrierFrame _
  have hitems : (stream.pop front rest take).items +
      (if front.offset + take = front.data.length then 1 else 0) = stream.items := by
    rw [Stream.items, Stream.items, hpending, Stream.pop]
    dsimp only
    split_ifs <;> simp
  refine release (t := { sent with streams := _ }) ?_ ⟨hhand.1, Int.natCast_nonneg _⟩
    ⟨hhand.2, by split_ifs <;> decide⟩
  refine assign (hbooks ▸ h) (Transport.streams_books hbooks ▸ hfind) (hsound.pop hpending hle)
    ⟨by omega, by split_ifs <;> omega⟩ ?_ (by omega)
  show bytes + take + (stream.pendingBytes - take) = _
  omega

theorem flushStream (h : Balanced t.books bytes items) (streamId : ℕ) :
    Balanced (t.flushStream streamId).books bytes items := by
  obtain heq | ⟨stream, front, rest, hfind, hpending, -, -, -, -, -, heq⟩ :=
    t.flushStream_cases streamId
  · rwa [heq]
  · have hoffset := (h.sound streamId stream hfind).offsets front (hpending ▸ List.mem_cons_self)
    rw [heq]
    exact h.sendPending hfind hpending (Transport.flushTake_le hoffset.le)

/-- Streams are released one after another, what they have pending being in hand. -/
theorem closeAllStreams (h : Balanced t.books bytes items) (failed : Bool) :
    Balanced (t.closeAllStreams failed).books bytes items := by
  have hhand := h.hand
  suffices H : ∀ (entries : List (ℕ × Stream)) (t : Transport),
      (∀ entry ∈ entries, 0 ≤ entry.2.pendingBytes) →
      Balanced t.books (bytes + (entries.map fun entry => entry.2.pendingBytes).sum)
        (items + (entries.map fun entry => entry.2.items).sum) →
      Balanced (entries.foldl (fun t entry => (t.releaseStream entry.2).note
        (if failed then .failed entry.1 else .disconnected entry.1)) t).books bytes items by
    have hnonneg := h.streams_nonneg
    refine H t.streams.entries _ (fun entry hentry => ?_) ?_
    · exact (h.sound entry.1 entry.2 (FlatMap.find?_eq_some.2 hentry)).nonneg
    · refine setStreams (t := { t with readyStreams := [], readySet := ∅ }) h
        ⟨add_nonneg hhand.1 hnonneg.1, add_nonneg hhand.2 hnonneg.2⟩ ?_ ?_
        fun key value hvalue => ?_
      · exact add_zero _
      · exact add_zero _
      · cases hvalue
  intro entries
  induction entries with
  | nil => exact fun t _ h => by simpa using h
  | cons entry entries ih =>
    intro t hnonneg h
    rw [List.forall_mem_cons] at hnonneg
    rw [List.map_cons, List.sum_cons, List.map_cons, List.sum_cons, ← add_assoc, ← add_assoc,
      add_right_comm bytes, add_right_comm items] at h
    have hbytes : 0 ≤ (entries.map fun entry => entry.2.pendingBytes).sum :=
      List.sum_nonneg (List.forall_mem_map.2 hnonneg.2)
    have hitems : 0 ≤ (entries.map fun entry => entry.2.items).sum :=
      sum_nonneg_of_forall (fun _ => Int.natCast_nonneg _) entries
    exact ih _ hnonneg.2 (h.release ⟨add_nonneg hhand.1 hbytes, hnonneg.1⟩
      ⟨add_nonneg hhand.2 hitems, Int.natCast_nonneg _⟩)

/-- A stream is new, and has nothing pending. -/
theorem emplace (h : Balanced t.books bytes items) (hnone : t.streams.find? streamId = none) :
    Balanced (Transport.books { t with streams := t.streams.emplace streamId {} }) bytes items := by
  refine h.setStreams h.hand ?_ ?_ fun key value hvalue => ?_
  · rw [FlatMap.total_emplace _ hnone]
    exact congrArg (bytes + ·) (zero_add _)
  · rw [FlatMap.total_emplace _ hnone]
    exact congrArg (items + ·) (zero_add _)
  · rw [FlatMap.find?_emplace_of_none hnone] at hvalue
    split_ifs at hvalue
    · obtain rfl := Option.some.inj hvalue
      exact Stream.sound_new
    · exact h.sound key value hvalue

/-- **Every move keeps the books balanced**, whatever is in hand. -/
theorem kept (bytes items : ℤ) : Kept fun view => Balanced view.books bytes items where
  note _ h := h
  post hcall h := post h hcall
  sendFrame type streamId payload h := sendFrame h type streamId payload
  flushControlFrames h := (congrArg (Balanced · bytes items)
    Transport.books_flushControlFrames).mpr h
  flushStream streamId _ h := flushStream h streamId
  emplace hnone h := emplace h hnone
  assign hfind hpending hbytes h := assign_same h hfind hpending hbytes
  removeStream hfind h := removeStream h hfind
  closeAllStreams failed h := closeAllStreams h failed
  dropControl h := h

/-! ### Calls that are executed -/

/-- **`sendData` spends what is reserved for it**, in every case. -/
theorem sendData {data : Bytes} (h : Balanced t.books (bytes + data.length) (items + 1))
    (hhand : 0 ≤ bytes ∧ 0 ≤ items) (hdata : data ≠ []) (streamId : ℕ) :
    Balanced (t.sendData streamId data).books bytes items := by
  have hlength : (0 : ℤ) ≤ data.length := Int.natCast_nonneg _
  have hreleased : Balanced (t.releasePending data.length 1).books bytes items :=
    h.release ⟨hhand.1, hlength⟩ ⟨hhand.2, zero_le_one⟩
  have hempty : data.isEmpty = false := by simpa using hdata
  rw [Transport.sendData]
  cases hfind : t.streams.find? streamId with
  | none =>
    dsimp only
    rwa [if_neg (by simp [hempty])]
  | some stream =>
    dsimp only
    rw [if_neg (by simp [hempty])]
    split
    · exact (kept bytes items).closeAndRemove (t := t.releasePending data.length 1) hreleased hfind
        (.failed streamId) rfl
    next hroom =>
    rw [not_or, not_lt, not_and, ge_iff_le, not_le] at hroom
    refine (kept bytes items).flushStreams ?_
    rw [Transport.view_markStreamReady]
    have hsound := (h.sound streamId stream hfind).push hdata hroom.1 hroom.2
    have hitems : (stream.push data).items =
        stream.items + if stream.coalesces data then 0 else 1 := by
      rw [Stream.items, Stream.length_push, Stream.items]
      split_ifs <;> simp
    split
    next hcoalesce =>
      rw [if_pos hcoalesce] at hitems
      refine release (t := Transport.note { t with streams := _ } _) ?_ ⟨hhand.1, le_refl _⟩
        ⟨hhand.2, zero_le_one⟩
      refine h.assign hfind hsound ⟨by omega, by omega⟩ ?_ (by omega)
      show bytes + 0 + (stream.pendingBytes + data.length) = _
      omega
    next hcoalesce =>
      rw [if_neg hcoalesce] at hitems
      refine h.assign hfind hsound hhand ?_ (by omega)
      show bytes + (stream.pendingBytes + data.length) = _
      omega

/-! ### Calls of other threads -/

theorem reserveItem (h : Balanced t.books bytes items) (call : Call) (own : Bool) :
    Balanced (t.reserveItem call own).books bytes items := by
  have hcount := h.items_eq
  rw [Transport.reserveItem]
  split_ifs with hbytes hfull
  · exact h
  · exact (kept bytes items).refuse h own call
  · refine ⟨h.hand, h.bytes_eq, ?_, h.sound, List.forall_mem_append.2 ⟨h.reserving,
      List.forall_mem_singleton.2 (not_le.1 hbytes)⟩, h.queued, h.asserted, h.le_bytes, ?_⟩ <;>
      dsimp only [Transport.books] at hcount ⊢
    · rw [List.length_append, List.length_singleton]
      omega
    · omega

/-- The books without a call that has got an item. -/
theorem takeReserving (h : Balanced t.books bytes items) {index : ℕ} {call : Call}
    (hcall : t.reserving[index]? = some call) :
    0 < call.bytes ∧ Balanced (Transport.books { t with
      reserving := t.reserving.eraseIdx index }) bytes (items + 1) := by
  obtain ⟨hlt, hget⟩ := List.getElem?_eq_some_iff.1 hcall
  have hcount := h.items_eq
  have hhand := h.hand
  refine ⟨h.reserving call (List.mem_of_getElem? hcall), ⟨hhand.1, by omega⟩, h.bytes_eq, ?_,
    h.sound, fun other hother => h.reserving other (List.mem_of_mem_eraseIdx hother), h.queued,
    h.asserted, h.le_bytes, h.le_items⟩
  dsimp only [Transport.books] at hcount ⊢
  rw [List.length_eraseIdx_of_lt hlt]
  omega

theorem reserveBytes (h : Balanced t.books bytes items) (index : ℕ) (own : Bool) :
    Balanced (t.reserveBytes index own).books bytes items := by
  have hhand := h.hand
  rw [Transport.reserveBytes]
  cases hcall : t.reserving[index]? with
  | none => exact h
  | some call =>
    obtain ⟨hbytes, htaken⟩ := h.takeReserving hcall
    have hbooks := htaken.bytes_eq
    have hcount := htaken.items_eq
    have hmaxItems := htaken.le_items
    dsimp only
    split
    next hfull =>
      refine (kept bytes items).refuse ?_ own call
      refine ⟨hhand, hbooks, ?_, htaken.sound, htaken.reserving, htaken.queued, htaken.asserted,
        htaken.le_bytes, ?_⟩
      all_goals
        dsimp only [View.books, Transport.view, Transport.books] at hcount hmaxItems ⊢
        omega
    next hroom =>
      refine ⟨hhand, ?_, ?_, htaken.sound, htaken.reserving, List.forall_mem_append.2
        ⟨htaken.queued, List.forall_mem_singleton.2 fun _ => hbytes⟩, htaken.asserted, ?_,
        hmaxItems⟩
      all_goals dsimp only [Transport.books, Transport.post] at hcount hbooks ⊢
      · rw [List.map_append, List.sum_append, List.map_singleton, List.sum_singleton]
        omega
      · rw [List.map_append, List.sum_append, List.map_singleton, List.sum_singleton,
          Call.items_of_bytes hbytes]
        omega
      · omega

/-- A call spends what is in hand for it. -/
theorem execute {call : Call} (h : Balanced t.books (bytes + call.bytes) (items + call.items))
    (hhand : 0 ≤ bytes ∧ 0 ≤ items) (hcall : call.items ≠ 0 → 0 < call.bytes) :
    Balanced (t.execute call).books bytes items := by
  by_cases hitems : call.items = 0
  · rw [Call.bytes_of_items hitems, hitems, add_zero, add_zero] at h
    exact (kept bytes items).execute h hitems
  cases call with
  | sendData streamId data =>
    refine h.sendData hhand (fun hnil => ?_) streamId
    have hpos := hcall one_ne_zero
    rw [hnil] at hpos
    exact absurd hpos (lt_irrefl _)
  | webviewPayload generation payload =>
    refine release ?_ ⟨hhand.1, Int.natCast_nonneg _⟩ ⟨hhand.2, zero_le_one⟩
    split
    · exact (kept _ _).processRelayPayload h payload
    · exact h
  | _ => exact absurd rfl hitems

theorem executeNext (h : Balanced t.books bytes items) :
    Balanced t.executeNext.books bytes items := by
  have hhand := h.hand
  have hbooks := h.bytes_eq
  have hcount := h.items_eq
  have hqueued := h.queued
  rw [Transport.executeNext]
  cases hqueue : t.queue with
  | nil => exact h
  | cons call rest =>
    dsimp only [Transport.books] at hbooks hcount hqueued
    rw [hqueue, List.map_cons, List.sum_cons] at hbooks hcount
    rw [hqueue, List.forall_mem_cons] at hqueued
    have hbytes := call.bytes_nonneg
    have hitems := call.items_nonneg
    refine execute (t := { t with queue := rest }) ⟨⟨by omega, by omega⟩, ?_, ?_, h.sound,
      h.reserving, hqueued.2, h.asserted, h.le_bytes, h.le_items⟩ hhand hqueued.1
    all_goals
      dsimp only [Transport.books]
      omega

theorem run (events : List Transport.Event) : Balanced (Transport.run events).books 0 0 := by
  refine (kept 0 0).run ⟨⟨le_refl _, le_refl _⟩, rfl, rfl, fun _ _ h => (by cases h),
    fun _ h => absurd h List.not_mem_nil, fun _ h => absurd h List.not_mem_nil, rfl, by decide,
    by decide⟩ ?_ ?_ ?_ events
  · exact fun t call own h => reserveItem h call own
  · exact fun t index own h => reserveBytes h index own
  · exact fun t h => executeNext h

end Balanced

/-- **Pending accounting.**  After every run, with the calls of other threads interleaved in any
way: the bytes that are counted are those of the calls that are queued and those that streams have
pending, and the items are these and those of the calls that are reserving; a stream has counted the
bytes it has not sent, each of its items has some, and nothing is over its limit; and no assertion
of `releasePending` has failed.  So the counters are zero when nothing is reserved, queued or
pending. -/
theorem pending_accounting (events : List Transport.Event) :
    let t := Transport.run events
    t.pendingBytes = (t.queue.map Call.bytes).sum + t.streams.total Stream.pendingBytes ∧
      t.pendingItems = t.reserving.length + (t.queue.map Call.items).sum
        + t.streams.total Stream.items ∧
      (∀ streamId stream, t.streams.find? streamId = some stream →
        stream.pendingBytes = stream.unsent.length ∧
        (∀ item ∈ stream.pending, item.offset < item.data.length) ∧
        stream.pendingBytes ≤ kMaxPendingStreamBytes ∧
        stream.pending.length ≤ kMaxPendingStreamItems) ∧
      t.pendingBytes ≤ kMaxPendingTransportBytes ∧ t.pendingItems ≤ kMaxPendingTransportItems ∧
      t.asserted = false ∧
      ((∀ call ∈ t.queue, call.items = 0) → t.reserving = [] → t.streams.entries = [] →
        t.pendingBytes = 0 ∧ t.pendingItems = 0) := by
  intro t
  have h : Balanced t.books 0 0 := Balanced.run events
  have hbytes : t.pendingBytes =
      (t.queue.map Call.bytes).sum + t.streams.total Stream.pendingBytes :=
    h.bytes_eq.trans (by rw [zero_add]; rfl)
  have hitems : t.pendingItems = t.reserving.length + (t.queue.map Call.items).sum
      + t.streams.total Stream.items := h.items_eq.trans (by rw [zero_add]; rfl)
  refine ⟨hbytes, hitems, fun streamId stream hfind => ?_, h.le_bytes, h.le_items, h.asserted,
    fun hqueue hreserving hstreams => ?_⟩
  · have hsound := h.sound streamId stream hfind
    exact ⟨hsound.bytes, hsound.offsets, hsound.le_bytes, hsound.le_items⟩
  · have hcalls : (t.queue.map Call.items).sum = 0 :=
      List.sum_eq_zero (List.forall_mem_map.2 hqueue)
    have hsizes : (t.queue.map Call.bytes).sum = 0 :=
      List.sum_eq_zero (List.forall_mem_map.2 fun call hcall =>
        Call.bytes_of_items (hqueue call hcall))
    rw [hbytes, hitems, hcalls, hsizes, hreserving, FlatMap.total, FlatMap.total, hstreams]
    exact ⟨rfl, rfl⟩

end WebProxy

end Mtproto

end Yunogram
