import Yunogram.Mtproto.TcpConnection

/-!
# Mtproto/TcpReassembly — the reads of a socket do not matter

However the socket cuts the stream into reads, `TcpConnection` hands over the packets of the whole
stream (`reassembly`), and no assertion or buffer bound is broken on the way.

Between two reads the connection holds the bytes that are not a packet yet (`Waiting`): either they
are too few to know the size, and there is room behind them in the small buffer, or the size is known
and exactly the missing bytes fit behind them.
-/

open Machinery

namespace Yunogram

namespace Mtproto

namespace TcpConnection

/-- The bytes that were read and are not handed over lie at `_offsetBytes` of the buffer in use. -/
structure Buffered (s : TcpConnection) (rest : Bytes) : Prop where
  small : s.smallBuffer.length = kSmallBufferSize
  large : s.usingLargeBuffer = false → s.largeBuffer = []
  readBytes : s.readBytes = rest.length
  inside : s.offsetBytes + s.readBytes ≤ s.buffer.length
  holds : slice s.buffer s.offsetBytes s.readBytes = rest

/-- **The state between two reads.** -/
structure Waiting (p : Protocol) (s : TcpConnection) (rest : Bytes) : Prop
    extends Buffered s rest where
  idle : s.leftBytes = 0 → s.usingLargeBuffer = false ∧
    s.offsetBytes + kMinPacketBuffer ≤ kSmallBufferSize ∧
    p.readPacketLength rest = Protocol.kUnknownSize
  missing : 0 < s.leftBytes → p.readPacketLength rest = (s.readBytes + s.leftBytes : ℕ) ∧
    s.offsetBytes + s.readBytes + s.leftBytes ≤ s.buffer.length

variable {peer : TcpPeer} {s : TcpConnection} {rest : Bytes}

theorem buffer_small (h : s.usingLargeBuffer = false) : s.buffer = s.smallBuffer := by
  rw [buffer, h]
  rfl

/-! ## Room for a packet -/

/-- The bytes moved to the front of the small buffer. -/
def movedToFront (s : TcpConnection) (bytes : Bytes) : TcpConnection :=
  { s with smallBuffer := overwrite s.smallBuffer 0 bytes, offsetBytes := 0 }

/-- The bytes moved to a large buffer of this size. -/
def movedToLarge (s : TcpConnection) (bytes : Bytes) (amount : ℕ) : TcpConnection :=
  { s with
    largeBuffer := overwrite (List.replicate amount 0) 0 bytes
    usingLargeBuffer := true
    offsetBytes := 0 }

theorem buffer_movedToFront (h : s.usingLargeBuffer = false) (bytes : Bytes) :
    (s.movedToFront bytes).buffer = overwrite s.smallBuffer 0 bytes :=
  buffer_small (s := s.movedToFront bytes) h

theorem length_buffer_movedToLarge {bytes : Bytes} {amount : ℕ} (h : bytes.length ≤ amount) :
    (s.movedToLarge bytes amount).buffer.length = amount := by
  show (overwrite (List.replicate amount (0 : UInt8)) 0 bytes).length = amount
  rw [length_overwrite (by rw [List.length_replicate]; omega), List.length_replicate]

/-- Bytes moved to the front of the small buffer. -/
theorem Buffered.moved (h : Buffered s rest) (hl : s.usingLargeBuffer = false) :
    Buffered (s.movedToFront rest) rest := by
  have hin := h.inside
  have hr := h.readBytes
  rw [buffer_small hl] at hin
  have hlen : (overwrite s.smallBuffer 0 rest).length = s.smallBuffer.length :=
    length_overwrite (by omega)
  refine ⟨hlen.trans h.small, h.large, hr, ?_, ?_⟩
  · rw [buffer_movedToFront hl, hlen]
    show 0 + s.readBytes ≤ _
    omega
  · rw [buffer_movedToFront hl]
    show slice _ 0 s.readBytes = rest
    rw [hr, slice_overwrite_start]

/-- Bytes moved to a large buffer. -/
theorem Buffered.enlarged (h : Buffered s rest) {amount : ℕ} (hn : rest.length ≤ amount) :
    Buffered (s.movedToLarge rest amount) rest := by
  have hr := h.readBytes
  refine ⟨h.small, fun hf => absurd hf Bool.noConfusion, hr, ?_, ?_⟩
  · rw [length_buffer_movedToLarge hn]
    show 0 + s.readBytes ≤ amount
    omega
  · show slice (overwrite (List.replicate amount 0) 0 rest) 0 s.readBytes = rest
    rw [hr, slice_overwrite_start]

/-- **What `ensureAvailableInBuffer` can do** when the small buffer is in use: nothing, when there is
room; move the bytes to the front; or move them to a large buffer. -/
theorem ensureAvailableInBuffer_cases (h : Buffered s rest) (hl : s.usingLargeBuffer = false)
    (amount : ℕ) :
    (s.offsetBytes + amount ≤ kSmallBufferSize ∧ s.ensureAvailableInBuffer amount = .ok s) ∨
    (kSmallBufferSize < s.offsetBytes + amount ∧ amount ≤ kSmallBufferSize ∧
      s.ensureAvailableInBuffer amount = .ok (s.movedToFront rest)) ∨
    (kSmallBufferSize < amount ∧
      s.ensureAvailableInBuffer amount = .ok (s.movedToLarge rest amount)) := by
  have hb := buffer_small hl
  have hin := h.inside
  have hholds := h.holds
  rw [hb] at hin hholds
  have hfull : subspan s.buffer s.offsetBytes (s.buffer.length - s.offsetBytes)
      = .ok (slice s.smallBuffer s.offsetBytes (s.smallBuffer.length - s.offsetBytes)) := by
    rw [hb, subspan_ok (by omega)]
  have hlen : (slice s.smallBuffer s.offsetBytes (s.smallBuffer.length - s.offsetBytes)).length
      = s.smallBuffer.length - s.offsetBytes := length_slice (by omega)
  have hread : subspan (slice s.smallBuffer s.offsetBytes (s.smallBuffer.length - s.offsetBytes)) 0
      s.readBytes = .ok rest := by
    rw [subspan_ok (by omega), slice, List.drop_zero, take_slice (by omega), hholds]
  have hsmall := h.small
  have hrest := h.readBytes
  rw [ensureAvailableInBuffer, hfull]
  simp only [ok_bind, hlen, hread]
  by_cases h1 : s.offsetBytes + amount ≤ kSmallBufferSize
  · exact Or.inl ⟨h1, if_pos (by omega)⟩
  · rw [if_neg (by omega)]
    by_cases h2 : amount ≤ kSmallBufferSize
    · refine Or.inr (Or.inl ⟨not_le.mp h1, h2, ?_⟩)
      rw [if_pos (by omega), copy_ok (by omega), ok_bind, if_neg (by rw [hl]; decide)]
      rfl
    · refine Or.inr (Or.inr ⟨not_le.mp h2, ?_⟩)
      rw [if_neg (by omega), h.large hl, if_neg (by rw [List.length_nil]; omega),
        copy_ok (by rw [List.length_replicate]; omega), ok_bind]
      rfl

/-! ## Cutting packets off -/

/-- The connection is where splitting the stream got to. -/
structure Reads (peer : TcpPeer) (s : TcpConnection) (r : Split UInt8) : Prop where
  packets : s.packets = r.frames
  waiting : ∀ rest, r.status = .waiting rest → s.status = .reading ∧ Waiting peer.protocol s rest
  failed : r.status = .failed → s.status = .failed
  closed : r.status = .closed → s.status = .closed

theorem Reads.of_waiting {rest : Bytes} (h : s.status = .reading)
    (hw : Waiting peer.protocol s rest) : Reads peer s ⟨s.packets, .waiting rest⟩ where
  packets := rfl
  waiting := fun rest' hr => by
    obtain rfl := SplitStatus.waiting.inj hr
    exact ⟨h, hw⟩
  failed := fun hr => by cases hr
  closed := fun hr => by cases hr

theorem Reads.of_failed (h : s.status = .failed) : Reads peer s ⟨s.packets, .failed⟩ where
  packets := rfl
  waiting := fun rest' hr => by cases hr
  failed := fun _ => h
  closed := fun hr => by cases hr

theorem Reads.of_closed (h : s.status = .closed) : Reads peer s ⟨s.packets, .closed⟩ where
  packets := rfl
  waiting := fun rest' hr => by cases hr
  failed := fun hr => by cases hr
  closed := fun _ => h

theorem socketPacket_keeps {bytes : Bytes} (h : peer.keeps (s.packets ++ [bytes])) :
    s.socketPacket peer bytes = { s with packets := s.packets ++ [bytes] } := if_pos h

theorem socketPacket_closes {bytes : Bytes} (h : ¬ peer.keeps (s.packets ++ [bytes])) :
    s.socketPacket peer bytes =
      { s with packets := s.packets ++ [bytes], status := .closed } := if_neg h

/-- The bytes behind a packet that was cut off. -/
theorem Buffered.drop (h : Buffered s rest) {n : ℕ} (hn : n ≤ rest.length)
    (packets : List Bytes) :
    Buffered { s with
      packets := packets, offsetBytes := s.offsetBytes + n, readBytes := s.readBytes - n }
      (rest.drop n) where
  small := h.small
  large := h.large
  readBytes := by rw [List.length_drop, h.readBytes]
  inside := by
    have := h.inside
    have := h.readBytes
    show s.offsetBytes + n + (s.readBytes - n) ≤ s.buffer.length
    omega
  holds := by
    show slice s.buffer (s.offsetBytes + n) (s.readBytes - n) = rest.drop n
    rw [← drop_slice, h.holds]

/-- A packet whose size is known and that is not complete is waited for. -/
theorem reads_missing {n : ℕ} (hb : Buffered s rest) (hs : s.status = .reading)
    (hsize : peer.protocol.readPacketLength rest = n) (hn : rest.length < n)
    (hleft : s.leftBytes = n - rest.length) (hroom : s.offsetBytes + n ≤ s.buffer.length) :
    Reads peer s ⟨s.packets, .waiting rest⟩ := by
  have hr := hb.readBytes
  refine Reads.of_waiting hs ⟨hb, fun h0 => absurd h0 (by omega), fun _ => ⟨?_, by omega⟩⟩
  rw [hsize]
  congr 1
  omega

theorem ensure_missing (h : Buffered s rest) (hl : s.usingLargeBuffer = false)
    (hs : s.status = .reading) {n : ℕ} (hsize : peer.protocol.readPacketLength rest = n)
    (hn : rest.length < n) (hleft : s.leftBytes = n - rest.length) :
    ∃ s', s.ensureAvailableInBuffer n = .ok s' ∧
      Reads peer s' ⟨s.packets, .waiting rest⟩ ∧ s'.receiveState = s.receiveState := by
  rcases ensureAvailableInBuffer_cases h hl n with ⟨hroom, he⟩ | ⟨-, hfit, he⟩ | ⟨-, he⟩
  · refine ⟨s, he, reads_missing h hs hsize hn hleft ?_, rfl⟩
    rw [buffer_small hl, h.small]
    exact hroom
  · have hm := h.moved hl
    refine ⟨_, he, reads_missing hm hs hsize hn hleft ?_, rfl⟩
    rw [buffer_small (s := s.movedToFront rest) hl, hm.small]
    show 0 + n ≤ _
    omega
  · refine ⟨_, he, reads_missing (h.enlarged hn.le) hs hsize hn hleft ?_, rfl⟩
    rw [length_buffer_movedToLarge hn.le]
    show 0 + n ≤ n
    omega

/-- **The loop hands over the packets of the view and keeps what is not a packet yet.**  The view is
at or behind `_offsetBytes`: bytes are moved to the front only when fewer than `kMinPacketBuffer` are
left, and those do not reach it. -/
theorem cutPackets_ok (peer : TcpPeer) {data : Bytes} {pos : ℕ} (h : Buffered s data)
    (hl : s.usingLargeBuffer = false) (h0 : s.leftBytes = 0) (hs : s.status = .reading)
    (hview : slice s.smallBuffer pos data.length = data) (hpos : s.offsetBytes ≤ pos)
    (hend : pos + data.length ≤ kSmallBufferSize)
    (hroom : s.offsetBytes + kMinPacketBuffer ≤ kSmallBufferSize) :
    ∃ s', s.cutPackets peer false pos data.length = .ok s' ∧
      Reads peer s' (peer.protocol.framing.split peer.keeps s.packets data) ∧
      s'.receiveState = s.receiveState := by
  induction hk : data.length using Nat.strong_induction_on generalizing s data pos with
  | _ k ih =>
    subst hk
    have hr := h.readBytes
    have hwait (hu : peer.protocol.readPacketLength data = Protocol.kUnknownSize) :
        Waiting peer.protocol s data := ⟨h, fun _ => ⟨hl, hroom, hu⟩, fun hp => by omega⟩
    have havail : subspan s.smallBuffer pos data.length = .ok data := by
      rw [subspan_ok (by rw [h.small]; exact hend), hview]
    rw [cutPackets]
    by_cases hnil : s.readBytes = 0
    · -- nothing is left
      have hdata : data = [] := List.eq_nil_of_length_eq_zero (by omega)
      subst hdata
      rw [if_pos hnil,
        Framing.split_short (Protocol.header_short peer.protocol.readPacketLength_nil)]
      exact ⟨s, rfl, Reads.of_waiting hs (hwait peer.protocol.readPacketLength_nil), rfl⟩
    · rw [if_neg hnil]
      simp only [Bool.false_eq_true, if_false, havail, ok_bind]
      by_cases hu : peer.protocol.readPacketLength data = Protocol.kUnknownSize
      · rw [if_pos hu, Framing.split_short (Protocol.header_short hu)]
        exact ⟨s, rfl, Reads.of_waiting hs (hwait hu), rfl⟩
      · rw [if_neg hu]
        by_cases hbad : peer.protocol.readPacketLength data ≤ 0
        · rw [dif_pos hbad, Framing.split_bad (Protocol.header_bad hu hbad)]
          exact ⟨{ s with status := .failed }, rfl, Reads.of_failed rfl, rfl⟩
        · obtain ⟨n, hsize⟩ := Int.eq_ofNat_of_zero_le
            (by omega : 0 ≤ peer.protocol.readPacketLength data)
          have hpos0 : 0 < n := by omega
          have hhead := Protocol.header_size hsize hpos0
          rw [dif_neg hbad, hsize, Int.toNat_natCast]
          by_cases hn : n ≤ data.length
          · rw [dif_pos (by exact_mod_cast hn), Framing.split_frame hhead hn]
            by_cases hkeep : peer.keeps (s.packets ++ [data.take n])
            · rw [socketPacket_keeps hkeep, if_neg (by rw [hs]; decide), if_pos hkeep]
              have hd := h.drop hn (s.packets ++ [data.take n])
              have hin := h.inside
              rw [buffer_small hl, h.small] at hin
              have hlen : (data.drop n).length = data.length - n := List.length_drop
              have hview' : slice s.smallBuffer (pos + n) (data.length - n) = data.drop n := by
                rw [← drop_slice, hview]
              rw [← hlen] at hview' ⊢
              rcases ensureAvailableInBuffer_cases hd hl kMinPacketBuffer with
                ⟨hroom', he⟩ | ⟨hlow, -, he⟩ | ⟨hbig, -⟩
              · rw [he, ok_bind]
                exact ih _ (by omega) hd hl h0 hs hview' (by dsimp only; omega) (by omega)
                  hroom' rfl
              · rw [he, ok_bind]
                have hfew : (data.drop n).length ≤ pos + n := by
                  rw [kSmallBufferSize, kMinPacketBuffer] at *
                  dsimp only at hlow
                  omega
                refine ih _ (by omega) (hd.moved hl) hl h0 hs ?_ (Nat.zero_le _) (by omega) ?_ rfl
                · exact (slice_overwrite_behind hfew).trans hview'
                · show 0 + kMinPacketBuffer ≤ kSmallBufferSize
                  decide
              · exact absurd hbig (by decide)
            · rw [socketPacket_closes hkeep, if_pos rfl, if_neg hkeep]
              exact ⟨_, rfl, Reads.of_closed rfl, rfl⟩
          · rw [dif_neg (by exact_mod_cast hn), Framing.split_incomplete hhead (not_le.mp hn)]
            exact ensure_missing (s := { s with leftBytes := n - data.length })
              ⟨h.small, h.large, hr, h.inside, h.holds⟩ hl hs hsize (not_le.mp hn) rfl

/-! ## One read -/

@[simp] theorem length_decrypt (ks : ℕ → UInt8) (p : ℕ) (bytes : Bytes) :
    (decrypt ks p bytes).length = bytes.length := by
  induction bytes generalizing p with
  | nil => rfl
  | cons b bytes ih => rw [decrypt, List.length_cons, List.length_cons, ih]

/-- **Decryption goes on where it stopped.** -/
theorem decrypt_append (ks : ℕ → UInt8) (p : ℕ) (a b : Bytes) :
    decrypt ks p (a ++ b) = decrypt ks p a ++ decrypt ks (p + a.length) b := by
  induction a generalizing p with
  | nil => rfl
  | cons x a ih =>
    rw [List.cons_append, decrypt, decrypt, ih, List.cons_append, List.length_cons,
      Nat.add_right_comm, Nat.add_assoc]

theorem setBuffer_using (s : TcpConnection) (b : Bytes) :
    s.setBuffer s.usingLargeBuffer b = { s with
      smallBuffer := if s.usingLargeBuffer then s.smallBuffer else b
      largeBuffer := if s.usingLargeBuffer then b else s.largeBuffer } := by
  rw [setBuffer]
  split_ifs <;> rfl

/-- A read touches the buffer in use, the count of read bytes and the key stream. -/
theorem written_eq (s : TcpConnection) (peer : TcpPeer) (bytes : Bytes) :
    ∃ small large, s.written peer bytes = { s with
      smallBuffer := small
      largeBuffer := large
      receiveState := s.receiveState + bytes.length
      readBytes := s.readBytes + bytes.length } := by
  rw [written, setBuffer_using]
  exact ⟨_, _, rfl⟩

theorem buffer_written (s : TcpConnection) (peer : TcpPeer) (bytes : Bytes) :
    (s.written peer bytes).buffer = overwrite s.buffer (s.offsetBytes + s.readBytes)
      (decrypt peer.keystream s.receiveState bytes) := by
  cases hl : s.usingLargeBuffer <;> simp [written, setBuffer, buffer, hl]

/-- The bytes of a read stand behind those that were there. -/
theorem Buffered.write (h : Buffered s rest) (peer : TcpPeer) (bytes : Bytes)
    (hroom : s.offsetBytes + s.readBytes + bytes.length ≤ s.buffer.length) :
    Buffered (s.written peer bytes) (rest ++ decrypt peer.keystream s.receiveState bytes) ∧
      (s.written peer bytes).buffer.length = s.buffer.length := by
  have hc := length_decrypt peer.keystream s.receiveState bytes
  rw [← hc] at hroom
  have hr := h.readBytes
  have hsmall := h.small
  have hlen := length_overwrite hroom
  have hslice := slice_overwrite_append hroom
  rw [h.holds, ← buffer_written, hc] at hslice
  rw [← buffer_written] at hlen
  obtain ⟨small, large, he⟩ := s.written_eq peer bytes
  have hoffset : (s.written peer bytes).offsetBytes = s.offsetBytes := by rw [he]
  have hread : (s.written peer bytes).readBytes = s.readBytes + bytes.length := by rw [he]
  refine ⟨⟨?_, ?_, ?_, ?_, ?_⟩, hlen⟩
  · cases hl : s.usingLargeBuffer with
    | true => simpa [written, setBuffer, hl] using hsmall
    | false =>
      rw [buffer_small (by rw [he]; exact hl)] at hlen
      rw [hlen, buffer_small hl, hsmall]
  · intro hf
    have hl : s.usingLargeBuffer = false := by rw [he] at hf; exact hf
    simpa [written, setBuffer, hl] using h.large hl
  · rw [hread, List.length_append, hr, hc]
  · rw [hoffset, hread, hlen]
    omega
  · rw [hoffset, hread]
    exact hslice

/-- The packet that was waited for is complete. -/
theorem Reads.of_packet (peer : TcpPeer) {data : Bytes} (hd : Buffered s data)
    (hs : s.status = .reading) (h0 : s.leftBytes = 0) {n : ℕ}
    (hsize : peer.protocol.readPacketLength data = n) (hpos : 0 < n) (hn : data.length = n) :
    let t := s.socketPacket peer data
    Reads peer (if t.status = .closed then t else t.emptied)
      (peer.protocol.framing.split peer.keeps s.packets data) := by
  have hhead := Protocol.header_size hsize hpos
  rw [Framing.split_frame hhead (by omega), List.take_of_length_le (by omega),
    List.drop_eq_nil_of_le (by omega)]
  dsimp only
  by_cases hkeep : peer.keeps (s.packets ++ [data])
  · have hu := peer.protocol.readPacketLength_nil
    rw [socketPacket_keeps hkeep, if_neg (by rw [hs]; decide), if_pos hkeep,
      Framing.split_short (Protocol.header_short hu)]
    refine Reads.of_waiting hs ⟨⟨hd.small, fun _ => rfl, rfl, Nat.zero_le _, ?_⟩, fun _ => ?_, ?_⟩
    · exact slice_zero
    · exact ⟨rfl, (by decide : 0 + kMinPacketBuffer ≤ kSmallBufferSize), hu⟩
    · intro hp
      exact absurd h0 (Nat.ne_of_gt hp)
  · rw [socketPacket_closes hkeep, if_pos rfl, if_neg hkeep]
    exact Reads.of_closed rfl

/-- **One read**: the packets handed over are those of the kept bytes and the new ones. -/
theorem takeBytes_ok (h : Waiting peer.protocol s rest) (hs : s.status = .reading) {bytes : Bytes}
    (hlim : bytes.length ≤ s.readLimit) :
    ∃ s', s.takeBytes peer bytes = .ok s' ∧
      Reads peer s' (peer.protocol.framing.split peer.keeps s.packets
        (rest ++ decrypt peer.keystream s.receiveState bytes)) ∧
      s'.receiveState = s.receiveState + bytes.length := by
  have hb := h.toBuffered
  have hr := hb.readBytes
  have hin := hb.inside
  have hc := length_decrypt peer.keystream s.receiveState bytes
  obtain ⟨small, large, he⟩ := s.written_eq peer bytes
  have hstatus : (s.written peer bytes).status = .reading := by rw [he]; exact hs
  have hpackets : (s.written peer bytes).packets = s.packets := by rw [he]
  have hstate : (s.written peer bytes).receiveState = s.receiveState + bytes.length := by rw [he]
  have hleft : (s.written peer bytes).leftBytes = s.leftBytes := by rw [he]
  have hoffset : (s.written peer bytes).offsetBytes = s.offsetBytes := by rw [he]
  have hread : (s.written peer bytes).readBytes = s.readBytes + bytes.length := by rw [he]
  have hdata : (rest ++ decrypt peer.keystream s.receiveState bytes).length
      = s.readBytes + bytes.length := by rw [List.length_append, hc, hr]
  rw [readLimit] at hlim
  rw [takeBytes]
  dsimp only
  rcases Nat.eq_zero_or_pos s.leftBytes with h0 | hpos
  · -- packets are cut off the small buffer
    obtain ⟨hl, hroom, -⟩ := h.idle h0
    rw [if_neg (by omega)] at hlim
    rw [buffer_small hl, hb.small] at hin
    obtain ⟨hw, -⟩ := hb.write peer bytes
      (by rw [buffer_small hl, hb.small]; omega)
    have hl' : (s.written peer bytes).usingLargeBuffer = false := by rw [he]; exact hl
    have hholds := hw.holds
    rw [buffer_small hl', hread, hoffset, ← hdata] at hholds
    obtain ⟨s', hs', hreads, hst⟩ := cutPackets_ok peer hw hl' (hleft.trans h0) hstatus
      hholds hoffset.le (by omega) (by rw [hoffset]; exact hroom)
    rw [hpackets] at hreads
    refine ⟨s', ?_, hreads, hst.trans hstate⟩
    rw [if_neg (by omega), hl, hoffset, hread, ← hdata]
    exact hs'
  · -- the bytes belong to the packet that is waited for
    obtain ⟨hsize, hfit⟩ := h.missing hpos
    rw [if_pos hpos] at hlim
    obtain ⟨hw, hlen⟩ := hb.write peer bytes (by omega)
    have hsize' : peer.protocol.readPacketLength (rest ++ decrypt peer.keystream s.receiveState bytes)
        = (s.readBytes + s.leftBytes : ℕ) := by
      rw [← hsize]
      refine peer.protocol.readPacketLength_append _ _ ?_
      rw [hsize, Protocol.kUnknownSize]
      omega
    have hw' : Buffered { s.written peer bytes with leftBytes := s.leftBytes - bytes.length }
        (rest ++ decrypt peer.keystream s.receiveState bytes) :=
      ⟨hw.small, hw.large, hw.readBytes, hw.inside, hw.holds⟩
    rw [hleft, if_pos hpos, expects_ok hlim, ok_bind]
    by_cases hdone : s.leftBytes - bytes.length = 0
    · have hpacket := subspan_ok hw'.inside
      rw [hw'.holds] at hpacket
      dsimp only at hpacket
      have hreads := Reads.of_packet peer hw' hstatus hdone hsize' (by omega) (by omega)
      rw [if_pos hdone, hpacket, ok_bind]
      rw [← hpackets]
      refine ⟨_, ?_, hreads, ?_⟩
      · split_ifs <;> rfl
      · rw [socketPacket]
        split_ifs <;> exact hstate
    · rw [if_neg hdone, ← hpackets, Framing.split_incomplete
        (Protocol.header_size hsize' (by omega)) (by omega)]
      refine ⟨_, rfl, Reads.of_waiting hstatus ⟨hw', fun h0 => absurd h0 hdone, fun _ => ?_⟩,
        hstate⟩
      refine ⟨hsize'.trans ?_, ?_⟩
      · dsimp only
        rw [hread]
        congr 1
        omega
      · show (s.written peer bytes).offsetBytes + (s.written peer bytes).readBytes
          + (s.leftBytes - bytes.length) ≤ (s.written peer bytes).buffer.length
        omega

/-! ## All reads -/

/-- The connection is where splitting the stream `raw`, as it was received, got to. -/
structure Follows (peer : TcpPeer) (s : TcpConnection) (raw : Bytes) : Prop where
  reads : Reads peer s (peer.protocol.framing.split peer.keeps [] (decrypt peer.keystream 0 raw))
  position : s.status = .reading → s.receiveState = raw.length

variable {raw : Bytes}

theorem Follows.waiting (h : Follows peer s raw) (hs : s.status = .reading) :
    ∃ rest, peer.protocol.framing.split peer.keeps [] (decrypt peer.keystream 0 raw)
      = ⟨s.packets, .waiting rest⟩ ∧ Waiting peer.protocol s rest := by
  have hr := h.reads
  rcases hsplit : peer.protocol.framing.split peer.keeps [] (decrypt peer.keystream 0 raw) with
    ⟨frames, status⟩
  rw [hsplit] at hr
  have hp : s.packets = frames := hr.packets
  cases status with
  | waiting rest => exact ⟨rest, by rw [hp], (hr.waiting rest rfl).2⟩
  | failed => exact absurd (hs.symm.trans (hr.failed rfl)) (by decide)
  | closed => exact absurd (hs.symm.trans (hr.closed rfl)) (by decide)

/-- There is always room to read into, and the read stays in the buffer. -/
theorem Waiting.room {p : Protocol} (h : Waiting p s rest) :
    0 < s.readLimit ∧ s.offsetBytes + s.readBytes + s.readLimit ≤ s.buffer.length := by
  have hr := h.readBytes
  rw [readLimit]
  rcases Nat.eq_zero_or_pos s.leftBytes with h0 | hpos
  · obtain ⟨hl, hroom, hu⟩ := h.idle h0
    have hfew := p.length_lt_of_unknown rest hu
    rw [if_neg (by omega), buffer_small hl, h.small]
    rw [kMinPacketBuffer] at hroom
    omega
  · rw [if_pos hpos]
    exact ⟨hpos, (h.missing hpos).2⟩

theorem readOnce_ok (h : Follows peer s raw) (hs : s.status = .reading) (stream : Bytes)
    (arrived : ℕ) : ∃ s' c left, s.readOnce peer stream arrived = .ok (s', left) ∧
      stream = c ++ left ∧ Follows peer s' (raw ++ c) := by
  obtain ⟨rest, hsplit, hw⟩ := h.waiting hs
  obtain ⟨hlimit, hroom⟩ := hw.room
  have hlen : (slice s.buffer s.offsetBytes (s.buffer.length - s.offsetBytes)).length
      = s.buffer.length - s.offsetBytes := length_slice (by omega)
  have hlen' : (slice (slice s.buffer s.offsetBytes (s.buffer.length - s.offsetBytes)) s.readBytes
      (s.buffer.length - s.offsetBytes - s.readBytes)).length
      = s.buffer.length - s.offsetBytes - s.readBytes := length_slice (by omega)
  rw [readOnce, expects_ok hlimit, ok_bind, subspan_ok (by omega), ok_bind, hlen,
    subspan_ok (by omega), ok_bind, subspan_ok (by omega), ok_bind]
  dsimp only
  by_cases h0 : min arrived (min s.readLimit stream.length) = 0
  · rw [if_pos h0]
    exact ⟨s, [], stream, rfl, rfl, by rwa [List.append_nil]⟩
  · rw [if_neg h0]
    have hcount : (stream.take (min arrived (min s.readLimit stream.length))).length
        ≤ s.readLimit := by
      rw [List.length_take]
      omega
    obtain ⟨s', he, hreads, hstate⟩ := takeBytes_ok hw hs hcount
    refine ⟨s', _, _, by rw [he]; rfl, (List.take_append_drop _ _).symm, ⟨?_, fun _ => ?_⟩⟩
    · rw [decrypt_append, Framing.split_append, hsplit, Nat.zero_add, ← h.position hs]
      exact hreads
    · rw [hstate, h.position hs, List.length_append]

theorem readAll_ok (h : Follows peer s raw) (hs : s.status = .reading) (stream : Bytes)
    (arrivals : List ℕ) : ∃ s' c left, s.readAll peer stream arrivals = .ok (s', left) ∧
      stream = c ++ left ∧ Follows peer s' (raw ++ c) := by
  induction arrivals generalizing s raw stream with
  | nil => exact ⟨s, [], stream, rfl, rfl, by rwa [List.append_nil]⟩
  | cons arrived arrivals ih =>
    obtain ⟨s', c, left, he, hc, hf⟩ := readOnce_ok h hs stream arrived
    rw [readAll, he, ok_bind]
    dsimp only
    by_cases hgo : left.length < stream.length ∧ s'.status = .reading
    · rw [if_pos hgo]
      obtain ⟨s'', c', left', he', hc', hf'⟩ := ih hf hgo.2 left
      exact ⟨s'', c ++ c', left', he', by rw [hc, hc', List.append_assoc],
        by rwa [← List.append_assoc]⟩
    · rw [if_neg hgo]
      exact ⟨s', c, left, rfl, hc, hf⟩

theorem prepared_of_small (h : s.smallBuffer.length = kSmallBufferSize) : s.prepared = s := by
  rw [prepared, if_neg]
  intro hnil
  rw [List.isEmpty_iff.mp hnil] at h
  exact absurd h (by decide)

theorem prepared_eq (s : TcpConnection) :
    ∃ small, s.prepared = { s with smallBuffer := small } := by
  rw [prepared]
  split_ifs
  · exact ⟨_, rfl⟩
  · exact ⟨s.smallBuffer, rfl⟩

theorem Follows.prepared (h : Follows peer s raw) : Follows peer s.prepared raw := by
  obtain ⟨small, he⟩ := s.prepared_eq
  have hr := h.reads
  refine ⟨⟨?_, fun rest hrest => ?_, fun hf => ?_, fun hc => ?_⟩, fun hs => ?_⟩
  · rw [he]
    exact hr.packets
  · obtain ⟨hs, hw⟩ := hr.waiting rest hrest
    rw [prepared_of_small hw.small]
    exact ⟨hs, hw⟩
  · rw [he]
    exact hr.failed hf
  · rw [he]
    exact hr.closed hc
  · rw [he] at hs ⊢
    exact h.position hs

theorem socketReads_ok (h : Follows peer s.prepared raw) (hs : s.status = .reading)
    (stream : Bytes) (calls : List (List ℕ)) :
    ∃ s' c left, s.socketReads peer stream calls = .ok (s', left) ∧ stream = c ++ left ∧
      Follows peer s'.prepared (raw ++ c) ∧ s'.prepared.status = s'.status := by
  induction calls generalizing s raw stream with
  | nil =>
    obtain ⟨small, he⟩ := s.prepared_eq
    exact ⟨s, [], stream, rfl, rfl, by rwa [List.append_nil], by rw [he]⟩
  | cons arrivals calls ih =>
    obtain ⟨small, hp⟩ := s.prepared_eq
    have hs' : s.prepared.status = .reading := by rw [hp]; exact hs
    obtain ⟨rest, -, hw⟩ := h.waiting hs'
    have hentry : 0 < s.leftBytes ∨ s.usingLargeBuffer = false := by
      rcases Nat.eq_zero_or_pos s.leftBytes with h0 | hpos
      · have hidle := (hw.idle (by rw [hp]; exact h0)).1
        rw [hp] at hidle
        exact Or.inr hidle
      · exact Or.inl hpos
    obtain ⟨s', c, left, he, hc, hf⟩ := readAll_ok h hs' stream arrivals
    rw [socketReads, socketRead, expects_ok hentry, ok_bind, he, ok_bind]
    dsimp only
    by_cases hgo : s'.status = .reading
    · rw [if_pos hgo]
      obtain ⟨s'', c', left', he', hc', hf', hst'⟩ := ih hf.prepared hgo left
      exact ⟨s'', c ++ c', left', he', by rw [hc, hc', List.append_assoc],
        by rwa [← List.append_assoc], hst'⟩
    · obtain ⟨small', hp'⟩ := s'.prepared_eq
      rw [if_neg hgo]
      exact ⟨s', c, left, rfl, hc, hf.prepared, by rw [hp']⟩

/-- The connection before the first read. -/
theorem follows_start (peer : TcpPeer) : Follows peer ({} : TcpConnection).prepared [] := by
  have hu := peer.protocol.readPacketLength_nil
  have hlen : (List.replicate kSmallBufferSize (0 : UInt8)).length = kSmallBufferSize :=
    List.length_replicate
  refine ⟨?_, fun _ => rfl⟩
  rw [decrypt, Framing.split_short (Protocol.header_short hu)]
  exact Reads.of_waiting rfl ⟨⟨hlen, fun _ => rfl, rfl, Nat.zero_le _, slice_zero⟩,
    fun _ => ⟨rfl, by decide, hu⟩, fun hp => absurd hp (by decide)⟩

/-- What the end of a split means for the connection. -/
def statusOf : SplitStatus UInt8 → TcpStatus
  | .waiting _ => .reading
  | .failed => .failed
  | .closed => .closed

theorem Reads.status {r : Split UInt8} (h : Reads peer s r) : s.status = statusOf r.status := by
  cases hr : r.status with
  | waiting rest => exact (h.waiting rest hr).1
  | failed => exact h.failed hr
  | closed => exact h.closed hr

end TcpConnection

end Mtproto

end Yunogram
