import Yunogram.Machinery.Framing
import Yunogram.Machinery.LittleEndian
import Yunogram.Machinery.Run
import Yunogram.Machinery.Span
import Yunogram.Mtproto.TcpProtocol

/-!
# Mtproto/WebProxyFrame — the frames of the web proxy

`SerializeFrame` and `ParseFrames` of `mtproto/web_proxy/web_proxy_frame.cpp`.  A frame is a header of
eight bytes, most significant first, and a payload.  `ParseFrames` counts the bytes it took in an
`int`: a buffer whose frames take `2 ^ 31` bytes is beyond it.
-/

open Machinery

namespace Yunogram

namespace Mtproto

namespace WebProxy

/-! ## Data -/

/-- `kFrameHeaderSize`. -/
def kFrameHeaderSize : ℕ := 8

/-- `kMaxFramePayload`. -/
def kMaxFramePayload : ℕ := 1024 * 1024

/-- `kMaxBatchFrames`. -/
def kMaxBatchFrames : ℕ := 4096

/-- `FrameType`. -/
inductive FrameType
  | open
  | data
  | close
  | window
  | ping
  | pong
  | hello
  | welcome
  | authChallenge
  | authResponse
  | bye
  deriving DecidableEq

/-- The byte of a type. -/
def FrameType.code : FrameType → UInt8
  | .open => 0x01
  | .data => 0x02
  | .close => 0x03
  | .window => 0x04
  | .ping => 0x05
  | .pong => 0x06
  | .hello => 0x10
  | .welcome => 0x11
  | .authChallenge => 0x12
  | .authResponse => 0x13
  | .bye => 0x1F

/-- `FrameType(value)` for the values that `IsKnownType`. -/
def FrameType.ofCode : UInt8 → Option FrameType
  | 0x01 => some .open
  | 0x02 => some .data
  | 0x03 => some .close
  | 0x04 => some .window
  | 0x05 => some .ping
  | 0x06 => some .pong
  | 0x10 => some .hello
  | 0x11 => some .welcome
  | 0x12 => some .authChallenge
  | 0x13 => some .authResponse
  | 0x1F => some .bye
  | _ => none

/-- `Frame`. -/
structure Frame where
  type : FrameType := .bye
  streamId : ℕ := 0
  payload : Bytes := []
  deriving DecidableEq

/-! ## `SerializeFrame` -/

/-- What `SerializeFrame` writes. -/
def Frame.bytes (frame : Frame) : Bytes :=
  let size := frame.payload.length
  [frame.type.code, UInt8.ofNat (frame.streamId >>> 16), UInt8.ofNat (frame.streamId >>> 8),
    UInt8.ofNat frame.streamId, UInt8.ofNat (size >>> 24), UInt8.ofNat (size >>> 16),
    UInt8.ofNat (size >>> 8), UInt8.ofNat size] ++ frame.payload

/-- `SerializeFrame`. -/
def serializeFrame (frame : Frame) : Except Fault Bytes := do
  expects (frame.streamId ≤ 0x00FFFFFF)
  expects (frame.payload.length ≤ kMaxFramePayload)
  return frame.bytes

/-! ## `ParseFrames` -/

/-- An `int` left its range. -/
inductive Overflow
  | int
  deriving DecidableEq

/-- The loop of `ParseFrames`: whether the frames are good, where it stopped, and the output. -/
def parseFramesLoop (buffer : Bytes) (offset : ℕ) (output : List Frame) :
    Except Overflow (Bool × ℕ × List Frame) :=
  if buffer.length - offset < kFrameHeaderSize then
    .ok (true, offset, output)
  else
    let data := buffer.drop offset
    match FrameType.ofCode (data.headD 0) with
    | none => .ok (false, offset, output)
    | some type =>
      let streamId := ofBigEndian (slice data 1 3)
      let size := ofBigEndian (slice data 4 4)
      if kMaxFramePayload < size then
        .ok (false, offset, output)
      else
        let full := kFrameHeaderSize + size
        if _h : buffer.length - offset < full then
          .ok (true, offset, output)
        else if kMaxBatchFrames ≤ output.length then
          .ok (false, offset, output)
        else if 2 ^ 31 ≤ offset + full then
          .error .int
        else
          parseFramesLoop buffer (offset + full)
            (output ++ [{ type, streamId, payload := slice buffer (offset + kFrameHeaderSize) size }])
termination_by buffer.length - offset
decreasing_by
  have hheader : 0 < kFrameHeaderSize := by decide
  omega

/-- `ParseFrames`: its result, the buffer afterwards and the output. -/
def parseFrames (buffer : Bytes) (output : List Frame) :
    Except Overflow (Bool × Bytes × List Frame) :=
  match parseFramesLoop buffer 0 output with
  | .error overflow => .error overflow
  | .ok (false, _, output) => .ok (false, buffer, output)
  | .ok (true, offset, output) => .ok (true, buffer.drop offset, output)

/-! ## The framing -/

/-- What the checks of the loop say about the first frame. -/
def frameHeader (data : Bytes) : Machinery.Header :=
  if data.length < kFrameHeaderSize then .short
  else match FrameType.ofCode (data.headD 0) with
    | none => .bad
    | some _ =>
      if kMaxFramePayload < ofBigEndian (slice data 4 4) then .bad
      else .size (kFrameHeaderSize + ofBigEndian (slice data 4 4))

/-- The frame in the bytes of one. -/
def frameOf (data : Bytes) : Frame where
  type := (FrameType.ofCode (data.headD 0)).getD .bye
  streamId := ofBigEndian (slice data 1 3)
  payload := data.drop kFrameHeaderSize

theorem frameHeader_append (b c : Bytes) (h : frameHeader b ≠ .short) :
    frameHeader (b ++ c) = frameHeader b := by
  have hlen : kFrameHeaderSize ≤ b.length := by
    by_contra hlt
    exact h (if_pos (not_le.mp hlt))
  have hne : b ≠ [] := List.ne_nil_of_length_pos (Nat.lt_of_lt_of_le (by decide) hlen)
  have hhead : (b ++ c).headD 0 = b.headD 0 := by
    cases b with
    | nil => exact absurd rfl hne
    | cons x b => rfl
  have hslice : slice (b ++ c) 4 4 = slice b 4 4 := by
    rw [kFrameHeaderSize] at hlen
    rw [slice, slice, List.drop_append_of_le_length (by omega),
      List.take_append_of_le_length (by rw [List.length_drop]; omega)]
  have hlen' : ¬(b ++ c).length < kFrameHeaderSize := by
    rw [List.length_append]
    omega
  rw [frameHeader, frameHeader, if_neg hlen', if_neg (not_lt.mpr hlen), hhead, hslice]

/-- The framing of the web proxy. -/
def framing : Framing UInt8 where
  header := frameHeader
  stable := frameHeader_append
  size_pos := by
    intro b n h
    rw [frameHeader] at h
    split at h
    · exact nomatch h
    · split at h
      · exact nomatch h
      · split at h
        · exact nomatch h
        · rw [← Machinery.Header.size.inj h]
          exact Nat.lt_of_lt_of_le (by decide) (Nat.le_add_right _ _)

/-- What `ParseFrames` finds in a buffer: its frames, and how it ends. -/
def parsed (buffer : Bytes) : Split UInt8 := framing.split (fun _ => true) [] buffer

section

variable {buffer : Bytes} {offset : ℕ} {output : List Frame}

/-- The loop stops where the header is not complete. -/
theorem parseFramesLoop_short (h : frameHeader (buffer.drop offset) = .short) :
    parseFramesLoop buffer offset output = .ok (true, offset, output) := by
  rw [frameHeader, List.length_drop] at h
  split at h
  · next hshort => rw [parseFramesLoop, if_pos hshort]
  · split at h
    · exact nomatch h
    · split at h <;> exact nomatch h

/-- …rejects a header that is bad. -/
theorem parseFramesLoop_bad (h : frameHeader (buffer.drop offset) = .bad) :
    parseFramesLoop buffer offset output = .ok (false, offset, output) := by
  rw [frameHeader, List.length_drop] at h
  split at h
  · exact nomatch h
  · next hlong =>
    rw [parseFramesLoop, if_neg hlong]
    dsimp only
    split at h
    · rfl
    · split at h
      · next hsize => rw [if_pos hsize]
      · exact nomatch h

/-- The frame that the loop takes. -/
theorem frameOf_take {data : Bytes} {type : FrameType} (h : FrameType.ofCode (data.headD 0) = some type)
    (n : ℕ) : frameOf (data.take (kFrameHeaderSize + n)) =
      { type, streamId := ofBigEndian (slice data 1 3), payload := slice data kFrameHeaderSize n } := by
  have hhead : (data.take (kFrameHeaderSize + n)).headD 0 = data.headD 0 := by
    rw [kFrameHeaderSize, Nat.add_comm]
    cases data <;> rfl
  have hslice : slice (data.take (kFrameHeaderSize + n)) 1 3 = slice data 1 3 := by
    rw [slice, slice, List.drop_take, List.take_take, min_eq_left (by rw [kFrameHeaderSize]; omega)]
  rw [frameOf, hhead, hslice, h, Option.getD_some, List.drop_take, Nat.add_sub_cancel_left, slice,
    slice]

/-- …stops where the payload is not complete, and takes a complete frame. -/
theorem parseFramesLoop_size {n : ℕ} (h : frameHeader (buffer.drop offset) = .size n) :
    parseFramesLoop buffer offset output =
      if buffer.length - offset < n then .ok (true, offset, output)
      else if kMaxBatchFrames ≤ output.length then .ok (false, offset, output)
      else if 2 ^ 31 ≤ offset + n then .error .int
      else parseFramesLoop buffer (offset + n)
        (output ++ [frameOf ((buffer.drop offset).take n)]) := by
  rw [frameHeader, List.length_drop] at h
  split at h
  · exact nomatch h
  · next hlong =>
    rw [parseFramesLoop, if_neg hlong]
    dsimp only
    split at h
    · exact nomatch h
    · next type htype =>
      split at h
      · exact nomatch h
      · next hsize =>
        obtain rfl := Machinery.Header.size.inj h
        rw [if_neg hsize]
        have hframe : frameOf ((buffer.drop offset).take
            (kFrameHeaderSize + ofBigEndian (slice (buffer.drop offset) 4 4))) =
            { type, streamId := ofBigEndian (slice (buffer.drop offset) 1 3),
              payload := slice buffer (offset + kFrameHeaderSize)
                (ofBigEndian (slice (buffer.drop offset) 4 4)) } := by
          rw [frameOf_take htype, slice_drop, slice_drop]
        rw [hframe]
        rfl

/-- **The loop finds what the framing finds**, as long as the frames fit a batch and an `int`. -/
theorem parseFramesLoop_eq {frames : List Bytes} {status : SplitStatus UInt8}
    (h : parsed (buffer.drop offset) = ⟨frames, status⟩) (hoffset : offset ≤ buffer.length)
    (hbatch : output.length + frames.length ≤ kMaxBatchFrames)
    (hint : offset + frames.flatten.length < 2 ^ 31) :
    parseFramesLoop buffer offset output =
      .ok (decide (status ≠ .failed), offset + frames.flatten.length,
        output ++ frames.map frameOf) := by
  induction hk : (buffer.drop offset).length using Nat.strong_induction_on
    generalizing offset output frames with
  | _ k ih =>
    cases hb : frameHeader (buffer.drop offset) with
    | short =>
      rw [parsed, Framing.split_short hb] at h
      cases h
      rw [parseFramesLoop_short hb]
      simp
    | bad =>
      rw [parsed, Framing.split_bad hb] at h
      cases h
      rw [parseFramesLoop_bad hb]
      simp
    | size n =>
      rw [parseFramesLoop_size hb]
      by_cases hn : n ≤ (buffer.drop offset).length
      · have hpos : 0 < n := framing.size_pos _ n hb
        rw [parsed, Framing.split_frame hb hn, if_pos rfl, Framing.split_behind, List.drop_drop] at h
        cases hrest : parsed (buffer.drop (offset + n)) with
        | mk frames' status' =>
          rw [parsed] at hrest
          rw [hrest] at h
          cases h
          simp only [List.nil_append, List.singleton_append, List.length_cons, List.flatten_cons,
            List.length_append, List.length_take, min_eq_left hn, List.map_cons] at hbatch hint ⊢
          rw [List.length_drop] at hn hk
          rw [if_neg (by omega), if_neg (by omega), if_neg (by omega),
            ih _ (by rw [List.length_drop]; omega) hrest (by omega)
              (by rw [List.length_append, List.length_singleton]; omega) (by omega) rfl,
            List.append_assoc, Nat.add_assoc]
          rfl
      · rw [parsed, Framing.split_incomplete hb (not_le.mp hn)] at h
        cases h
        rw [List.length_drop] at hn
        rw [if_pos (not_le.mp hn)]
        simp

/-- …in a whole buffer. -/
theorem parseFramesLoop_zero {frames : List Bytes} {status : SplitStatus UInt8}
    (h : parsed buffer = ⟨frames, status⟩) (hbatch : frames.length ≤ kMaxBatchFrames)
    (hint : frames.flatten.length < 2 ^ 31) : parseFramesLoop buffer 0 [] =
      .ok (decide (status ≠ .failed), frames.flatten.length, frames.map frameOf) := by
  have hzero : parsed (buffer.drop 0) = ⟨frames, status⟩ := by rwa [List.drop_zero]
  rw [parseFramesLoop_eq hzero (Nat.zero_le _) (by rwa [List.length_nil, Nat.zero_add])
    (by rwa [Nat.zero_add]), Nat.zero_add, List.nil_append]

end

/-! ## Feeding chunks -/

/-- Why the frames of a stream end. -/
inductive FeedStop
  | rejected
  | overflow (overflow : Overflow)
  deriving DecidableEq

/-- A chunk arrives behind the remainder of the call before; the frames go to a fresh output. -/
def feed (remainder chunk : Bytes) : Except FeedStop (Bytes × List Frame) :=
  match parseFrames (remainder ++ chunk) [] with
  | .error overflow => .error (.overflow overflow)
  | .ok (false, _, _) => .error .rejected
  | .ok (true, remainder, frames) => .ok (remainder, frames)

variable {remainder chunk : Bytes} {frames : List Bytes}

/-- **A call** gives the frames the framing finds and keeps what it waits with. -/
theorem feed_waiting {rest : Bytes} (h : parsed (remainder ++ chunk) = ⟨frames, .waiting rest⟩)
    (hbatch : frames.length ≤ kMaxBatchFrames) (hint : frames.flatten.length < 2 ^ 31) :
    feed remainder chunk = .ok (rest, frames.map frameOf) := by
  have hrest : (remainder ++ chunk).drop frames.flatten.length = rest := by
    have hflatten : frames.flatten ++ rest = remainder ++ chunk := Framing.split_flatten h
    rw [← hflatten, List.drop_left]
  have hloop := parseFramesLoop_zero h hbatch hint
  rw [feed, parseFrames, hloop, decide_eq_true (by simp)]
  dsimp only
  rw [hrest]

/-- …and rejects what the framing rejects. -/
theorem feed_failed (h : parsed (remainder ++ chunk) = ⟨frames, .failed⟩)
    (hbatch : frames.length ≤ kMaxBatchFrames) (hint : frames.flatten.length < 2 ^ 31) :
    feed remainder chunk = .error .rejected := by
  have hloop := parseFramesLoop_zero h hbatch hint
  rw [feed, parseFrames, hloop]
  simp

/-! ## A stream of frames -/

/-- What `SerializeFrame` expects of a frame. -/
structure Frame.WithinLimits (frame : Frame) : Prop where
  streamId : frame.streamId ≤ 0x00FFFFFF
  payload : frame.payload.length ≤ kMaxFramePayload

theorem serializeFrame_eq_ok {frame : Frame} {bytes : Bytes} :
    serializeFrame frame = .ok bytes ↔ frame.WithinLimits ∧ bytes = frame.bytes := by
  rw [serializeFrame, expects, expects]
  constructor
  · intro h
    split at h
    · next hstreamId =>
      split at h
      · next hpayload => exact ⟨⟨hstreamId, hpayload⟩, (Except.ok.inj h).symm⟩
      · exact nomatch h
    · exact nomatch h
  · rintro ⟨⟨hstreamId, hpayload⟩, rfl⟩
    rw [if_pos hstreamId, if_pos hpayload]
    rfl

theorem serializeFrames_eq_ok {fs : List Frame} {parts : List Bytes}
    (h : fs.mapM serializeFrame = .ok parts) :
    (∀ f ∈ fs, f.WithinLimits) ∧ parts = fs.map Frame.bytes := by
  induction fs generalizing parts with
  | nil => exact ⟨fun _ hf => absurd hf List.not_mem_nil, (Except.ok.inj h).symm⟩
  | cons f fs ih =>
    rw [List.mapM_cons] at h
    obtain ⟨bytes, hf, h⟩ := bind_ok h
    obtain ⟨parts, hfs, h⟩ := bind_ok h
    obtain rfl := Except.ok.inj h
    obtain ⟨hlimits, rfl⟩ := ih hfs
    obtain ⟨hf', rfl⟩ := serializeFrame_eq_ok.mp hf
    exact ⟨List.forall_mem_cons.mpr ⟨hf', hlimits⟩, rfl⟩

theorem FrameType.ofCode_code (type : FrameType) : ofCode type.code = some type := by
  cases type <;> rfl

theorem Frame.length_bytes (frame : Frame) :
    frame.bytes.length = kFrameHeaderSize + frame.payload.length := by
  rw [Frame.bytes, List.length_append]
  rfl

/-- **What was written is one frame.** -/
theorem Frame.WithinLimits.isFrame_bytes {frame : Frame} (h : frame.WithinLimits) :
    framing.IsFrame frame.bytes := by
  intro c
  have hpayload := h.payload
  rw [kMaxFramePayload] at hpayload
  have hsize : ofBigEndian (slice (frame.bytes ++ c) 4 4) = frame.payload.length :=
    ofBigEndian_four (by omega)
  have hlen := frame.length_bytes
  have hlong : ¬(frame.bytes ++ c).length < kFrameHeaderSize := by
    rw [List.length_append, hlen]
    omega
  have htype : FrameType.ofCode ((frame.bytes ++ c).headD 0) = some frame.type :=
    frame.type.ofCode_code
  have hheader : frameHeader (frame.bytes ++ c) = .size frame.bytes.length := by
    rw [frameHeader, if_neg hlong, htype, hsize]
    dsimp only
    rw [if_neg (not_lt.mpr h.payload), hlen]
  exact hheader

/-- **…and is read back.** -/
theorem frameOf_bytes {frame : Frame} (h : frame.WithinLimits) : frameOf frame.bytes = frame := by
  have hstreamId : ofBigEndian (slice frame.bytes 1 3) = frame.streamId :=
    ofBigEndian_three (Nat.lt_succ_of_le h.streamId)
  have htype : FrameType.ofCode (frame.bytes.headD 0) = some frame.type :=
    frame.type.ofCode_code
  rw [frameOf, hstreamId, htype]
  rfl

/-! ## Chunks -/

/-- Every call completes at most `kMaxBatchFrames` frames, and less than `2 ^ 31` bytes of them. -/
def InBatches (parts chunks : List Bytes) : Prop :=
  ∀ before chunk after k k', chunks = before ++ chunk :: after →
    Completed parts before.flatten.length k →
    Completed parts (before.flatten.length + chunk.length) k' →
    k' - k ≤ kMaxBatchFrames ∧
      (parts.take k').flatten.length - (parts.take k).flatten.length < 2 ^ 31

theorem InBatches.of_append {parts chunks more : List Bytes} (h : InBatches parts (chunks ++ more)) :
    InBatches parts chunks := by
  intro before chunk after k k' hchunks
  refine h before chunk (after ++ more) k k' ?_
  rw [hchunks, List.append_assoc, List.cons_append]

section

variable {fs : List Frame} {tail : Bytes}

/-- The bytes between two places of a list of parts. -/
theorem length_flatten_between {parts : List Bytes} {k k' : ℕ} (h : k ≤ k') :
    ((parts.take k').drop k).flatten.length
      = (parts.take k').flatten.length - (parts.take k).flatten.length := by
  have htake : (parts.take k').take k = parts.take k := by rw [List.take_take, min_eq_left h]
  have hsum : (parts.take k').flatten.length
      = (parts.take k).flatten.length + ((parts.take k').drop k).flatten.length := by
    conv_lhs => rw [← List.take_append_drop k (parts.take k'), htake]
    rw [List.flatten_append, List.length_append]
  omega

/-- **One call, between two cuts of the stream.** -/
theorem feed_between {s rest rest' : Bytes} {k k' : ℕ} (hfs : ∀ f ∈ fs, f.WithinLimits)
    (h : Cut (fs.map Frame.bytes) s k rest)
    (h' : Cut (fs.map Frame.bytes) (s ++ chunk) k' rest')
    (hbatch : k' - k ≤ kMaxBatchFrames ∧ ((fs.map Frame.bytes).take k').flatten.length
      - ((fs.map Frame.bytes).take k).flatten.length < 2 ^ 31) :
    (parsed rest' = ⟨[], .waiting rest'⟩ → feed rest chunk = .ok (rest', (fs.take k').drop k)) ∧
      (parsed rest' = ⟨[], .failed⟩ → feed rest chunk = .error .rejected) := by
  have hle := h.le_of_prefix h' (List.prefix_append s chunk)
  have hparts : ∀ f ∈ ((fs.map Frame.bytes).take k').drop k, framing.IsFrame f := by
    intro f hf
    obtain ⟨g, hg, rfl⟩ := List.mem_map.mp (List.mem_of_mem_take (List.mem_of_mem_drop hf))
    exact (hfs g hg).isFrame_bytes
  have hparsed : parsed (rest ++ chunk) = ⟨((fs.map Frame.bytes).take k').drop k
      ++ (parsed rest').frames, (parsed rest').status⟩ := by
    rw [h.between h']
    exact Framing.split_frames hparts rest'
  have hcount : (((fs.map Frame.bytes).take k').drop k).length ≤ kMaxBatchFrames := by
    have htake := List.length_take_le k' (fs.map Frame.bytes)
    rw [List.length_drop]
    omega
  have hint : (((fs.map Frame.bytes).take k').drop k).flatten.length < 2 ^ 31 := by
    rw [length_flatten_between hle]
    exact hbatch.2
  have hread : (((fs.map Frame.bytes).take k').drop k).map frameOf = (fs.take k').drop k := by
    rw [← List.map_take, ← List.map_drop, List.map_map]
    refine (List.map_congr_left fun f hf => ?_).trans (List.map_id _)
    exact frameOf_bytes (hfs f (List.mem_of_mem_take (List.mem_of_mem_drop hf)))
  constructor
  · intro hwaiting
    rw [hwaiting, List.append_nil] at hparsed
    rw [feed_waiting hparsed hcount hint, hread]
  · intro hfailed
    rw [hfailed, List.append_nil] at hparsed
    exact feed_failed hparsed hcount hint

/-- What is left of a stream waits as long as a frame is not complete. -/
theorem parsed_rest {s rest : Bytes} {k : ℕ} (hfs : ∀ f ∈ fs, f.WithinLimits)
    (h : Cut (fs.map Frame.bytes) s k rest) (hk : k < fs.length) :
    parsed rest = ⟨[], .waiting rest⟩ := by
  have hk' : k < (fs.map Frame.bytes).length := by rwa [List.length_map]
  obtain ⟨hpre, hlt⟩ := h.proper hk'
  rw [List.getElem_map] at hpre hlt
  exact Framing.split_part (hfs _ (List.getElem_mem hk)).isFrame_bytes hpre hlt

theorem parsed_nil : parsed [] = ⟨[], .waiting []⟩ := Framing.split_short rfl

/-- Nothing arrived yet. -/
theorem cut_nil {rest : Bytes} {k : ℕ} (h : Cut (fs.map Frame.bytes) [] k rest) :
    rest = [] ∧ fs.take k = [] := by
  obtain ⟨hflatten, hrest⟩ := List.append_eq_nil_iff.mp h.eq.symm
  refine ⟨hrest, List.eq_nil_iff_forall_not_mem.mpr fun f hf => ?_⟩
  have hbytes := List.flatten_eq_nil_iff.mp hflatten f.bytes
    (by rw [← List.map_take]; exact List.mem_map_of_mem hf)
  exact List.cons_ne_nil _ _ hbytes

/-- What is bad stays bad when more arrives. -/
theorem parsed_failed_append {rest more : Bytes} (h : parsed rest = ⟨[], .failed⟩) :
    parsed (rest ++ more) = ⟨[], .failed⟩ := by
  have happend : parsed (rest ++ more) = _ := Framing.split_append [] rest more
  rw [parsed] at h
  rwa [h] at happend

/-- **The calls up to a cut of the stream** give the frames in front of it, or reject the stream
where what is left is bad. -/
theorem runChecked_feed {chunks : List Bytes} {rest : Bytes} {k : ℕ}
    (hfs : ∀ f ∈ fs, f.WithinLimits)
    (htail : ∀ r, r <+: tail → parsed r = ⟨[], .waiting r⟩ ∨ parsed r = ⟨[], .failed⟩)
    (hchunks : chunks.flatten <+: (fs.map Frame.bytes).flatten ++ tail)
    (hbatches : InBatches (fs.map Frame.bytes) chunks)
    (hcut : Cut (fs.map Frame.bytes) chunks.flatten k rest) :
    (parsed rest = ⟨[], .waiting rest⟩ → runChecked feed [] chunks = .ok (rest, fs.take k)) ∧
      (parsed rest = ⟨[], .failed⟩ → runChecked feed [] chunks = .error .rejected) := by
  induction chunks using List.reverseRecOn generalizing rest k with
  | nil =>
    obtain ⟨rfl, htake⟩ := cut_nil hcut
    rw [htake, parsed_nil]
    exact ⟨fun _ => rfl, nofun⟩
  | append_singleton chunks chunk ih =>
    rw [List.flatten_append, List.flatten_singleton] at hchunks hcut
    have hbefore := (List.prefix_append chunks.flatten chunk).trans hchunks
    obtain ⟨k₀, rest₀, hcut₀, hend⟩ := exists_cut hbefore
    obtain ⟨hok, hrejected⟩ := ih hbefore hbatches.of_append hcut₀
    have hle := hcut₀.le_of_prefix hcut (List.prefix_append _ _)
    have hrest₀ : parsed rest₀ = ⟨[], .waiting rest₀⟩ ∨
        parsed rest₀ = ⟨[], .failed⟩ ∧ k₀ = (fs.map Frame.bytes).length := by
      rcases Nat.lt_or_eq_of_le hcut₀.le with hlt | heq
      · exact .inl (parsed_rest hfs hcut₀ (by rwa [List.length_map] at hlt))
      · exact (htail rest₀ (hend heq)).imp id fun h => ⟨h, heq⟩
    rcases hrest₀ with hwaiting₀ | ⟨hfailed₀, hk₀⟩
    · have hbatch := hbatches chunks chunk [] k₀ k rfl hcut₀.completed
        (by rw [← List.length_append]; exact hcut.completed)
      obtain ⟨hnext, hbad⟩ := feed_between hfs hcut₀ hcut hbatch
      refine ⟨fun h => ?_, fun h => ?_⟩
      · have htake : fs.take k₀ ++ (fs.take k).drop k₀ = fs.take k := by
          conv_rhs => rw [← List.take_append_drop k₀ (fs.take k), List.take_take, min_eq_left hle]
        rw [runChecked_concat (hok hwaiting₀), hnext h, Except.map]
        dsimp only
        rw [htake]
      · rw [runChecked_concat (hok hwaiting₀), hbad h, Except.map]
    · -- Nothing follows the last frame but what was bad before.
      have hk : k = (fs.map Frame.bytes).length := le_antisymm hcut.le (hk₀ ▸ hle)
      have hrest : rest₀ ++ chunk = rest := by
        rw [hcut₀.between hcut, hk, hk₀, List.take_length, List.drop_length, List.flatten_nil,
          List.nil_append]
      have hfailed : parsed rest = ⟨[], .failed⟩ := hrest ▸ parsed_failed_append hfailed₀
      refine ⟨fun h => ?_, fun _ => runChecked_append_error (hrejected hfailed₀) [chunk]⟩
      exact nomatch hfailed.symm.trans h

end

/-! ## The codec -/

/-- A header that is not one of a frame. -/
structure Malformed (header : Bytes) : Prop where
  length : header.length = kFrameHeaderSize
  bad : FrameType.ofCode (header.headD 0) = none ∨
    kMaxFramePayload < ofBigEndian (slice header 4 4)

theorem Malformed.frameHeader {header : Bytes} (h : Malformed header) :
    frameHeader header = .bad := by
  rw [WebProxy.frameHeader, if_neg (by rw [h.length]; exact lt_irrefl _)]
  rcases h.bad with htype | hsize
  · rw [htype]
  · split
    · rfl
    · rw [if_pos hsize]

theorem Malformed.parsed {header more r : Bytes} (h : Malformed header) (hr : r <+: header ++ more) :
    if kFrameHeaderSize ≤ r.length then parsed r = ⟨[], .failed⟩
    else parsed r = ⟨[], .waiting r⟩ := by
  split
  · next hlong =>
    obtain ⟨rest, rfl⟩ := List.prefix_of_prefix_length_le (List.prefix_append header more) hr
      (h.length.trans_le hlong)
    have hbad : WebProxy.frameHeader (header ++ rest) = .bad := by
      rw [frameHeader_append header rest (by rw [h.frameHeader]; exact nofun), h.frameHeader]
    exact Framing.split_bad hbad
  · next hshort => exact Framing.split_short (if_pos (not_le.mp hshort))

/-- **The codec of the web proxy.**  However a stream of frames arrives, the calls deliver its frames
in order and keep a proper part of the next one; a malformed header is rejected by the first call
that has all of it. -/
theorem frames_delivered {fs : List Frame} {parts : List Bytes}
    (hparts : fs.mapM serializeFrame = .ok parts) :
    (∀ chunks, chunks.flatten <+: parts.flatten → InBatches parts chunks →
      ∃ k rest, runChecked feed [] chunks = .ok (rest, fs.take k) ∧
        Cut parts chunks.flatten k rest ∧ (k = fs.length → rest = [])) ∧
    (∀ chunks, chunks.flatten = parts.flatten → InBatches parts chunks →
      runChecked feed [] chunks = .ok ([], fs)) ∧
    ∀ header more chunks, Malformed header → chunks.flatten <+: parts.flatten ++ (header ++ more) →
      InBatches parts chunks →
      if parts.flatten.length + kFrameHeaderSize ≤ chunks.flatten.length then
        runChecked feed [] chunks = .error .rejected
      else ∃ k rest, runChecked feed [] chunks = .ok (rest, fs.take k) ∧
        Cut parts chunks.flatten k rest := by
  obtain ⟨hfs, rfl⟩ := serializeFrames_eq_ok hparts
  have hlength : (fs.map Frame.bytes).length = fs.length := List.length_map _
  have hgood : ∀ chunks, chunks.flatten <+: (fs.map Frame.bytes).flatten →
      InBatches (fs.map Frame.bytes) chunks → ∃ k rest,
        runChecked feed [] chunks = .ok (rest, fs.take k) ∧
        Cut (fs.map Frame.bytes) chunks.flatten k rest ∧ (k = fs.length → rest = []) := by
    intro chunks hchunks hbatches
    rw [← List.append_nil (fs.map Frame.bytes).flatten] at hchunks
    obtain ⟨k, rest, hcut, hend⟩ := exists_cut hchunks
    have hnil : k = fs.length → rest = [] := fun hk => List.prefix_nil.mp (hend (hk.trans hlength.symm))
    have htail : ∀ r : Bytes, r <+: [] → parsed r = ⟨[], .waiting r⟩ ∨ parsed r = ⟨[], .failed⟩ :=
      fun r hr => .inl (List.prefix_nil.mp hr ▸ parsed_nil)
    have hwaiting : parsed rest = ⟨[], .waiting rest⟩ := by
      rcases Nat.lt_or_eq_of_le hcut.le with hlt | heq
      · exact parsed_rest hfs hcut (hlt.trans_eq hlength)
      · rw [hnil (heq.trans hlength)]
        exact parsed_nil
    exact ⟨k, rest, (runChecked_feed hfs htail hchunks hbatches hcut).1 hwaiting, hcut, hnil⟩
  refine ⟨hgood, fun chunks hchunks hbatches => ?_, fun header more chunks hheader hchunks hbatches => ?_⟩
  · obtain ⟨k, rest, hrun, hcut, hnil⟩ := hgood chunks (hchunks ▸ List.prefix_rfl) hbatches
    have hk := (hcut.length_eq (by rw [hchunks])).1.trans hlength
    rw [hrun, hnil hk, hk, List.take_length]
  · obtain ⟨k, rest, hcut, hend⟩ := exists_cut hchunks
    have htail : ∀ r, r <+: header ++ more →
        parsed r = ⟨[], .waiting r⟩ ∨ parsed r = ⟨[], .failed⟩ := by
      intro r hr
      have hparsed := hheader.parsed hr
      split at hparsed
      · exact .inr hparsed
      · exact .inl hparsed
    obtain ⟨hok, hrejected⟩ := runChecked_feed hfs htail hchunks hbatches hcut
    split
    · next hwhole =>
      obtain ⟨hk, hsum⟩ := hcut.length_eq (by omega)
      have hparsed := hheader.parsed (hend hk)
      rw [if_pos (by omega)] at hparsed
      exact hrejected hparsed
    · next hpart =>
      refine ⟨k, rest, hok ?_, hcut⟩
      rcases Nat.lt_or_eq_of_le hcut.le with hlt | hk
      · exact parsed_rest hfs hcut (hlt.trans_eq hlength)
      · have hsum : chunks.flatten.length = (fs.map Frame.bytes).flatten.length + rest.length := by
          conv_lhs => rw [hcut.eq, hk, List.take_length, List.length_append]
        have hparsed := hheader.parsed (hend hk)
        rwa [if_neg (by omega)] at hparsed

/-- Few frames are always in batches. -/
theorem inBatches_of_small {parts : List Bytes} (hcount : parts.length ≤ kMaxBatchFrames)
    (hint : parts.flatten.length < 2 ^ 31) (chunks : List Bytes) : InBatches parts chunks := by
  intro before chunk after k k' _ _ hk'
  have hall : parts.flatten = (parts.take k').flatten ++ (parts.drop k').flatten := by
    rw [← List.flatten_append, List.take_append_drop]
  have hle := hk'.1
  rw [hall, List.length_append] at hint
  omega

/-- Two frames that arrive in three chunks. -/
theorem frames_delivered_two :
    runChecked feed [] [[1, 0, 0], [7, 0, 0, 0, 0, 2, 0, 0, 7, 0, 0], [0, 1, 42]] =
      .ok ([], [⟨.open, 7, []⟩, ⟨.data, 7, [42]⟩]) := by
  have hparts : [(⟨.open, 7, []⟩ : Frame), ⟨.data, 7, [42]⟩].mapM serializeFrame =
      .ok [[1, 0, 0, 7, 0, 0, 0, 0], [2, 0, 0, 7, 0, 0, 0, 1, 42]] := by decide
  exact (frames_delivered hparts).2.1 _ rfl (inBatches_of_small (by decide) (by decide) _)

/-- Frames that take `2 ^ 31` bytes or more overflow the `int`. -/
theorem parseFramesLoop_overflow {fs : List Frame} (hfs : ∀ f ∈ fs, f.WithinLimits)
    {before : Bytes} {output : List Frame} (hbefore : before.length < 2 ^ 31)
    (hall : 2 ^ 31 ≤ before.length + (fs.map Frame.bytes).flatten.length)
    (hbatch : output.length + fs.length ≤ kMaxBatchFrames) :
    parseFramesLoop (before ++ (fs.map Frame.bytes).flatten) before.length output
      = .error .int := by
  induction fs generalizing before output with
  | nil =>
    rw [List.map_nil, List.flatten_nil, List.length_nil] at hall
    omega
  | cons f fs ih =>
    obtain ⟨hf, hfs⟩ := List.forall_mem_cons.mp hfs
    rw [List.map_cons, List.flatten_cons] at hall ⊢
    rw [List.length_append] at hall
    rw [List.length_cons] at hbatch
    have hheader : frameHeader ((before ++ (f.bytes ++ (fs.map Frame.bytes).flatten)).drop
        before.length) = .size f.bytes.length := by
      rw [List.drop_left]
      exact hf.isFrame_bytes _
    rw [parseFramesLoop_size hheader, if_neg (by simp only [List.length_append]; omega),
      if_neg (by omega)]
    split
    · rfl
    · next hnext =>
      rw [← List.append_assoc, ← List.length_append]
      exact ih hfs (by rw [List.length_append]; omega) (by rw [List.length_append]; omega)
        (by rw [List.length_append, List.length_singleton]; omega)

theorem serializeFrames_ok {fs : List Frame} (hfs : ∀ f ∈ fs, f.WithinLimits) :
    fs.mapM serializeFrame = .ok (fs.map Frame.bytes) := by
  induction fs with
  | nil => rfl
  | cons f fs ih =>
    obtain ⟨hf, hfs⟩ := List.forall_mem_cons.mp hfs
    rw [List.mapM_cons, serializeFrame_eq_ok.mpr ⟨hf, rfl⟩, ih hfs]
    rfl

/-- A frame with the largest payload. -/
def largestFrame : Frame := ⟨.data, 0, List.replicate kMaxFramePayload 0⟩

theorem length_largestFrame : largestFrame.payload.length = kMaxFramePayload := List.length_replicate

theorem length_replicate_bytes (n : ℕ) (frame : Frame) :
    ((List.replicate n frame).map Frame.bytes).flatten.length
      = n * (kFrameHeaderSize + frame.payload.length) := by
  rw [List.map_replicate, List.length_flatten, List.map_replicate, List.sum_replicate_nat,
    Frame.length_bytes]

/-- A batch of frames may be too large for the `int` of `ParseFrames`. -/
theorem large_batch_overflows : ∃ (fs : List Frame) (parts : List Bytes),
    fs.mapM serializeFrame = .ok parts ∧ parts.length ≤ kMaxBatchFrames ∧
      runChecked feed [] [parts.flatten] = .error (.overflow .int) := by
  have hfs : ∀ f ∈ List.replicate 2048 largestFrame, f.WithinLimits := by
    intro f hf
    obtain rfl := List.eq_of_mem_replicate hf
    exact ⟨Nat.zero_le _, List.length_replicate.le⟩
  have hall : 2 ^ 31 ≤ ((List.replicate 2048 largestFrame).map Frame.bytes).flatten.length := by
    rw [length_replicate_bytes, length_largestFrame]
    decide
  have hloop : parseFramesLoop ([] ++ ((List.replicate 2048 largestFrame).map Frame.bytes).flatten)
      0 [] = .error .int :=
    parseFramesLoop_overflow hfs (by decide) (by rwa [List.length_nil, Nat.zero_add])
      (by rw [List.length_replicate]; decide)
  refine ⟨_, _, serializeFrames_ok hfs, by rw [List.length_map, List.length_replicate]; decide, ?_⟩
  rw [List.nil_append] at hloop
  rw [runChecked, feed, parseFrames, List.nil_append, hloop]

end WebProxy

end Mtproto

end Yunogram
