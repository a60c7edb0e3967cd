import Yunogram.Machinery.LittleEndian
import Yunogram.Mtproto.TcpProtocol

/-!
# Mtproto/TcpFinalize — the packets the TCP transport writes

`finalizePacket` of the versions of `mtproto/connection_tcp.cpp`.  A buffer has two ints in front of
its payload; the size is written there, and the packet starts at its first byte.  `VersionD` adds up
to fifteen random bytes behind the payload, which count in its size.

`packet_read_back`: a packet of a size that the reading side admits is read back.  The writer admits
a payload of `2 ^ 24` ints too, which does not fit in the three bytes of its size, and for
`VersionD` sizes from `kPacketSizeMax` on, which the reader refuses (`packet_refused`).
-/

open Machinery

namespace Yunogram

namespace Mtproto

/-- `mtpBuffer`. -/
abbrev MtpBuffer := List UInt32

/-- The bytes of a buffer. -/
def MtpBuffer.bytes (buffer : MtpBuffer) : Bytes := buffer.flatMap fun i => littleEndian 4 i.toNat

namespace Protocol

/-- `Version0::finalizePacket`. -/
def finalizePacket0 (buffer : MtpBuffer) : Except Fault Bytes := do
  expects (2 < buffer.length ∧ buffer.length < 0x1000003)
  let intsSize := buffer.length - 2
  let bytesSize := intsSize * 4
  if intsSize < 0x7F then
    subspan (overwrite buffer.bytes 7 [UInt8.ofNat intsSize]) 7 (1 + bytesSize)
  else
    let header := [0x7F, UInt8.ofNat (intsSize &&& 0xFF), UInt8.ofNat (intsSize >>> 8 &&& 0xFF),
      UInt8.ofNat (intsSize >>> 16 &&& 0xFF)]
    subspan (overwrite buffer.bytes 4 header) 4 (4 + bytesSize)

/-- `VersionD::finalizePacket`; `random` chooses the number of bytes added and `added` the ints they
are from. -/
def finalizePacketD (random : UInt32) (added : ℕ → UInt32) (buffer : MtpBuffer) :
    Except Fault Bytes := do
  expects (2 < buffer.length ∧ buffer.length < 0x1000003)
  let intsSize := buffer.length - 2
  let padding := random.toNat &&& 0x0F
  let bytesSize := intsSize * 4 + padding
  let buffer := buffer.set 1 (UInt32.ofNat bytesSize)
  let buffer : MtpBuffer := buffer ++ (List.range ((padding + 3) / 4)).map added
  subspan buffer.bytes 4 (4 + bytesSize)

/-- `finalizePacket`. -/
def finalizePacket (random : UInt32) (added : ℕ → UInt32) :
    Protocol → MtpBuffer → Except Fault Bytes
  | version0, buffer => finalizePacket0 buffer
  | version1, buffer => finalizePacket0 buffer
  | versionD, buffer => finalizePacketD random added buffer

/-! ## The bytes of a packet -/

variable {buffer payload : MtpBuffer} {a b : UInt32} {random : UInt32} {added : ℕ → UInt32} {n : ℕ}

theorem length_bytes (buffer : MtpBuffer) : buffer.bytes.length = 4 * buffer.length := by
  induction buffer with
  | nil => rfl
  | cons i buffer ih =>
    rw [MtpBuffer.bytes] at ih ⊢
    rw [List.flatMap_cons, List.length_append, ih, length_littleEndian, List.length_cons]
    omega

theorem bytes_append (buffer buffer' : MtpBuffer) :
    MtpBuffer.bytes (buffer ++ buffer') = buffer.bytes ++ MtpBuffer.bytes buffer' :=
  List.flatMap_append

theorem bytes_cons (i : UInt32) (buffer : MtpBuffer) :
    MtpBuffer.bytes (i :: buffer) = littleEndian 4 i.toNat ++ buffer.bytes := List.flatMap_cons

/-- The size of a payload, in one byte or behind `0x7F` in three. -/
def header0 (n : ℕ) : Bytes :=
  if n < 0x7F then [UInt8.ofNat n]
  else [0x7F, UInt8.ofNat (n &&& 0xFF), UInt8.ofNat (n >>> 8 &&& 0xFF),
    UInt8.ofNat (n >>> 16 &&& 0xFF)]

/-- A view of what was written just behind the first bytes, and of what lies there. -/
theorem subspan_overwrite {front rest c : Bytes} {k m : ℕ} (hfront : front.length = k + c.length)
    (hm : c.length + m ≤ c.length + rest.length) :
    subspan (overwrite (front ++ rest) k c) k (c.length + m) = .ok (c ++ rest.take m) := by
  have hover : overwrite (front ++ rest) k c = front.take k ++ (c ++ rest) := by
    rw [overwrite, List.take_append_of_le_length (by omega), ← hfront, List.drop_left,
      List.append_assoc]
  have hk : (front.take k).length = k := by
    rw [List.length_take]
    omega
  rw [hover, subspan_ok (by simp only [List.length_append, hk]; omega), slice,
    List.drop_left' hk, List.take_append, List.take_of_length_le (by omega),
    Nat.add_sub_cancel_left]

/-- **The packet of `Version0`**: the size, then the payload. -/
theorem finalizePacket0_eq (hpos : 0 < payload.length) (hlt : payload.length + 2 < 0x1000003) :
    finalizePacket0 (a :: b :: payload) = .ok (header0 payload.length ++ payload.bytes) := by
  have hfront : (littleEndian 4 a.toNat ++ littleEndian 4 b.toNat).length = 8 := by simp
  have hdata : MtpBuffer.bytes (a :: b :: payload) =
      (littleEndian 4 a.toNat ++ littleEndian 4 b.toNat) ++ payload.bytes := by
    rw [bytes_cons, bytes_cons, List.append_assoc]
  have hall : payload.bytes.take (payload.length * 4) = payload.bytes :=
    List.take_of_length_le (by rw [length_bytes]; omega)
  have hlength := length_bytes payload
  have hn : (a :: b :: payload).length - 2 = payload.length := rfl
  rw [finalizePacket0, expects_ok ⟨by simp only [List.length_cons]; omega, hlt⟩, ok_bind]
  dsimp only
  rw [hn, hdata, header0]
  split_ifs
  · exact (subspan_overwrite hfront (by omega)).trans (by rw [hall])
  · exact (subspan_overwrite hfront (by omega)).trans (by rw [hall])

/-- **The packet of `VersionD`**: the size, the payload and the padding. -/
theorem finalizePacketD_eq (hpos : 0 < payload.length) (hlt : payload.length + 2 < 0x1000003) :
    ∃ padding : Bytes, padding.length = random.toNat &&& 0x0F ∧
      finalizePacketD random added (a :: b :: payload) =
        .ok (littleEndian 4 (payload.length * 4 + padding.length) ++
          (payload.bytes ++ padding)) := by
  have hn : (a :: b :: payload).length - 2 = payload.length := rfl
  have hle : random.toNat &&& 0x0F ≤ 0x0F := Nat.and_le_right
  set count := random.toNat &&& 0x0F with hcount
  set more : MtpBuffer := (List.range ((count + 3) / 4)).map added with hmore
  have hmoreLength : more.bytes.length = 4 * ((count + 3) / 4) := by
    rw [length_bytes, hmore, List.length_map, List.length_range]
  have hsize : (UInt32.ofNat (payload.length * 4 + count)).toNat = payload.length * 4 + count := by
    rw [UInt32.toNat_ofNat']
    omega
  have hpadding : (more.bytes.take count).length = count := by
    rw [List.length_take]
    omega
  refine ⟨more.bytes.take count, hpadding, ?_⟩
  have hdata : MtpBuffer.bytes (((a :: b :: payload).set 1
      (UInt32.ofNat (payload.length * 4 + count))) ++ more) =
        littleEndian 4 a.toNat ++
          (littleEndian 4 (payload.length * 4 + count) ++ (payload.bytes ++ more.bytes)) := by
    rw [List.set_cons_succ, List.set_cons_zero, List.cons_append, List.cons_append, bytes_cons,
      bytes_cons, bytes_append, hsize]
  have hlength := length_bytes payload
  rw [finalizePacketD, expects_ok ⟨by simp only [List.length_cons]; omega, hlt⟩, ok_bind]
  dsimp only
  rw [hn, ← hcount, hdata,
    subspan_ok (by simp only [List.length_append, length_littleEndian]; omega), slice,
    List.drop_left' (length_littleEndian _ _), List.take_append,
    List.take_of_length_le (by rw [length_littleEndian]; omega), length_littleEndian,
    Nat.add_sub_cancel_left, List.take_append, List.take_of_length_le (by omega), hpadding]
  have hrest : payload.length * 4 + count - payload.bytes.length = count := by omega
  rw [hrest]

/-! ## What the reader makes of it -/

/-- Three bytes of a number, put together again. -/
theorem three_bytes (n : ℕ) :
    (UInt8.ofNat (n &&& 0xFF)).toNat ||| (UInt8.ofNat (n >>> 8 &&& 0xFF)).toNat <<< 8 |||
      (UInt8.ofNat (n >>> 16 &&& 0xFF)).toNat <<< 16 = n % 2 ^ 24 := by
  have hbyte : ∀ k : ℕ, (UInt8.ofNat (k &&& 0xFF)).toNat = k % 256 := fun k => by
    rw [UInt8.toNat_ofNat', Nat.and_two_pow_sub_one_eq_mod k 8]
    omega
  rw [hbyte, hbyte, hbyte, Nat.shiftRight_eq_div_pow, Nat.shiftRight_eq_div_pow,
    or_shiftLeft (k := 8) (by omega), or_shiftLeft (k := 16) (by omega)]
  omega

/-- Four bytes read as an `uint32`. -/
theorem four_bytes (b0 b1 b2 b3 : UInt8) :
    b0.toNat ||| b1.toNat <<< 8 ||| b2.toNat <<< 16 ||| b3.toNat <<< 24 =
      ofLittleEndian [b0, b1, b2, b3] := by
  have h0 := b0.toNat_lt
  have h1 := b1.toNat_lt
  have h2 := b2.toNat_lt
  simp only [ofLittleEndian]
  rw [or_shiftLeft (k := 8) (by omega), or_shiftLeft (k := 16) (by omega),
    or_shiftLeft (k := 24) (by omega)]
  omega

/-- The size of a payload is read, unless its three bytes are too few. -/
theorem readPacketLength0_header0 (hpos : 0 < n) (rest : Bytes) :
    readPacketLength0 (header0 n ++ rest) =
      if n < 0x7F then ((n * 4 + 1 : ℕ) : ℤ)
      else if 0x7F ≤ n % 2 ^ 24 then (((n % 2 ^ 24) * 4 + 4 : ℕ) : ℤ) else kInvalidSize := by
  have hthree := three_bytes n
  rw [header0]
  split_ifs with hsmall hlarge
  · have hn : (UInt8.ofNat n).toNat = n := by
      rw [UInt8.toNat_ofNat']
      omega
    have hne : UInt8.ofNat n ≠ 0x7F := fun h => by
      have hval : (UInt8.ofNat n).toNat = 0x7F := congrArg UInt8.toNat h
      omega
    have hbetween : 0 < UInt8.ofNat n ∧ UInt8.ofNat n < 0x7F :=
      ⟨UInt8.lt_iff_toNat_lt.mpr (by rw [hn]; exact hpos),
        UInt8.lt_iff_toNat_lt.mpr (by rw [hn]; exact hsmall)⟩
    simp only [List.singleton_append, readPacketLength0, if_neg hne, if_pos hbetween, hn]
    rw [Nat.shiftLeft_eq]
    rfl
  · simp only [List.cons_append, List.nil_append, readPacketLength0, if_true]
    rw [hthree, if_pos hlarge, Nat.shiftLeft_eq]
    rfl
  · simp only [List.cons_append, List.nil_append, readPacketLength0, if_true]
    rw [hthree, if_neg hlarge]

theorem readPacketLengthD_littleEndian (hlt : n < 256 ^ 4) (rest : Bytes) :
    readPacketLengthD (littleEndian 4 n ++ rest) =
      if 8 ≤ (n + 4) % 2 ^ 32 ∧ (n + 4) % 2 ^ 32 < kPacketSizeMax then (((n + 4) % 2 ^ 32 : ℕ) : ℤ)
      else kInvalidSize := by
  have hread := ofLittleEndian_littleEndian hlt
  obtain ⟨b0, b1, b2, b3, hfour⟩ := List.length_eq_four.mp (length_littleEndian 4 n)
  rw [hfour] at hread ⊢
  simp only [List.cons_append, List.nil_append, readPacketLengthD, four_bytes, hread]

/-- How many random bytes a version adds. -/
def paddingLength (random : UInt32) : Protocol → ℕ
  | versionD => random.toNat &&& 0x0F
  | _ => 0

/-- The sizes the reading side admits: `n` ints of payload with `padding` bytes behind them. -/
def admitted : Protocol → ℕ → ℕ → Prop
  | versionD, n, padding => n * 4 + padding + 4 < kPacketSizeMax
  | _, n, _ => n < 2 ^ 24

theorem paddingLength_lt (random : UInt32) (p : Protocol) : p.paddingLength random < 16 := by
  have hle : random.toNat &&& 0x0F ≤ 0x0F := Nat.and_le_right
  cases p <;> simp only [paddingLength] <;> omega

/-- The size in front of a packet of `n` ints with `padding` bytes behind them. -/
def sizeField : Protocol → ℕ → ℕ → Bytes
  | versionD, n, padding => littleEndian 4 (n * 4 + padding)
  | _, n, _ => header0 n

/-- **A packet is a size, the payload and the padding.** -/
theorem finalizePacket_eq (p : Protocol) (hpos : 0 < payload.length)
    (hlt : payload.length + 2 < 0x1000003) :
    ∃ padding : Bytes, padding.length = p.paddingLength random ∧
      finalizePacket random added p (a :: b :: payload) =
        .ok (p.sizeField payload.length padding.length ++ (payload.bytes ++ padding)) := by
  cases p with
  | versionD => exact finalizePacketD_eq hpos hlt
  | _ => exact ⟨[], rfl, by rw [List.append_nil]; exact finalizePacket0_eq hpos hlt⟩

/-- A buffer is two ints and a payload. -/
theorem exists_payload (hbuffer : 2 < buffer.length ∧ buffer.length < 0x1000003) :
    ∃ a b payload, buffer = a :: b :: payload ∧ 0 < payload.length ∧
      payload.length + 2 < 0x1000003 := by
  match buffer, hbuffer with
  | a :: b :: payload, hbuffer =>
    refine ⟨a, b, payload, rfl, ?_, hbuffer.2⟩
    have hlt := hbuffer.1
    simp only [List.length_cons] at hlt
    omega

theorem length_header0 (n : ℕ) : (header0 n).length = if n < 0x7F then 1 else 4 := by
  rw [header0]
  split_ifs <;> rfl

theorem sizeLength_header0 (n : ℕ) (rest : Bytes) :
    (if (header0 n ++ rest).head? = some 0x7F then 4 else 1) = (header0 n).length := by
  rw [length_header0, header0]
  by_cases hn : n < 0x7F
  · have hne : ([UInt8.ofNat n] ++ rest).head? ≠ some 0x7F := fun h => by
      have hsize : UInt8.ofNat n = 0x7F := Option.some.inj h
      have hval : (UInt8.ofNat n).toNat = 0x7F := congrArg UInt8.toNat hsize
      rw [UInt8.toNat_ofNat'] at hval
      omega
    rw [if_pos hn, if_pos hn, if_neg hne]
  · rw [if_neg hn, if_neg hn]
    rfl

theorem sizeLength_sizeField (p : Protocol) (n padding : ℕ) (rest : Bytes) :
    p.sizeLength (p.sizeField n padding ++ rest) = (p.sizeField n padding).length := by
  cases p with
  | versionD => exact (length_littleEndian 4 _).symm
  | _ => exact sizeLength_header0 n rest

/-- **An admitted size is read.** -/
theorem readPacketLength_sizeField (p : Protocol) (hpos : 0 < n) (rest : Bytes)
    (h : p.admitted n (p.paddingLength random)) :
    p.readPacketLength (p.sizeField n (p.paddingLength random) ++ rest) =
      ((p.sizeField n (p.paddingLength random)).length + (n * 4 + p.paddingLength random) : ℕ) := by
  have h0 (hn : n < 2 ^ 24) : readPacketLength0 (header0 n ++ rest) =
      ((header0 n).length + (n * 4 + 0) : ℕ) := by
    rw [readPacketLength0_header0 hpos, length_header0, Nat.mod_eq_of_lt hn]
    split_ifs <;> omega
  cases p with
  | versionD =>
    have hlt : n * 4 + paddingLength random versionD + 4 < kPacketSizeMax := h
    have hmax : kPacketSizeMax = 2 ^ 26 := rfl
    show readPacketLengthD (littleEndian 4 _ ++ rest) = ((littleEndian 4 _).length + _ : ℕ)
    rw [readPacketLengthD_littleEndian (by omega), length_littleEndian, Nat.mod_eq_of_lt (by omega),
      if_pos (by omega), Nat.add_comm]
  | _ => exact h0 h

/-- **A size that is not admitted is refused.** -/
theorem readPacketLength_refused (p : Protocol) (hpos : 0 < n) (hn : n ≤ 2 ^ 24) (rest : Bytes)
    (h : ¬p.admitted n (p.paddingLength random)) :
    p.readPacketLength (p.sizeField n (p.paddingLength random) ++ rest) = kInvalidSize := by
  have h0 (hnot : ¬n < 2 ^ 24) : readPacketLength0 (header0 n ++ rest) = kInvalidSize := by
    obtain rfl : n = 2 ^ 24 := by omega
    exact readPacketLength0_header0 hpos rest
  have hpad := paddingLength_lt random p
  cases p with
  | versionD =>
    have hnot : ¬n * 4 + paddingLength random versionD + 4 < kPacketSizeMax := h
    have hmax : kPacketSizeMax = 2 ^ 26 := rfl
    show readPacketLengthD (littleEndian 4 _ ++ rest) = kInvalidSize
    rw [readPacketLengthD_littleEndian (by omega), Nat.mod_eq_of_lt (by omega), if_neg (by omega)]
  | _ => exact h0 h

theorem packet_refused (p : Protocol) (random : UInt32) (added : ℕ → UInt32) (buffer : MtpBuffer)
    (hbuffer : 2 < buffer.length ∧ buffer.length < 0x1000003)
    (hsize : ¬p.admitted (buffer.length - 2) (p.paddingLength random)) :
    ∃ packet, finalizePacket random added p buffer = .ok packet ∧
      p.readPacketLength packet = kInvalidSize := by
  obtain ⟨a, b, payload, rfl, hpos, hlt⟩ := exists_payload hbuffer
  obtain ⟨padding, hpadding, hpacket⟩ := finalizePacket_eq p hpos hlt
  refine ⟨_, hpacket, ?_⟩
  rw [hpadding]
  exact readPacketLength_refused p hpos (by omega) _ hsize

/-- What lies behind the size is read. -/
theorem readPacket_sizeField (p : Protocol) {size content : Bytes}
    (hlength : p.readPacketLength (size ++ content) = (size.length + content.length : ℕ))
    (hsize : p.sizeLength (size ++ content) = size.length) :
    p.readPacket (size ++ content) = .ok content := by
  rw [readPacket, hlength, hsize, expects_ok ⟨by rw [kUnknownSize]; omega,
    by rw [kInvalidSize]; omega, by rw [List.length_append]⟩, ok_bind, Int.toNat_natCast,
    Nat.add_sub_cancel_left, subspan_ok (by rw [List.length_append]), slice, List.drop_left,
    List.take_length]

/-- **A packet is read back**: of every size that both sides admit its length is the one its first
bytes tell, and what is read is the payload, behind which `VersionD` has fewer than sixteen bytes of
padding. -/
theorem packet_read_back (p : Protocol) (random : UInt32) (added : ℕ → UInt32) (buffer : MtpBuffer)
    (hbuffer : 2 < buffer.length ∧ buffer.length < 0x1000003)
    (hsize : p.admitted (buffer.length - 2) (p.paddingLength random)) :
    ∃ packet padding, finalizePacket random added p buffer = .ok packet ∧
      p.readPacketLength packet = packet.length ∧
      p.readPacket packet = .ok (MtpBuffer.bytes (buffer.drop 2) ++ padding) ∧
      padding.length < 16 ∧ (p ≠ versionD → padding = []) := by
  obtain ⟨a, b, payload, rfl, hpos, hlt⟩ := exists_payload hbuffer
  obtain ⟨padding, hpadding, hpacket⟩ := finalizePacket_eq p hpos hlt
  have hread := readPacketLength_sizeField p hpos (MtpBuffer.bytes payload ++ padding) hsize
  rw [← hpadding] at hread
  have hlength : p.readPacketLength (p.sizeField payload.length padding.length ++
      (MtpBuffer.bytes payload ++ padding)) = ((p.sizeField payload.length padding.length).length +
        (MtpBuffer.bytes payload ++ padding).length : ℕ) := by
    rw [hread, List.length_append, length_bytes, Nat.mul_comm]
  refine ⟨_, padding, hpacket, by rw [hlength, ← List.length_append],
    readPacket_sizeField p hlength (sizeLength_sizeField p _ _ _), ?_, fun hp => ?_⟩
  · rw [hpadding]
    exact p.paddingLength_lt random
  · refine List.length_eq_zero_iff.mp (hpadding.trans ?_)
    cases p with
    | versionD => exact absurd rfl hp
    | _ => rfl

theorem packet_read_back_one : ∃ packet padding,
    finalizePacket 0 (fun _ => 0) versionD [0, 0, 7] = .ok packet ∧
      versionD.readPacketLength packet = packet.length ∧
      versionD.readPacket packet = .ok (MtpBuffer.bytes [7] ++ padding) ∧
      padding.length < 16 ∧ (versionD ≠ versionD → padding = []) :=
  packet_read_back versionD 0 (fun _ => 0) [0, 0, 7] (by decide)
    (by show 1 * 4 + 0 + 4 < kPacketSizeMax; decide)

/-- `VersionD` adds a single byte, and the reader of `Version0` refuses the longest payload that its
writer admits. -/
theorem single_byte_added_and_longest_refused :
    (∃ packet, finalizePacket 1 (fun _ => 0) versionD [0, 0, 7] = .ok packet ∧
      versionD.readPacket packet = .ok (MtpBuffer.bytes [7] ++ [0])) ∧
    (∃ buffer : MtpBuffer, (2 < buffer.length ∧ buffer.length < 0x1000003) ∧
      ∃ packet, finalizePacket 0 (fun _ => 0) version0 buffer = .ok packet ∧
        version0.readPacketLength packet = kInvalidSize) := by
  refine ⟨⟨_, rfl, by decide +kernel⟩, List.replicate (2 ^ 24 + 2) 0, ?_, ?_⟩
  · rw [List.length_replicate]
    omega
  · refine packet_refused version0 0 (fun _ => 0) _ ?_ ?_
    · rw [List.length_replicate]
      omega
    · rw [List.length_replicate, admitted.eq_2 _ _ _ (by decide)]
      omega

end Protocol

end Mtproto

end Yunogram
