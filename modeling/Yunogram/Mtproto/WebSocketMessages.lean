import Yunogram.Machinery.Digits
import Yunogram.Machinery.Framing
import Yunogram.Mtproto.WebSocket

/-!
# Mtproto/WebSocketMessages — what a browser sends arrives as the messages it sent

`RawFrame` is a frame with all that can be written in it, so also one that breaks the rules.
`Sends` says that frames carry messages, each cut into pieces as the browser likes, with pings and
pongs in between; `Lawful` that a frame obeys the rules where it stands.

`local_web_socket`: however the bytes are read, the messages are handed over in order and whole, and
a frame that breaks a rule closes the connection with nothing handed over after it.  A client whose
connection is closed by what follows a message has got a part of the messages. -/

open Machinery

namespace Yunogram

namespace Mtproto

namespace WebSocket

/-! ## Frames on the wire -/

/-- How a size is written. -/
inductive LengthForm
  | one
  | two
  | eight

/-- A frame as it is sent. -/
structure RawFrame where
  fin : Bool
  reserved : ℕ
  opcode : UInt8
  masked : Bool
  form : LengthForm
  mask : Bytes
  payload : Bytes

namespace RawFrame

/-- The seven bits of the size in the second byte. -/
def sizeBits (f : RawFrame) : ℕ :=
  match f.form with
  | .one => f.payload.length
  | .two => 126
  | .eight => 127

/-- The bytes of the size behind them. -/
def sizeBytes (f : RawFrame) : Bytes :=
  match f.form with
  | .one => []
  | .two => bigEndian 2 f.payload.length
  | .eight => bigEndian 8 f.payload.length

/-- The bytes of a frame. -/
def bytes (f : RawFrame) : Bytes :=
  UInt8.ofNat (f.fin.toNat * 128 + f.reserved * 16 + f.opcode.toNat) ::
    UInt8.ofNat (f.masked.toNat * 128 + f.sizeBits) ::
      (f.sizeBytes ++ if f.masked then f.mask ++ unmask f.mask f.payload else f.payload)

/-- A frame of data, and not of control. -/
def isData (f : RawFrame) : Bool := f.opcode.toNat < 8

/-- What is written fits where it is written. -/
structure Valid (f : RawFrame) : Prop where
  reserved_lt : f.reserved < 8
  opcode_lt : f.opcode.toNat < 16
  mask_length : f.mask.length = 4
  size_lt : match f.form with
    | .one => f.payload.length < 126
    | .two => f.payload.length < 2 ^ 16
    | .eight => f.payload.length < 2 ^ 64

/-- The size is written in the shortest form. -/
def Minimal (f : RawFrame) : Prop :=
  match f.form with
  | .one => True
  | .two => 126 ≤ f.payload.length
  | .eight => 2 ^ 16 ≤ f.payload.length

instance (f : RawFrame) : Decidable f.Minimal := by
  unfold Minimal
  cases f.form <;> infer_instance

/-- The rules for a header. -/
structure Sound (f : RawFrame) : Prop where
  reserved : f.reserved = 0
  masked : f.masked = true
  minimal : f.Minimal
  size : f.payload.length ≤ kMaxLocalWebSocketPayload
  control : 8 ≤ f.opcode.toNat → f.fin = true ∧ f.payload.length ≤ 125

end RawFrame

/-! ## Messages in fragments -/

/-- What a frame carries. -/
structure Fragment where
  fin : Bool
  opcode : UInt8
  payload : Bytes

/-- What a frame carries. -/
def RawFrame.fragment (f : RawFrame) : Fragment := ⟨f.fin, f.opcode, f.payload⟩

/-- The frames of a message in pieces: the first has the opcode, the last is marked. -/
def fragments (opcode : UInt8) : List Bytes → List Fragment
  | [] => []
  | [piece] => [⟨true, opcode, piece⟩]
  | piece :: next :: pieces => ⟨false, opcode, piece⟩ :: fragments 0x00 (next :: pieces)

/-- A message cut into pieces. -/
structure Cutting where
  message : Message
  pieces : List Bytes

/-- A message of text or binary data within the limit, and all its pieces. -/
structure Cutting.Valid (c : Cutting) : Prop where
  opcode : c.message.opcode = 0x01 ∨ c.message.opcode = 0x02
  pieces_ne : c.pieces ≠ []
  flatten : c.pieces.flatten = c.message.payload
  size : c.message.payload.length ≤ kMaxLocalWebSocketPayload

/-- **The frames carry the messages**: cut into pieces somehow, with pings and pongs in between. -/
structure Sends (cuttings : List Cutting) (frames : List RawFrame) : Prop where
  cut : ∀ c ∈ cuttings, c.Valid
  valid : ∀ f ∈ frames, f.Valid
  headers : ∀ f ∈ frames, f.reserved = 0 ∧ f.masked = true ∧ f.Minimal
  control : ∀ f ∈ frames, 8 ≤ f.opcode.toNat →
    (f.opcode = 0x09 ∨ f.opcode = 0x0A) ∧ f.fin = true ∧ f.payload.length ≤ 125
  data : (frames.filter RawFrame.isData).map RawFrame.fragment =
    cuttings.flatMap fun c => fragments c.message.opcode c.pieces

/-! ## The rules -/

/-- The rules for what a frame carries, with the part of a message that came before. -/
def Fragment.Lawful (part : Option Message) (f : Fragment) : Prop :=
  f.opcode = 0x09 ∨ f.opcode = 0x0A ∨
    (f.opcode = 0x00 ∧ ∃ m, part = some m ∧
      (m.payload ++ f.payload).length ≤ kMaxLocalWebSocketPayload) ∨
    (f.opcode = 0x01 ∨ f.opcode = 0x02) ∧ part = none

/-- The part of a message after a frame, and the message it completes. -/
def Fragment.accept (part : Option Message) (f : Fragment) : Option Message × List Message :=
  if 8 ≤ f.opcode.toNat then (part, [])
  else
    let message : Message := match part with
      | some m => ⟨m.opcode, m.payload ++ f.payload⟩
      | none => ⟨f.opcode, f.payload⟩
    if f.fin then (none, [message]) else (some message, [])

/-- A frame obeys the rules. -/
def RawFrame.Lawful (part : Option Message) (f : RawFrame) : Prop :=
  f.Valid ∧ f.Sound ∧ f.fragment.Lawful part

/-- The messages of some frames, and the part of one behind them. -/
def assemble (part : Option Message) : List Fragment → Option Message × List Message
  | [] => (part, [])
  | f :: fragments =>
    let (part, completed) := f.accept part
    let (rest, messages) := assemble part fragments
    (rest, completed ++ messages)

/-- Some frames obey the rules. -/
def LawfulFrames (part : Option Message) : List RawFrame → Prop
  | [] => True
  | f :: frames => f.Lawful part ∧ LawfulFrames (f.fragment.accept part).1 frames

/-- The bytes of some frames. -/
def wire (frames : List RawFrame) : Bytes := frames.flatMap RawFrame.bytes

/-! ## The header that is read -/

/-- The bits of the first byte. -/
theorem first_byte : ∀ fin : Bool, ∀ reserved < 8, ∀ opcode < 16,
    decide (UInt8.ofNat (fin.toNat * 128 + reserved * 16 + opcode) &&& 0x80 ≠ 0) = fin ∧
      UInt8.ofNat (fin.toNat * 128 + reserved * 16 + opcode) &&& 0x0F = UInt8.ofNat opcode ∧
      (UInt8.ofNat (fin.toNat * 128 + reserved * 16 + opcode) &&& 0x70 ≠ 0 ↔ reserved ≠ 0) := by
  decide +kernel

/-- The bits of the second byte. -/
theorem second_byte : ∀ masked : Bool, ∀ size < 128,
    decide (UInt8.ofNat (masked.toNat * 128 + size) &&& 0x80 ≠ 0) = masked ∧
      UInt8.ofNat (masked.toNat * 128 + size) &&& 0x7F = UInt8.ofNat size := by
  decide +kernel

theorem control_bit : ∀ opcode < 16,
    decide (UInt8.ofNat opcode &&& 0x08 ≠ 0) = decide (8 ≤ opcode) := by
  decide +kernel

variable {f : RawFrame} {c b : Bytes}

/-- The length of a header before the mask. -/
def RawFrame.headerLength (f : RawFrame) : ℕ := 2 + f.sizeBytes.length

theorem RawFrame.Valid.sizeBits_lt (h : f.Valid) : f.sizeBits < 128 := by
  have hsize := h.size_lt
  rw [sizeBits]
  split
  · next hform =>
    rw [hform] at hsize
    exact hsize.trans (by decide)
  · decide
  · decide

theorem readSize_one {n : ℕ} (hn : n < 126) (c : Bytes) :
    readSize (UInt8.ofNat n) c = .size 2 n := by
  have hval : (UInt8.ofNat n).toNat = n := by
    rw [UInt8.toNat_ofNat']
    omega
  have hne (k : ℕ) (hk : 126 ≤ k) (hlt : k < 256) : UInt8.ofNat n ≠ UInt8.ofNat k := fun h => by
    have heq := congrArg UInt8.toNat h
    rw [hval, UInt8.toNat_ofNat'] at heq
    omega
  have h126 := hne 126 (by decide) (by decide)
  have h127 := hne 127 (by decide) (by decide)
  unfold readSize
  exact (if_neg h126).trans ((if_neg h127).trans (by rw [hval]))

theorem readSize_two {n : ℕ} (hn : n < 2 ^ 16) (c : Bytes) :
    readSize 126 (bigEndian 2 n ++ c) = if n < 126 then .close 1002 else .size 4 n := by
  have hvalue := ofBigEndian_bigEndian (show n < 256 ^ 2 from hn)
  obtain ⟨d2, d3, hd⟩ := List.length_eq_two.mp (length_bigEndian 2 n)
  rw [hd] at hvalue ⊢
  have hread : d2.toNat <<< 8 ||| d3.toNat = n := by
    rw [← hvalue]
    simp [ofBigEndian]
  simp only [readSize, if_true, List.cons_append, List.nil_append, hread]

theorem high_bit : ∀ n < 256, (UInt8.ofNat n &&& 0x80 ≠ 0 ↔ 128 ≤ n) := by
  decide +kernel

theorem readSize_eight {n : ℕ} (hn : n < 2 ^ 64) (c : Bytes) :
    readSize 127 (bigEndian 8 n ++ c) =
      if 2 ^ 63 ≤ n ∨ n ≤ 0xFFFF then .close 1002 else .size 10 n := by
  have hvalue := ofBigEndian_bigEndian (show n < 256 ^ 8 from hn)
  obtain ⟨d2, d3, d4, d5, d6, d7, d8, d9, hd⟩ : ∃ d2 d3 d4 d5 d6 d7 d8 d9,
      bigEndian 8 n = [d2, d3, d4, d5, d6, d7, d8, d9] := ⟨_, _, _, _, _, _, _, _, rfl⟩
  rw [hd] at hvalue ⊢
  have hhigh := ofBigEndian_cons d2 [d3, d4, d5, d6, d7, d8, d9]
  have hlow : ofBigEndian [d3, d4, d5, d6, d7, d8, d9] < 256 ^ 7 := ofBigEndian_lt _
  rw [hvalue, show [d3, d4, d5, d6, d7, d8, d9].length = 7 from rfl] at hhigh
  have hbit := high_bit d2.toNat d2.toNat_lt
  rw [UInt8.ofNat_toNat] at hbit
  have hiff : d2 &&& 0x80 ≠ 0 ↔ 2 ^ 63 ≤ n := hbit.trans ⟨fun h => by omega, fun h => by omega⟩
  simp only [readSize, if_true, List.cons_append, List.nil_append, hvalue]
  rw [if_neg (by decide)]
  by_cases hlarge : 2 ^ 63 ≤ n
  · rw [if_pos (hiff.mpr hlarge), if_pos (Or.inl hlarge)]
  · rw [if_neg fun h => hlarge (hiff.mp h)]
    simp only [hlarge, false_or]

/-- What follows the size in a frame. -/
def RawFrame.content (f : RawFrame) : Bytes :=
  if f.masked then f.mask ++ unmask f.mask f.payload else f.payload

/-- **A header as it is read.** -/
theorem RawFrame.Valid.readHeader (h : f.Valid) (c : Bytes) :
    WebSocket.readHeader (f.bytes ++ c) =
      if f.reserved ≠ 0 ∨ !f.masked then .close 1002
      else match readSize (UInt8.ofNat f.sizeBits) (f.sizeBytes ++ (f.content ++ c)) with
        | .short => .short
        | .close code => .close code
        | .size header size =>
          if kMaxLocalWebSocketPayload < size ∨ 8 ≤ f.opcode.toNat ∧ (!f.fin ∨ 125 < size) then
            .close 1009
          else .frame f.fin f.opcode header size := by
  obtain ⟨hfin, hopcode, hreserved⟩ :=
    first_byte f.fin f.reserved h.reserved_lt f.opcode.toNat h.opcode_lt
  obtain ⟨hmasked, hsize⟩ := second_byte f.masked f.sizeBits h.sizeBits_lt
  have hcontrol := control_bit f.opcode.toNat h.opcode_lt
  rw [UInt8.ofNat_toNat] at hopcode hcontrol
  rw [bytes, List.cons_append, List.cons_append, WebSocket.readHeader, hfin, hopcode, hmasked,
    hsize, hcontrol, List.append_assoc, ← content]
  simp only [hreserved, decide_eq_true_eq] <;> rfl

/-- The size that is read. -/
theorem RawFrame.Valid.readSize (h : f.Valid) (c : Bytes) :
    WebSocket.readSize (UInt8.ofNat f.sizeBits) (f.sizeBytes ++ c) =
      if f.Minimal ∧ f.payload.length < 2 ^ 63 then .size f.headerLength f.payload.length
      else .close 1002 := by
  have hsize := h.size_lt
  obtain ⟨fin, reserved, opcode, masked, form, mask, payload⟩ := f
  cases form with
  | one =>
    have hn : payload.length < 126 := hsize
    rw [if_pos ⟨trivial, by dsimp only; omega⟩]
    exact readSize_one hn c
  | two =>
    have hn : payload.length < 2 ^ 16 := hsize
    refine (readSize_two hn c).trans ?_
    by_cases hmin : payload.length < 126
    · rw [if_pos hmin, if_neg fun hm => absurd hm.1 (not_le.mpr hmin)]
    · rw [if_neg hmin, if_pos ⟨not_lt.mp hmin, by dsimp only; omega⟩]
      rfl
  | eight =>
    have hn : payload.length < 2 ^ 64 := hsize
    refine (readSize_eight hn c).trans ?_
    by_cases hmin : 2 ^ 63 ≤ payload.length ∨ payload.length ≤ 0xFFFF
    · have hnot : ¬(2 ^ 16 ≤ payload.length ∧ payload.length < 2 ^ 63) := by omega
      rw [if_pos hmin]
      exact (if_neg hnot).symm
    · have hboth : 2 ^ 16 ≤ payload.length ∧ payload.length < 2 ^ 63 := by omega
      rw [if_neg hmin]
      exact (if_pos hboth).symm

/-- **A sound header is read**, and any other closes the connection. -/
theorem RawFrame.Valid.readHeader_sound (h : f.Valid) (hs : f.Sound) (c : Bytes) :
    WebSocket.readHeader (f.bytes ++ c) =
      .frame f.fin f.opcode f.headerLength f.payload.length := by
  have hmax : kMaxLocalWebSocketPayload = 2097152 := rfl
  have hsize := hs.size
  rw [h.readHeader, h.readSize, if_neg (by simp [hs.reserved, hs.masked]),
    if_pos ⟨hs.minimal, by omega⟩]
  refine if_neg ?_
  rintro (hlarge | ⟨hcontrol, hbad⟩)
  · omega
  · obtain ⟨hfin, hshort⟩ := hs.control hcontrol
    rcases hbad with hbad | hbad
    · simp [hfin] at hbad
    · omega

theorem RawFrame.Valid.readHeader_unsound (h : f.Valid) (hs : ¬f.Sound) (c : Bytes) :
    ∃ code, WebSocket.readHeader (f.bytes ++ c) = .close code := by
  rw [h.readHeader, h.readSize]
  by_cases hbits : f.reserved ≠ 0 ∨ (!f.masked) = true
  · exact ⟨1002, if_pos hbits⟩
  · rw [if_neg hbits]
    by_cases hmin : f.Minimal ∧ f.payload.length < 2 ^ 63
    · rw [if_pos hmin]
      refine ⟨1009, if_pos ?_⟩
      by_contra hnot
      rw [not_or] at hbits hnot
      refine hs ⟨not_not.mp hbits.1, by simpa using hbits.2, hmin.1, not_lt.mp hnot.1,
        fun hcontrol => ?_⟩
      have hboth : ¬((!f.fin) = true ∨ 125 < f.payload.length) := fun hbad =>
        hnot.2 ⟨hcontrol, hbad⟩
      rw [not_or] at hboth
      exact ⟨by simpa using hboth.1, not_lt.mp hboth.2⟩
    · exact ⟨1002, by rw [if_neg hmin]⟩

/-! ## One frame -/

variable {s s' : Client} {host : Host} {part : Option Message} {g : Fragment}
  {messages : List Message}

/-- The client keeps the part of a message that arrived. -/
def Keeping (s : Client) : Option Message → Prop
  | none => s.fragmentedOpcode = 0
  | some m => s.fragmentedOpcode = m.opcode ∧ m.opcode ≠ 0 ∧ s.fragmented = m.payload

/-- Nobody disconnects a client because of its messages. -/
def Host.Keeps (host : Host) : Prop := ∀ messages, (host.handle messages).disconnects = none

/-- **A client after some messages more.** -/
structure After (host : Host) (messages : List Message) (s s' : Client) : Prop where
  delivered : s'.delivered = s.delivered ++ messages
  connected : s'.connected = true → s.connected = true
  present : (s.connected = true → s.present = true) → s'.connected = true → s'.present = true
  kept : host.Keeps → s'.connected = s.connected ∧ s'.present = s.present

theorem After.refl (host : Host) (s : Client) : After host [] s s :=
  ⟨(List.append_nil _).symm, id, id, fun _ => ⟨rfl, rfl⟩⟩

theorem Client.delivered_react (s : Client) (reaction : Reaction) :
    (s.react reaction).delivered = s.delivered ∧
      (s.react reaction).fragmentedOpcode = s.fragmentedOpcode ∧
      (s.react reaction).fragmented = s.fragmented := by
  rw [react]
  cases reaction.disconnects <;> exact ⟨rfl, rfl, rfl⟩

/-- Others may disconnect a client, and then its entry is erased or not. -/
theorem Client.connected_react (s : Client) (reaction : Reaction) :
    ((s.react reaction).connected = true → s.connected = true ∧
      (s.react reaction).present = s.present) ∧
    (reaction.disconnects = none →
      (s.react reaction).connected = s.connected ∧ (s.react reaction).present = s.present) := by
  rw [react]
  cases reaction.disconnects with
  | none => exact ⟨fun h => ⟨h, rfl⟩, fun _ => ⟨rfl, rfl⟩⟩
  | some atOnce => exact ⟨(fun h => by cases h), (fun h => by cases h)⟩

/-- A message is handed over. -/
theorem After.message (s : Client) (host : Host) (opcode : UInt8) (payload : Bytes) :
    After host [⟨opcode, payload⟩] s (s.processWebSocketMessage host opcode payload) := by
  set s₀ : Client := { s with delivered := s.delivered ++ [⟨opcode, payload⟩] } with hs₀
  obtain ⟨hkeeps, hnone⟩ := s₀.connected_react (host.handle s₀.delivered)
  refine ⟨(s₀.delivered_react _).1, fun h => (hkeeps h).1, fun hp h => ?_, fun hk => hnone (hk _)⟩
  exact (hkeeps h).2.trans (hp (hkeeps h).1)

/-- **A frame that obeys the rules** goes on to the next. -/
theorem Keeping.again (h : Keeping s part) (hg : g.Lawful part) :
    ∃ s', s.processFrame host g.fin g.opcode g.payload = .again s' ∧ s'.input = s.input ∧
      Keeping s' (g.accept part).1 ∧ After host (g.accept part).2 s s' := by
  obtain ⟨fin, opcode, payload⟩ := g
  rcases hg with rfl | rfl | ⟨rfl, m, rfl, hsize⟩ | ⟨hopcode, rfl⟩
  · refine ⟨_, rfl, ?_⟩
    cases s.authenticated with
    | true => exact ⟨rfl, by cases part <;> exact h, After.refl host s |>.delivered, id, id,
        fun _ => ⟨rfl, rfl⟩⟩
    | false => exact ⟨rfl, h, After.refl host s⟩
  · exact ⟨s, rfl, rfl, h, After.refl host s⟩
  · obtain ⟨hpart, hopcode, hfragmented⟩ := h
    have hne : s.fragmentedOpcode ≠ 0 := hpart ▸ hopcode
    have hstep : s.processFrame host fin 0x00 payload =
        if fin then
          .again ({ s with fragmented := [], fragmentedOpcode := 0 }.processWebSocketMessage host
            s.fragmentedOpcode (s.fragmented ++ payload))
        else .again { s with fragmented := s.fragmented ++ payload } := by
      unfold Client.processFrame
      rw [if_neg (by decide), if_neg (by decide), if_neg (by decide), if_pos rfl, if_neg hne]
      dsimp only
      rw [hfragmented, if_neg (not_lt.mpr hsize)]
    rw [hstep]
    cases fin with
    | true =>
      refine ⟨_, rfl, Client.input_react _ _, (Client.delivered_react _ _).2.1, ?_⟩
      rw [hpart, hfragmented]
      obtain ⟨hdelivered, hconnected, hpresent, hkept⟩ :=
        After.message { s with fragmented := [], fragmentedOpcode := 0 } host m.opcode
          (m.payload ++ payload)
      exact ⟨hdelivered, hconnected, hpresent, hkept⟩
    | false =>
      refine ⟨_, rfl, rfl, ⟨hpart, hopcode, ?_⟩, (List.append_nil _).symm, id, id,
        fun _ => ⟨rfl, rfl⟩⟩
      rw [hfragmented]
  · have hnone : s.fragmentedOpcode = 0 := h
    have hstep : s.processFrame host fin opcode payload =
        if fin then .again (s.processWebSocketMessage host opcode payload)
        else .again { s with fragmentedOpcode := opcode, fragmented := payload } := by
      unfold Client.processFrame
      rcases hopcode with rfl | rfl <;>
        rw [if_neg (by decide), if_neg (by decide), if_neg (by decide), if_neg (by decide),
          if_pos (by decide), if_neg (not_not.mpr hnone)]
    have hdata : ¬8 ≤ opcode.toNat ∧ opcode ≠ 0 := by
      rcases hopcode with rfl | rfl <;> decide
    rw [hstep, Fragment.accept, if_neg hdata.1]
    cases fin with
    | true =>
      refine ⟨_, rfl, Client.input_react _ _, ?_, After.message s host opcode payload⟩
      exact (Client.delivered_react _ _).2.1.trans hnone
    | false =>
      exact ⟨_, rfl, rfl, ⟨rfl, hdata.2, rfl⟩, (List.append_nil _).symm, id, id,
        fun _ => ⟨rfl, rfl⟩⟩

/-- **A frame that breaks the rules** closes the connection. -/
theorem Keeping.leave (h : Keeping s part) (hg : ¬g.Lawful part) :
    ∃ s', s.processFrame host g.fin g.opcode g.payload = .leave s' ∧ s'.connected = false ∧
      s'.delivered = s.delivered := by
  obtain ⟨fin, opcode, payload⟩ := g
  simp only [Fragment.Lawful, not_or, not_and, not_exists] at hg
  obtain ⟨hping, hpong, hcontinuation, hdata⟩ := hg
  unfold Client.processFrame
  by_cases hclose : opcode = 0x08
  · rw [if_pos hclose]
    split_ifs <;> exact ⟨_, rfl, rfl, rfl⟩
  rw [if_neg hclose, if_neg hping, if_neg hpong]
  by_cases hzero : opcode = 0x00
  · rw [if_pos hzero]
    by_cases hpart : s.fragmentedOpcode = 0
    · rw [if_pos hpart]
      exact ⟨_, rfl, rfl, rfl⟩
    · rw [if_neg hpart]
      cases part with
      | none => exact absurd h hpart
      | some m =>
        have hlarge := hcontinuation hzero m rfl
        dsimp only
        rw [h.2.2, if_pos (not_le.mp hlarge)]
        exact ⟨_, rfl, rfl, rfl⟩
  · rw [if_neg hzero]
    by_cases hopcode : opcode = 0x01 ∨ opcode = 0x02
    · have hpart : s.fragmentedOpcode ≠ 0 := by
        cases part with
        | none => exact absurd rfl (hdata hopcode)
        | some m => exact h.1 ▸ h.2.1
      rw [if_pos hopcode, if_pos hpart]
      exact ⟨_, rfl, rfl, rfl⟩
    · rw [if_neg hopcode]
      exact ⟨_, rfl, rfl, rfl⟩

/-! ## The loop on what the browser sent -/

variable {rest input : Bytes}

/-- Masking twice changes nothing. -/
theorem unmask_unmask (mask payload : Bytes) : unmask mask (unmask mask payload) = payload := by
  rw [unmask, unmask, List.mapIdx_mapIdx]
  refine (List.mapIdx_eq_iff.mpr fun i => ?_)
  cases payload[i]? with
  | none => rfl
  | some b => simp [UInt8.xor_assoc]

@[simp] theorem length_unmask (mask payload : Bytes) :
    (unmask mask payload).length = payload.length := List.length_mapIdx

/-- A frame with a mask: what is in front of the mask, the mask and the payload. -/
theorem RawFrame.bytes_eq (f : RawFrame) (hmasked : f.masked = true) :
    ∃ front : Bytes, front.length = f.headerLength ∧
      f.bytes = front ++ (f.mask ++ unmask f.mask f.payload) := by
  refine ⟨UInt8.ofNat (f.fin.toNat * 128 + f.reserved * 16 + f.opcode.toNat) ::
    UInt8.ofNat (f.masked.toNat * 128 + f.sizeBits) :: f.sizeBytes, ?_, ?_⟩
  · rw [headerLength, List.length_cons, List.length_cons]
    omega
  · rw [bytes, if_pos hmasked]
    rfl

theorem RawFrame.Valid.length_bytes (h : f.Valid) (hmasked : f.masked = true) :
    f.bytes.length = f.headerLength + 4 + f.payload.length := by
  obtain ⟨front, hfront, hbytes⟩ := f.bytes_eq hmasked
  rw [hbytes, List.length_append, List.length_append, hfront, h.mask_length, length_unmask]
  omega

/-- The mask and the payload are where they are looked for. -/
theorem RawFrame.Valid.slices (h : f.Valid) (hmasked : f.masked = true) (rest : Bytes) :
    unmask (slice (f.bytes ++ rest) f.headerLength 4)
        (slice (f.bytes ++ rest) (f.headerLength + 4) f.payload.length) = f.payload ∧
      (f.bytes ++ rest).drop (f.headerLength + 4 + f.payload.length) = rest := by
  obtain ⟨front, hfront, hbytes⟩ := f.bytes_eq hmasked
  have hmask : slice (f.bytes ++ rest) f.headerLength 4 = f.mask := by
    rw [hbytes, slice, ← hfront, List.append_assoc, List.drop_left, List.append_assoc,
      ← h.mask_length, List.take_left]
  have hpayload : slice (f.bytes ++ rest) (f.headerLength + 4) f.payload.length =
      unmask f.mask f.payload := by
    rw [hbytes, slice, ← hfront, ← h.mask_length, ← List.length_append, List.append_assoc,
      List.append_assoc, ← List.append_assoc front, List.drop_left,
      ← length_unmask f.mask f.payload, List.take_left]
  refine ⟨by rw [hmask, hpayload, unmask_unmask], ?_⟩
  rw [← h.length_bytes hmasked, List.drop_left]

/-- **A sound frame is cut off** and what it carries is processed. -/
theorem RawFrame.Valid.process (h : f.Valid) (hs : f.Sound) (hpresent : s.present = true)
    (hinput : s.input = f.bytes ++ rest) : s.processWebSocket host =
      ({ s with input := rest }.processFrame host f.fin f.opcode f.payload).outcome host := by
  have hheader := h.readHeader_sound hs rest
  obtain ⟨hpayload, hrest⟩ := h.slices hs.masked rest
  have hlength := h.length_bytes hs.masked
  rw [← hinput] at hheader hpayload hrest
  have hfull : f.headerLength + 4 + f.payload.length ≤ s.input.length := by
    rw [hinput, List.length_append]
    omega
  rw [Client.processWebSocket_frame hpresent hheader hfull, hrest, hpayload]

/-- A frame that obeys the rules is followed by the next. -/
theorem Keeping.process (hk : Keeping s part) (host : Host) (hf : f.Lawful part)
    (hpresent : s.present = true) (hinput : s.input = f.bytes ++ rest) :
    ∃ s', s.processWebSocket host = s'.processWebSocket host ∧ s'.input = rest ∧
      Keeping s' (f.fragment.accept part).1 ∧ After host (f.fragment.accept part).2 s s' := by
  have hcut : Keeping { s with input := rest } part := by cases part <;> exact hk
  obtain ⟨s', hagain, hs', hkeeping, hafter⟩ := hcut.again hf.2.2
  refine ⟨s', ?_, hs', hkeeping, ⟨hafter.delivered, hafter.connected, hafter.present, hafter.kept⟩⟩
  rw [hf.1.process hf.2.1 hpresent hinput]
  exact congrArg (Next.outcome host) hagain

/-- A frame that breaks a rule closes the connection. -/
theorem Keeping.process_unlawful (hk : Keeping s part) (hvalid : f.Valid) (hf : ¬f.Lawful part)
    (hpresent : s.present = true) (hinput : s.input = f.bytes ++ rest) :
    (s.processWebSocket host).connected = false ∧
      (s.processWebSocket host).delivered = s.delivered := by
  by_cases hs : f.Sound
  · have hcut : Keeping { s with input := rest } part := by cases part <;> exact hk
    obtain ⟨s', hleave, hconnected, hdelivered⟩ :=
      hcut.leave fun hg => hf ⟨hvalid, hs, hg⟩
    have hprocess : s.processWebSocket host = s' := by
      rw [hvalid.process hs hpresent hinput]
      exact congrArg (Next.outcome host) hleave
    rw [hprocess]
    exact ⟨hconnected, hdelivered⟩
  · obtain ⟨code, hcode⟩ := hvalid.readHeader_unsound hs rest
    rw [← hinput] at hcode
    rw [Client.processWebSocket_close hpresent hcode]
    exact ⟨rfl, rfl⟩

/-- The loop waits for more. -/
def Waits (input : Bytes) : Prop :=
  readHeader input = .short ∨ ∃ fin opcode header size,
    readHeader input = .frame fin opcode header size ∧ input.length < header + 4 + size

theorem Waits.process (h : Waits s.input) : s.processWebSocket host = s := by
  rcases h with h | ⟨fin, opcode, header, size, h, hlength⟩
  · exact Client.processWebSocket_short h
  · exact Client.processWebSocket_incomplete h hlength

/-- **A part of a frame** is waited on, or known to be bad. -/
theorem RawFrame.Valid.waits_or_closes (h : f.Valid) (hinput : input <+: f.bytes)
    (hlength : input.length < f.bytes.length) :
    Waits input ∨ ¬f.Sound ∧ ∃ code, WebSocket.readHeader input = .close code := by
  obtain ⟨c, hc⟩ := hinput
  by_cases hshort : WebSocket.readHeader input = .short
  · exact Or.inl (Or.inl hshort)
  have hall := readHeader_append input c hshort
  rw [hc] at hall
  by_cases hs : f.Sound
  · have hheader := h.readHeader_sound hs []
    rw [List.append_nil, hall] at hheader
    rw [h.length_bytes hs.masked] at hlength
    exact Or.inl (Or.inr ⟨_, _, _, _, hheader, hlength⟩)
  · obtain ⟨code, hcode⟩ := h.readHeader_unsound hs []
    rw [List.append_nil, hall] at hcode
    exact Or.inr ⟨hs, code, hcode⟩

/-- A complete frame is not waited on. -/
theorem RawFrame.Valid.not_waits (h : f.Valid) (rest : Bytes) : ¬Waits (f.bytes ++ rest) := by
  by_cases hs : f.Sound
  · have hheader := h.readHeader_sound hs rest
    rintro (hshort | ⟨fin, opcode, header, size, hframe, hlength⟩)
    · exact nomatch hheader.symm.trans hshort
    · obtain ⟨-, -, rfl, rfl⟩ := FrameHeader.frame.inj (hheader.symm.trans hframe)
      rw [List.length_append, h.length_bytes hs.masked] at hlength
      omega
  · obtain ⟨code, hcode⟩ := h.readHeader_unsound hs rest
    rintro (hshort | ⟨fin, opcode, header, size, hframe, hlength⟩)
    · exact nomatch hcode.symm.trans hshort
    · exact nomatch hcode.symm.trans hframe

/-! ## Many frames -/

variable {frames done more : List RawFrame} {tail : Bytes}

/-- What some frames carry. -/
def carried (frames : List RawFrame) : List Fragment := frames.map RawFrame.fragment

theorem assemble_cons (part : Option Message) (g : Fragment) (gs : List Fragment) :
    assemble part (g :: gs) = ((assemble (g.accept part).1 gs).1,
      (g.accept part).2 ++ (assemble (g.accept part).1 gs).2) := rfl

theorem assemble_append (part : Option Message) (gs gs' : List Fragment) :
    assemble part (gs ++ gs') = ((assemble (assemble part gs).1 gs').1,
      (assemble part gs).2 ++ (assemble (assemble part gs).1 gs').2) := by
  induction gs generalizing part with
  | nil => rfl
  | cons g gs ih =>
    simp only [List.cons_append, assemble, ih, List.append_assoc]

theorem LawfulFrames.of_append (h : LawfulFrames part (done ++ more)) :
    LawfulFrames (assemble part (carried done)).1 more := by
  induction done generalizing part with
  | nil => exact h
  | cons f done ih => exact ih h.2

/-- What may come behind the frames: nothing, or a frame that breaks a rule and anything. -/
def Behind (part : Option Message) (tail : Bytes) : Prop :=
  tail = [] ∨ ∃ bad more, RawFrame.Valid bad ∧ ¬bad.Lawful part ∧ tail = bad.bytes ++ more

/-- **Nothing is handed over of what comes behind.** -/
theorem Behind.process (h : Behind part tail) (hk : Keeping s part) (hpresent : s.present = true)
    (hinput : s.input <+: tail) :
    Waits s.input ∨ tail ≠ [] ∧ (s.processWebSocket host).connected = false ∧
      (s.processWebSocket host).delivered = s.delivered := by
  rcases h with rfl | ⟨bad, more, hvalid, hbad, rfl⟩
  · rw [List.prefix_nil.mp hinput]
    exact Or.inl (Or.inl rfl)
  have hne : bad.bytes ++ more ≠ [] := fun h => nomatch (List.append_eq_nil_iff.mp h).1
  rcases Nat.lt_or_ge s.input.length bad.bytes.length with hlt | hge
  · have hpart : s.input <+: bad.bytes :=
      List.prefix_of_prefix_length_le hinput (List.prefix_append _ _) hlt.le
    rcases hvalid.waits_or_closes hpart hlt with hwaits | ⟨-, code, hcode⟩
    · exact Or.inl hwaits
    · rw [Client.processWebSocket_close hpresent hcode]
      exact Or.inr ⟨hne, rfl, rfl⟩
  · obtain ⟨rest, hrest⟩ := List.prefix_of_prefix_length_le (List.prefix_append _ _) hinput hge
    exact Or.inr ⟨hne, hk.process_unlawful hvalid hbad hpresent hrest.symm⟩

/-- **What the loop comes to**: some frames are done, and it waits for the rest of the next one or
the client is disconnected. -/
structure Comes (host : Host) (part : Option Message) (done : List RawFrame) (tail : Bytes)
    (s s' : Client) : Prop where
  delivered : s'.delivered = s.delivered ++ (assemble part (carried done)).2
  connected : s'.connected = true → s.connected = true
  waiting : s'.connected = true → s'.present = true ∧
    Keeping s' (assemble part (carried done)).1 ∧ s.input = wire done ++ s'.input ∧ Waits s'.input
  kept : host.Keeps → tail = [] → s'.connected = s.connected

theorem Comes.stay (hk : Keeping s part) (hpresent : s.present = true) (hwaits : Waits s.input) :
    Comes host part [] tail s (s.processWebSocket host) := by
  rw [hwaits.process]
  exact ⟨(List.append_nil _).symm, id, fun _ => ⟨hpresent, hk, rfl, hwaits⟩, fun _ _ => rfl⟩

/-- A frame that was cut off first. -/
theorem Comes.cons {s₁ s' : Client} (h : After host (f.fragment.accept part).2 s s₁)
    (hinput : s.input = f.bytes ++ s₁.input)
    (h' : Comes host (f.fragment.accept part).1 done tail s₁ s') :
    Comes host part (f :: done) tail s s' where
  delivered := by
    rw [h'.delivered, h.delivered, List.append_assoc]
    rfl
  connected hc := h.connected (h'.connected hc)
  waiting hc := by
    obtain ⟨hpresent, hk, hrest, hwaits⟩ := h'.waiting hc
    refine ⟨hpresent, hk, ?_, hwaits⟩
    rw [hinput, hrest, ← List.append_assoc]
    rfl
  kept hk htail := (h'.kept hk htail).trans (h.kept hk).1

/-- **The loop on some frames and what comes behind them.** -/
theorem comes_process (host : Host) (hlawful : LawfulFrames part frames) (hk : Keeping s part)
    (hpresent : s.present = true) (hinput : s.input <+: wire frames ++ tail)
    (htail : Behind (assemble part (carried frames)).1 tail) :
    ∃ done more, frames = done ++ more ∧ Comes host part done tail s (s.processWebSocket host) := by
  induction frames generalizing part s with
  | nil =>
    refine ⟨[], [], rfl, ?_⟩
    rcases htail.process hk hpresent hinput with hwaits | ⟨hne, hclosed, hdelivered⟩
    · exact Comes.stay hk hpresent hwaits
    · refine ⟨hdelivered.trans (List.append_nil _).symm, fun h => ?_, fun h => ?_,
        fun _ h => absurd h hne⟩
      · exact nomatch h.symm.trans hclosed
      · exact nomatch h.symm.trans hclosed
  | cons f frames ih =>
    obtain ⟨hf, hframes⟩ := hlawful
    rw [wire, List.flatMap_cons, List.append_assoc] at hinput
    rcases Nat.lt_or_ge s.input.length f.bytes.length with hlt | hge
    · have hpart : s.input <+: f.bytes :=
        List.prefix_of_prefix_length_le hinput (List.prefix_append _ _) hlt.le
      rcases hf.1.waits_or_closes hpart hlt with hwaits | ⟨hs, -⟩
      · exact ⟨[], f :: frames, rfl, Comes.stay hk hpresent hwaits⟩
      · exact absurd hf.2.1 hs
    · obtain ⟨rest, hrest⟩ := List.prefix_of_prefix_length_le (List.prefix_append _ _) hinput hge
      rw [← hrest] at hinput
      obtain ⟨s₁, hprocess, hs₁, hk₁, hafter⟩ := hk.process host hf hpresent hrest.symm
      have hcut : s.input = f.bytes ++ s₁.input := by rw [hs₁, hrest]
      rw [hprocess]
      cases hpresent₁ : s₁.present with
      | true =>
        have hbehind : s₁.input <+: wire frames ++ tail := by
          rw [hs₁]
          exact (List.prefix_append_right_inj f.bytes).mp hinput
        obtain ⟨done, more, rfl, hcomes⟩ := ih hframes hk₁ hpresent₁ hbehind htail
        exact ⟨f :: done, more, rfl, hcomes.cons hafter hcut⟩
      | false =>
        have hgone : s₁.connected ≠ true := fun hc =>
          nomatch hpresent₁.symm.trans (hafter.present (fun _ => hpresent) hc)
        have hkeeps : ¬host.Keeps := fun hkeeps =>
          nomatch hpresent₁.symm.trans ((hafter.kept hkeeps).2.trans hpresent)
        rw [Client.processWebSocket_absent hpresent₁]
        exact ⟨[f], frames, rfl, Comes.cons hafter hcut
          ⟨(List.append_nil _).symm, id, fun hc => absurd hc hgone, fun hk => absurd hk hkeeps⟩⟩

/-! ## Runs -/

variable {events : List Event} {before : List Message}

/-- A client that takes part, and before which nothing was received. -/
def start (authenticated : Bool) (before : List Message) : Client :=
  { authenticated, delivered := before }

/-- **What was received**: some frames are done, and the client waits for more or is disconnected.
-/
structure Received (before : List Message) (frames done : List RawFrame) (arrived : Bytes)
    (s : Client) : Prop where
  prefixed : done <+: frames
  delivered : s.delivered = before ++ (assemble none (carried done)).2
  waiting : s.connected = true → s.present = true ∧
    Keeping s (assemble none (carried done)).1 ∧ arrived = wire done ++ s.input ∧ Waits s.input

theorem received_start (authenticated : Bool) (before : List Message) (frames : List RawFrame) :
    Received before frames [] [] (start authenticated before) :=
  ⟨List.nil_prefix, (List.append_nil before).symm, fun _ => ⟨rfl, rfl, rfl, Or.inl rfl⟩⟩

theorem wire_append (done more : List RawFrame) : wire (done ++ more) = wire done ++ wire more :=
  List.flatMap_append

theorem carried_append (done more : List RawFrame) :
    carried (done ++ more) = carried done ++ carried more := List.map_append

/-- Something is read. -/
theorem Received.read {arrived chunk : Bytes} (h : Received before frames done arrived s)
    (host : Host) (hlawful : LawfulFrames none frames)
    (htail : Behind (assemble none (carried frames)).1 tail)
    (harrived : arrived ++ chunk <+: wire frames ++ tail) :
    (∃ done, Received before frames done (arrived ++ chunk) (s.clientReadyRead host chunk)) ∧
      (host.Keeps → tail = [] → (s.clientReadyRead host chunk).connected = s.connected) := by
  cases hconnected : s.connected with
  | false =>
    rw [Client.clientReadyRead_closed hconnected]
    exact ⟨⟨done, h.prefixed, h.delivered, fun hc => nomatch hc.symm.trans hconnected⟩,
      fun _ _ => hconnected⟩
  | true =>
    obtain ⟨hpresent, hk, hrest, -⟩ := h.waiting hconnected
    obtain ⟨more, rfl⟩ := h.prefixed
    rw [Client.clientReadyRead_open hconnected hpresent]
    have hmore : s.input ++ chunk <+: wire more ++ tail := by
      rw [hrest, wire_append, List.append_assoc, List.append_assoc] at harrived
      exact (List.prefix_append_right_inj (wire done)).mp harrived
    rw [carried_append, assemble_append] at htail
    have hcut : Keeping { s with input := s.input ++ chunk } (assemble none (carried done)).1 := by
      cases hpart : (assemble none (carried done)).1 <;> rw [hpart] at hk <;> exact hk
    obtain ⟨done', more, rfl, hcomes⟩ :=
      comes_process host hlawful.of_append hcut hpresent hmore htail
    refine ⟨⟨done ++ done', ?_, ?_, fun hc => ?_⟩, fun hkeeps hnil => ?_⟩
    · rw [← List.append_assoc]
      exact List.prefix_append _ _
    · rw [carried_append, assemble_append, ← List.append_assoc, ← h.delivered]
      exact hcomes.delivered
    · obtain ⟨hpresent', hk', hinput, hwaits⟩ := hcomes.waiting hc
      refine ⟨hpresent', by rwa [carried_append, assemble_append], ?_, hwaits⟩
      rw [hrest, wire_append, List.append_assoc, List.append_assoc]
      exact congrArg (wire done ++ ·) hinput
    · exact (hcomes.kept hkeeps hnil).trans hconnected

/-- Others are at work. -/
theorem Received.others {arrived : Bytes} (h : Received before frames done arrived s)
    (reaction : Reaction) : Received before frames done arrived (s.react reaction) := by
  obtain ⟨hdelivered, hopcode, hfragmented⟩ := s.delivered_react reaction
  refine ⟨h.prefixed, hdelivered.trans h.delivered, fun hc => ?_⟩
  obtain ⟨hconnected, hpresent⟩ := (s.connected_react reaction).1 hc
  obtain ⟨hp, hk, hinput, hwaits⟩ := h.waiting hconnected
  rw [Client.input_react]
  refine ⟨hpresent.trans hp, ?_, hinput, hwaits⟩
  cases hpart : (assemble none (carried done)).1 with
  | none =>
    rw [hpart] at hk
    exact hopcode.trans hk
  | some m =>
    rw [hpart] at hk
    exact ⟨hopcode.trans hk.1, hk.2.1, hfragmented.trans hk.2.2⟩

theorem Event.chunks_concat (events : List Event) (event : Event) :
    Event.chunks (events ++ [event]) = Event.chunks events ++ Event.chunks [event] :=
  List.flatMap_append

/-- **A run on some frames and what comes behind them.** -/
theorem received_run (host : Host) (authenticated : Bool) (before : List Message)
    (hlawful : LawfulFrames none frames) (htail : Behind (assemble none (carried frames)).1 tail)
    (harrived : Event.chunks events <+: wire frames ++ tail) :
    (∃ done, Received before frames done (Event.chunks events)
      (events.foldl (Client.step host) (start authenticated before))) ∧
    (host.Keeps → tail = [] →
      (∀ reaction, Event.others reaction ∈ events → reaction.disconnects = none) →
        (events.foldl (Client.step host) (start authenticated before)).connected = true) := by
  induction events using List.reverseRecOn with
  | nil => exact ⟨⟨[], received_start authenticated before frames⟩, fun _ _ _ => rfl⟩
  | append_singleton events event ih =>
    rw [Event.chunks_concat] at harrived
    obtain ⟨⟨done, hreceived⟩, hkept⟩ := ih ((List.prefix_append _ _).trans harrived)
    rw [Event.chunks_concat, List.foldl_append]
    cases event with
    | read chunk =>
      have hchunk : Event.chunks [Event.read chunk] = chunk := List.append_nil chunk
      rw [hchunk] at harrived ⊢
      obtain ⟨hdone, hconnected⟩ := hreceived.read host hlawful htail harrived
      exact ⟨hdone, fun hk hnil hothers => (hconnected hk hnil).trans
        (hkept hk hnil fun r hr => hothers r (List.mem_append_left _ hr))⟩
    | others reaction =>
      rw [show Event.chunks [Event.others reaction] = [] from rfl, List.append_nil]
      refine ⟨⟨done, hreceived.others reaction⟩, fun hk hnil hothers => ?_⟩
      have hnone := hothers reaction (List.mem_append_right _ List.mem_cons_self)
      exact ((Client.connected_react _ reaction).2 hnone).1.trans
        (hkept hk hnil fun r hr => hothers r (List.mem_append_left _ hr))

/-- No other messages were handed over. -/
theorem Received.prefix_delivered {arrived : Bytes} (h : Received before frames done arrived s) :
    s.delivered <+: before ++ (assemble none (carried frames)).2 := by
  obtain ⟨more, rfl⟩ := h.prefixed
  rw [h.delivered, carried_append, assemble_append, ← List.append_assoc]
  exact List.prefix_append _ _

/-- At the end of the frames all of them are done. -/
theorem Received.all (h : Received before frames done (wire frames ++ tail) s)
    (hlawful : LawfulFrames none frames) (hconnected : s.connected = true) :
    done = frames ∧ s.input = tail := by
  obtain ⟨-, -, hinput, hwaits⟩ := h.waiting hconnected
  obtain ⟨more, rfl⟩ := h.prefixed
  rw [wire_append, List.append_assoc] at hinput
  have hrest : wire more ++ tail = s.input := List.append_cancel_left hinput
  cases more with
  | nil => exact ⟨(List.append_nil done).symm, hrest.symm⟩
  | cons f more =>
    rw [← hrest, wire, List.flatMap_cons, List.append_assoc] at hwaits
    exact absurd hwaits (hlawful.of_append.1.1.not_waits _)

/-! ## Frames that carry messages -/

variable {gs : List Fragment} {m : Message} {pieces : List Bytes} {cuttings : List Cutting}

/-- Some fragments obey the rules. -/
def LawfulFragments (part : Option Message) : List Fragment → Prop
  | [] => True
  | g :: gs => g.Lawful part ∧ LawfulFragments (g.accept part).1 gs

theorem lawfulFrames_of_fragments (hframes : ∀ f ∈ frames, f.Valid ∧ f.Sound)
    (h : LawfulFragments part (carried frames)) : LawfulFrames part frames := by
  induction frames generalizing part with
  | nil => trivial
  | cons f frames ih =>
    obtain ⟨hvalid, hsound⟩ := hframes f List.mem_cons_self
    exact ⟨⟨hvalid, hsound, h.1⟩, ih (fun g hg => hframes g (List.mem_cons_of_mem f hg)) h.2⟩

/-- **Pings and pongs change nothing.** -/
theorem carried_filter
    (hcontrol : ∀ f ∈ frames, 8 ≤ f.opcode.toNat → f.opcode = 0x09 ∨ f.opcode = 0x0A)
    (h : LawfulFragments part (carried (frames.filter RawFrame.isData))) :
    LawfulFragments part (carried frames) ∧ assemble part (carried frames) =
      assemble part (carried (frames.filter RawFrame.isData)) := by
  induction frames generalizing part with
  | nil => exact ⟨trivial, rfl⟩
  | cons f frames ih =>
    have hrest := fun g hg => hcontrol g (List.mem_cons_of_mem f hg)
    by_cases hdata : f.isData = true
    · rw [List.filter_cons_of_pos hdata] at h ⊢
      obtain ⟨hlawful, heq⟩ := ih hrest h.2
      refine ⟨⟨h.1, hlawful⟩, ?_⟩
      show assemble part (f.fragment :: carried frames) = assemble part (f.fragment :: carried _)
      rw [assemble_cons, assemble_cons, heq]
    · have hopcode : 8 ≤ f.opcode.toNat := not_lt.mp fun hlt => hdata (decide_eq_true hlt)
      rw [List.filter_cons_of_neg hdata] at h ⊢
      obtain ⟨hlawful, heq⟩ := ih hrest h
      have haccept : f.fragment.accept part = (part, []) := if_pos hopcode
      refine ⟨⟨?_, by rwa [haccept]⟩, ?_⟩
      · exact (hcontrol f List.mem_cons_self hopcode).imp id Or.inl
      · show assemble part (f.fragment :: carried frames) = _
        rw [assemble_cons, haccept, List.nil_append, heq]

/-- The pieces that continue a message. -/
theorem assemble_more (hne : pieces ≠ [])
    (hsize : (m.payload ++ pieces.flatten).length ≤ kMaxLocalWebSocketPayload)
    (hgs : LawfulFragments none gs) :
    LawfulFragments (some m) (fragments 0x00 pieces ++ gs) ∧
      assemble (some m) (fragments 0x00 pieces ++ gs) = ((assemble none gs).1,
        ⟨m.opcode, m.payload ++ pieces.flatten⟩ :: (assemble none gs).2) := by
  induction pieces generalizing m with
  | nil => exact absurd rfl hne
  | cons piece pieces ih =>
    rw [List.flatten_cons, ← List.append_assoc] at hsize ⊢
    have hpart : (m.payload ++ piece).length ≤ kMaxLocalWebSocketPayload := by
      rw [List.length_append] at hsize
      omega
    have hlawful (fin : Bool) : Fragment.Lawful (some m) ⟨fin, 0x00, piece⟩ :=
      Or.inr (Or.inr (Or.inl ⟨rfl, m, rfl, hpart⟩))
    cases pieces with
    | nil =>
      rw [List.flatten_nil, List.append_nil]
      exact ⟨⟨hlawful true, hgs⟩, rfl⟩
    | cons next pieces =>
      obtain ⟨hnext, heq⟩ :=
        ih (m := ⟨m.opcode, m.payload ++ piece⟩) (List.cons_ne_nil next pieces) hsize
      refine ⟨⟨hlawful false, hnext⟩, ?_⟩
      rw [fragments, List.cons_append, assemble]
      exact heq

/-- **The pieces of a message are put together.** -/
theorem assemble_cutting {c : Cutting} (hc : c.Valid) (hgs : LawfulFragments none gs) :
    LawfulFragments none (fragments c.message.opcode c.pieces ++ gs) ∧
      assemble none (fragments c.message.opcode c.pieces ++ gs) =
        ((assemble none gs).1, c.message :: (assemble none gs).2) := by
  obtain ⟨⟨opcode, payload⟩, pieces⟩ := c
  obtain ⟨hopcode, hne, hflatten, hsize⟩ := hc
  dsimp only at hopcode hne hflatten hsize ⊢
  subst hflatten
  cases pieces with
  | nil => exact absurd rfl hne
  | cons piece pieces =>
    have hdata : ¬8 ≤ opcode.toNat := by rcases hopcode with rfl | rfl <;> decide
    have hlawful (fin : Bool) : Fragment.Lawful none ⟨fin, opcode, piece⟩ :=
      Or.inr (Or.inr (Or.inr ⟨hopcode, rfl⟩))
    have haccept (fin : Bool) : Fragment.accept none ⟨fin, opcode, piece⟩ =
        if fin then (none, [⟨opcode, piece⟩]) else (some ⟨opcode, piece⟩, []) := if_neg hdata
    cases pieces with
    | nil =>
      rw [List.flatten_singleton, fragments, List.singleton_append, assemble, LawfulFragments,
        haccept]
      exact ⟨⟨hlawful true, hgs⟩, rfl⟩
    | cons next pieces =>
      obtain ⟨hnext, heq⟩ :=
        assemble_more (m := ⟨opcode, piece⟩) (List.cons_ne_nil next pieces) hsize hgs
      rw [fragments, List.cons_append, assemble, LawfulFragments, haccept]
      exact ⟨⟨hlawful false, hnext⟩, heq⟩

/-- All of them. -/
theorem assemble_cuttings (hcuttings : ∀ c ∈ cuttings, c.Valid) :
    LawfulFragments none (cuttings.flatMap fun c => fragments c.message.opcode c.pieces) ∧
      assemble none (cuttings.flatMap fun c => fragments c.message.opcode c.pieces) =
        (none, cuttings.map Cutting.message) := by
  induction cuttings with
  | nil => exact ⟨trivial, rfl⟩
  | cons c cuttings ih =>
    obtain ⟨hlawful, heq⟩ := ih fun d hd => hcuttings d (List.mem_cons_of_mem c hd)
    obtain ⟨hlawful', heq'⟩ := assemble_cutting (hcuttings c List.mem_cons_self) hlawful
    rw [List.flatMap_cons]
    exact ⟨hlawful', by rw [heq', heq, List.map_cons]⟩

/-- A piece of a message within the limit is within it. -/
theorem length_le_of_mem_fragments {opcode : UInt8} {g : Fragment}
    (hg : g ∈ fragments opcode pieces) : g.payload.length ≤ pieces.flatten.length := by
  induction pieces generalizing opcode with
  | nil => exact nomatch hg
  | cons piece pieces ih =>
    rw [List.flatten_cons, List.length_append]
    cases pieces with
    | nil =>
      obtain rfl := List.mem_singleton.mp hg
      exact Nat.le_add_right _ _
    | cons next pieces =>
      rcases List.mem_cons.mp hg with rfl | hg
      · exact Nat.le_add_right _ _
      · exact (ih hg).trans (Nat.le_add_left _ _)

/-- **Frames that carry messages obey the rules.** -/
theorem Sends.lawful (h : Sends cuttings frames) : LawfulFrames none frames ∧
    assemble none (carried frames) = (none, cuttings.map Cutting.message) := by
  obtain ⟨hlawful, heq⟩ := assemble_cuttings h.cut
  rw [← h.data] at hlawful heq
  obtain ⟨hall, hfilter⟩ := carried_filter (fun f hf hopcode => (h.control f hf hopcode).1) hlawful
  refine ⟨lawfulFrames_of_fragments (fun f hf => ⟨h.valid f hf, ?_⟩) hall, hfilter.trans heq⟩
  obtain ⟨hreserved, hmasked, hminimal⟩ := h.headers f hf
  refine ⟨hreserved, hmasked, hminimal, ?_, fun hopcode => (h.control f hf hopcode).2⟩
  by_cases hdata : f.isData = true
  · have hmem : f.fragment ∈ cuttings.flatMap fun c => fragments c.message.opcode c.pieces := by
      rw [← h.data]
      exact List.mem_map_of_mem (List.mem_filter.mpr ⟨hf, hdata⟩)
    obtain ⟨c, hc, hg⟩ := List.mem_flatMap.mp hmem
    have hle := length_le_of_mem_fragments hg
    rw [(h.cut c hc).flatten] at hle
    exact hle.trans (h.cut c hc).size
  · have hopcode : 8 ≤ f.opcode.toNat := not_lt.mp fun hlt => hdata (decide_eq_true hlt)
    have hmax : kMaxLocalWebSocketPayload = 2097152 := rfl
    have hsmall := (h.control f hf hopcode).2.2
    omega

/-! ## The parser -/

/-- **The local WebSocket parser.**  When the frames the browser sent carry some messages, then
however they were read the messages handed over are the first ones, they are all while the client is
connected, and nobody but others disconnects it.  And when the frames obey the rules up to one that
does not, whatever is behind it, then the client is disconnected and nothing was handed over but the
messages before. -/
theorem local_web_socket (host : Host) (authenticated : Bool) (before : List Message)
    (events : List Event) :
    (∀ cuttings frames, Sends cuttings frames → Event.chunks events = wire frames →
      let s := events.foldl (Client.step host) (start authenticated before)
      s.delivered <+: before ++ cuttings.map Cutting.message ∧
      (s.connected = true → s.delivered = before ++ cuttings.map Cutting.message) ∧
      (host.Keeps → (∀ reaction, Event.others reaction ∈ events → reaction.disconnects = none) →
        s.connected = true)) ∧
    ∀ frames bad behind, LawfulFrames none frames → RawFrame.Valid bad →
      ¬bad.Lawful (assemble none (carried frames)).1 →
      Event.chunks events = wire frames ++ (bad.bytes ++ behind) →
      let s := events.foldl (Client.step host) (start authenticated before)
      s.connected = false ∧ s.delivered <+: before ++ (assemble none (carried frames)).2 := by
  refine ⟨fun cuttings frames hsends hchunks => ?_, fun frames bad behind hlawful hvalid hbad
    hchunks => ?_⟩
  · obtain ⟨hlawful, hmessages⟩ := hsends.lawful
    have harrived : Event.chunks events <+: wire frames ++ [] := by
      simp only [hchunks, List.append_nil, List.prefix_rfl]
    rw [← List.append_nil (wire frames)] at hchunks
    obtain ⟨⟨done, hreceived⟩, hkept⟩ := received_run host authenticated before hlawful
      (Or.inl rfl) harrived
    rw [hchunks] at hreceived
    have hdelivered := hreceived.prefix_delivered
    rw [hmessages] at hdelivered
    refine ⟨hdelivered, fun hc => ?_, fun hk hothers => hkept hk rfl hothers⟩
    obtain ⟨rfl, -⟩ := hreceived.all hlawful hc
    rw [hreceived.delivered, hmessages]
  · have harrived : Event.chunks events <+: wire frames ++ (bad.bytes ++ behind) := by
      simp only [hchunks, List.prefix_rfl]
    obtain ⟨⟨done, hreceived⟩, -⟩ := received_run host authenticated before hlawful
      (Or.inr ⟨bad, behind, hvalid, hbad, rfl⟩) harrived
    rw [hchunks] at hreceived
    refine ⟨Bool.eq_false_iff.mpr fun hc => ?_, hreceived.prefix_delivered⟩
    obtain ⟨-, hinput⟩ := hreceived.all hlawful hc
    have hwaits := (hreceived.waiting hc).2.2.2
    rw [hinput] at hwaits
    exact hvalid.not_waits behind hwaits

/-- A message in two pieces with a ping between them. -/
def twoPieces : List RawFrame :=
  [⟨false, 0, 0x02, true, .one, [1, 2, 3, 4], [5]⟩, ⟨true, 0, 0x09, true, .one, [1, 2, 3, 4], []⟩,
    ⟨true, 0, 0x00, true, .one, [1, 2, 3, 4], [6, 7]⟩]

theorem sends_twoPieces : Sends [⟨⟨0x02, [5, 6, 7]⟩, [[5], [6, 7]]⟩] twoPieces where
  cut := by
    simp only [List.mem_singleton, forall_eq]
    exact ⟨Or.inr rfl, List.cons_ne_nil _ _, rfl, by decide⟩
  valid := by
    simp only [twoPieces, List.forall_mem_cons]
    exact ⟨⟨by decide, by decide, rfl, by decide⟩, ⟨by decide, by decide, rfl, by decide⟩,
      ⟨by decide, by decide, rfl, by decide⟩, nofun⟩
  headers := by
    simp only [twoPieces, List.forall_mem_cons]
    exact ⟨⟨trivial, trivial, trivial⟩, ⟨trivial, trivial, trivial⟩,
      ⟨trivial, trivial, trivial⟩, nofun⟩
  control := by
    simp only [twoPieces, List.forall_mem_cons]
    exact ⟨by decide, by decide, by decide, nofun⟩
  data := rfl

/-- The browser's message arrives when its bytes come in two reads. -/
theorem local_web_socket_two_reads :
    let s := [Event.read ((wire twoPieces).take 8), .read ((wire twoPieces).drop 8)].foldl
      (Client.step ⟨fun _ => { authenticated := true }, false⟩) (start true [])
    s.connected = true ∧ s.delivered = [⟨0x02, [5, 6, 7]⟩] := by
  obtain ⟨-, hall, hkept⟩ := (local_web_socket ⟨fun _ => { authenticated := true }, false⟩ true []
    [.read ((wire twoPieces).take 8), .read ((wire twoPieces).drop 8)]).1 _ _ sends_twoPieces rfl
  have hconnected := hkept (fun _ => rfl) (by simp)
  exact ⟨hconnected, hall hconnected⟩

end WebSocket

end Mtproto

end Yunogram
