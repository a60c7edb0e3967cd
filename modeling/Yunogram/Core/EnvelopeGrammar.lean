import Yunogram.Core.UpdateEnvelope

/-!
# Core/EnvelopeGrammar — which bytes are an envelope, and what a signature binds

The grammar of the format: `encode` writes an envelope, `WithinLimits` bounds its parts.  Every field
reader accepts exactly the encodings of its field, so `parseEnvelope` accepts exactly the encodings of
envelopes within the limits, and no byte of an accepted file is ignored.  `signingInput` is a header of
fixed layout, the manifest behind its length, and a hash of fixed length: it determines all of them.
-/

open Machinery

namespace Yunogram

namespace Core

namespace Updates

/-! ## The grammar -/

/-- A part behind its length. -/
def blob (bytes : QByteArray) : QByteArray := littleEndian 4 bytes.length ++ bytes

/-- A signature behind the id of its key. -/
def EnvelopeSignature.encode (s : EnvelopeSignature) : QByteArray := blob s.keyId ++ blob s.bytes

namespace Envelope

/-- The header without the magic, and the manifest. -/
def fields (e : Envelope) : QByteArray :=
  littleEndian 4 kEnvelopeFormat ++ ([e.channel.code] ++ ([e.target.os.code]
    ++ ([e.target.arch.code] ++ (littleEndian 8 e.version
    ++ (littleEndian 8 e.created.toUInt64.toNat ++ blob e.manifest)))))

/-- The header and the manifest. -/
def header (e : Envelope) : QByteArray := kEnvelopeMagic ++ e.fields

/-- What follows the signed region. -/
def tail (e : Envelope) : QByteArray :=
  blob e.manifestSignature ++ (littleEndian 4 e.signatures.length
    ++ (e.signatures.flatMap EnvelopeSignature.encode ++ blob e.payload))

/-- An envelope in the file. -/
def encode (e : Envelope) : QByteArray := e.header ++ e.tail

end Envelope

/-- A part that is not empty, of at most `max` bytes. -/
def Sized (max : ℕ) (bytes : QByteArray) : Prop := 0 < bytes.length ∧ bytes.length ≤ max

instance (max : ℕ) (bytes : QByteArray) : Decidable (Sized max bytes) :=
  inferInstanceAs (Decidable (_ ∧ _))

/-- The limits of the format. -/
structure Envelope.WithinLimits (e : Envelope) : Prop where
  version : e.version < 2 ^ 64
  manifest : Sized kMaxManifestSize e.manifest
  manifestSignature : Sized kMaxManifestSignatureSize e.manifestSignature
  signatures : e.signatures.length ≤ kMaxSignatures
  signature : ∀ s ∈ e.signatures, Sized kMaxKeyIdSize s.keyId ∧ Sized kMaxSignatureSize s.bytes
  payload : Sized kMaxPayloadSize e.payload

/-! ## The reader -/

variable {β : Type}

/-- A read finds the encodings of fitting values, and nothing else. -/
def Reads (read : Parser UInt8 Fault (Option β)) (fits : β → Prop) (encode : β → QByteArray) :
    Prop :=
  ∀ r : Reader, r.Inside → (∀ fault, read r ≠ .error fault) ∧
    ∀ b r', read r = .ok (some b, r') ↔
      (fits b ∧ encode b <+: r.rest) ∧ r' = r.skip (encode b).length

/-- What reading a number of bytes does. -/
theorem readBytes_eq {r : Reader} (h : r.Inside) (count : ℕ) : readBytes count r =
    .ok (if count ≤ r.rest.length then (some (r.rest.take count), r.skip count) else (none, r)) := by
  have hin : r.offset ≤ r.data.length := h
  have hlen : r.rest.length = r.data.length - r.offset := Cursor.length_rest
  rw [readBytes, Reader.left, if_pos hin, ← hlen]
  by_cases hc : count ≤ r.rest.length
  · rw [if_neg (not_lt.mpr hc), if_pos hc, subspan_ok (by omega)]
    rfl
  · rw [if_pos (not_le.mp hc), if_neg hc]
    rfl

theorem prefix_length_iff {bytes w : QByteArray} {count : ℕ} (h : bytes.length = count) :
    bytes <+: w ↔ count ≤ w.length ∧ bytes = w.take count := by
  rw [List.prefix_iff_eq_take, h]
  refine ⟨fun he => ⟨?_, he⟩, And.right⟩
  rw [← h, he, List.length_take]
  exact min_le_right _ _

/-- A read of `width` bytes that are decoded. -/
structure ReadsWidth (read : Parser UInt8 Fault (Option β)) (width : ℕ)
    (decode : QByteArray → β) : Prop where
  enough : ∀ r : Reader, r.Inside → width ≤ r.rest.length →
    read r = .ok (some (decode (r.rest.take width)), r.skip width)
  short : ∀ r : Reader, r.Inside → r.rest.length < width →
    ∃ r', r'.Inside ∧ read r = .ok (none, r')

theorem ReadsWidth.reads {read : Parser UInt8 Fault (Option β)} {width : ℕ}
    {decode : QByteArray → β} {fits : β → Prop} {encode : β → QByteArray}
    (hread : ReadsWidth read width decode)
    (h : ∀ bytes b, bytes.length = width ∧ decode bytes = b ↔ fits b ∧ bytes = encode b) :
    Reads read fits encode := by
  intro r hr
  have hlen : ∀ b, fits b → (encode b).length = width := fun b hb => ((h _ b).mpr ⟨hb, rfl⟩).1
  by_cases hc : width ≤ r.rest.length
  · have htake : (r.rest.take width).length = width := by rw [List.length_take, min_eq_left hc]
    rw [hread.enough r hr hc]
    refine ⟨nofun, fun b r' => ?_⟩
    constructor
    · intro he
      obtain ⟨hb, rfl⟩ := Prod.mk.inj (Except.ok.inj he)
      obtain ⟨hfits, heq⟩ := (h _ b).mp ⟨htake, Option.some.inj hb⟩
      rw [← heq, htake]
      exact ⟨⟨hfits, List.take_prefix _ _⟩, rfl⟩
    · rintro ⟨⟨hfits, hpre⟩, rfl⟩
      obtain ⟨-, heq⟩ := (prefix_length_iff (hlen b hfits)).mp hpre
      rw [hlen b hfits, ((h _ b).mpr ⟨hfits, heq.symm⟩).2]
  · obtain ⟨r₀, -, hnone⟩ := hread.short r hr (not_le.mp hc)
    rw [hnone]
    refine ⟨nofun, fun b r' => ⟨nofun, ?_⟩⟩
    rintro ⟨⟨hfits, hpre⟩, -⟩
    exact absurd ((prefix_length_iff (hlen b hfits)).mp hpre).1 hc

theorem ReadsWidth.total {read : Parser UInt8 Fault (Option β)} {width : ℕ}
    {decode : QByteArray → β} (h : ReadsWidth read width decode) {r : Reader} (hr : r.Inside) :
    ∃ o r', r'.Inside ∧ read r = .ok (o, r') := by
  by_cases hc : width ≤ r.rest.length
  · exact ⟨_, _, hr.skip_le hc, h.enough r hr hc⟩
  · obtain ⟨r', hr', hnone⟩ := h.short r hr (not_le.mp hc)
    exact ⟨_, r', hr', hnone⟩

theorem readsWidth_map {count : ℕ} (decode : QByteArray → β) :
    ReadsWidth (do return (← readBytes count).map decode) count decode := by
  have hread : ∀ r, (do return (← readBytes count).map decode : Parser UInt8 Fault (Option β)) r
      = readBytes count r >>= fun o => .ok (o.1.map decode, o.2) := fun r => rfl
  constructor
  · intro r hr hc
    rw [hread, readBytes_eq hr, if_pos hc]
    rfl
  · intro r hr hc
    rw [hread, readBytes_eq hr, if_neg (not_le.mpr hc)]
    exact ⟨r, hr, rfl⟩

theorem reads_bytes (count : ℕ) : Reads (readBytes count) (fun b => b.length = count) id := by
  have h : Reads (do return (← readBytes count).map id) (fun b => b.length = count) id :=
    (readsWidth_map id).reads fun bytes b =>
      ⟨fun ⟨hl, he⟩ => he ▸ ⟨hl, rfl⟩, fun ⟨hl, he⟩ => he ▸ ⟨hl, rfl⟩⟩
  simpa using h

theorem reads_u8 : Reads readU8 (fun _ => True) fun b => [b] := by
  refine (readsWidth_map _).reads fun bytes b => ?_
  constructor
  · rintro ⟨hlen, rfl⟩
    obtain ⟨b, rfl⟩ := List.length_eq_one_iff.mp hlen
    exact ⟨trivial, rfl⟩
  · rintro ⟨-, rfl⟩
    exact ⟨rfl, rfl⟩

theorem quint32_eq {bytes : QByteArray} (h : bytes.length = 4) :
    quint32 bytes = ofLittleEndian bytes := by
  obtain ⟨b0, b1, b2, b3, rfl⟩ : ∃ b0 b1 b2 b3, bytes = [b0, b1, b2, b3] := by
    match bytes, h with
    | [b0, b1, b2, b3], _ => exact ⟨b0, b1, b2, b3, rfl⟩
  have h0 := b0.toNat_lt
  have h1 := b1.toNat_lt
  have h2 := b2.toNat_lt
  show b0.toNat ||| b1.toNat <<< 8 ||| b2.toNat <<< 16 ||| b3.toNat <<< 24
    = b0.toNat + 256 * (b1.toNat + 256 * (b2.toNat + 256 * (b3.toNat + 256 * 0)))
  have e1 := or_shiftLeft (k := 8) (by omega : b0.toNat < 2 ^ 8) b1.toNat
  have e2 := or_shiftLeft (k := 16) (by omega : b0.toNat + 2 ^ 8 * b1.toNat < 2 ^ 16) b2.toNat
  rw [e1, e2, or_shiftLeft (by omega)]
  ring

theorem readsWidth_u32 : ReadsWidth readU32 4 ofLittleEndian := by
  have h : ReadsWidth readU32 4 quint32 := readsWidth_map quint32
  refine ⟨fun r hr hc => ?_, h.short⟩
  rw [← quint32_eq (by rw [List.length_take, min_eq_left hc])]
  exact h.enough r hr hc

theorem reads_u32 : Reads readU32 (· < 2 ^ 32) (littleEndian 4) :=
  readsWidth_u32.reads fun _ _ => eq_littleEndian_iff

/-- Two words, the low one first. -/
theorem readsWidth_u64 : ReadsWidth readU64 8 ofLittleEndian := by
  have hread : ∀ r low r₁ high r₂, readU32 r = .ok (low, r₁) → readU32 r₁ = .ok (high, r₂) →
      readU64 r = .ok (low.bind fun low => high.map fun high => low ||| high <<< 32, r₂) := by
    intro r low r₁ high r₂ hlow hhigh
    unfold readU64
    change readU32 r >>= _ = _
    rw [hlow, ok_bind]
    change readU32 r₁ >>= _ = _
    rw [hhigh, ok_bind]
    cases low <;> cases high <;> rfl
  constructor
  · intro r hr hc
    have htake : (r.rest.take 4).length = 4 := by
      rw [List.length_take]
      omega
    have hrest : (r.skip 4).rest = r.rest.drop 4 := Cursor.rest_skip 4
    have hlow := readsWidth_u32.enough r hr (by omega)
    have hhigh := readsWidth_u32.enough (r.skip 4) (hr.skip_le (by omega))
      (by rw [hrest, List.length_drop]; omega)
    have hlt := ofLittleEndian_lt (r.rest.take 4)
    rw [htake] at hlt
    rw [hread r _ _ _ _ hlow hhigh, Cursor.skip_skip, hrest,
      show (8 : ℕ) = 4 + 4 from rfl, List.take_add, ofLittleEndian_append, htake]
    exact congrArg (fun n => Except.ok (some n, r.skip 8)) (or_shiftLeft hlt _)
  · intro r hr hc
    by_cases h4 : 4 ≤ r.rest.length
    · have hrest : (r.skip 4).rest = r.rest.drop 4 := Cursor.rest_skip 4
      have hlow := readsWidth_u32.enough r hr h4
      obtain ⟨r₂, hr₂, hhigh⟩ := readsWidth_u32.short (r.skip 4) (hr.skip_le h4)
        (by rw [hrest, List.length_drop]; omega)
      exact ⟨r₂, hr₂, hread r _ _ _ _ hlow hhigh⟩
    · obtain ⟨r₁, hr₁, hlow⟩ := readsWidth_u32.short r hr (not_le.mp h4)
      obtain ⟨high, r₂, hr₂, hhigh⟩ := readsWidth_u32.total hr₁
      exact ⟨r₂, hr₂, hread r _ _ _ _ hlow hhigh⟩

theorem reads_u64 : Reads readU64 (· < 2 ^ 64) (littleEndian 8) :=
  readsWidth_u64.reads fun _ _ => eq_littleEndian_iff

/-! ## The fields -/

/-- **A field accepts the encodings of its good values.** -/
theorem encodes_field {read : Parser UInt8 Fault (Option β)} {fits : β → Prop}
    {encode : β → QByteArray} (h : Reads read fits encode) (text : String) (good : β → Bool) :
    Encodes Stop.Reported (field read text good) (fun b => fits b ∧ good b = true) encode := by
  intro r hr
  obtain ⟨hfault, hiff⟩ := h r hr
  have hnone : ∀ b, fits b → encode b <+: r.rest →
      read r = .ok (some b, r.skip (encode b).length) :=
    fun b hb hpre => (hiff b _).mpr ⟨⟨hb, hpre⟩, rfl⟩
  rw [field]
  cases hread : read r with
  | error fault => exact absurd hread (hfault fault)
  | ok o =>
    obtain ⟨o, r₁⟩ := o
    cases o with
    | none =>
      refine ⟨fun e he => ?_, fun b r' => ⟨nofun, ?_⟩⟩
      · obtain rfl := Except.error.inj he
        trivial
      · rintro ⟨u, hu, ⟨⟨hfits, -⟩, rfl⟩, -⟩
        exact nomatch hread.symm.trans (hnone b hfits hu)
    | some b₁ =>
      obtain ⟨⟨hfits, hpre⟩, rfl⟩ := (hiff b₁ r₁).mp hread
      dsimp only
      split
      · next hgood =>
        refine ⟨nofun, fun b r' => ?_⟩
        constructor
        · intro he
          obtain ⟨rfl, rfl⟩ := Prod.mk.inj (Except.ok.inj he)
          exact ⟨_, hpre, ⟨⟨hfits, hgood⟩, rfl⟩, rfl⟩
        · rintro ⟨u, hu, ⟨⟨hfits', -⟩, rfl⟩, rfl⟩
          obtain ⟨hb, hr'⟩ := Prod.mk.inj (Except.ok.inj (hread.symm.trans (hnone b hfits' hu)))
          rw [Option.some.inj hb]
      · next hgood =>
        refine ⟨fun e he => ?_, fun b r' => ⟨nofun, ?_⟩⟩
        · obtain rfl := Except.error.inj he
          trivial
        · rintro ⟨u, hu, ⟨⟨hfits', hgood'⟩, rfl⟩, -⟩
          obtain ⟨hb, -⟩ := Prod.mk.inj (Except.ok.inj (hread.symm.trans (hnone b hfits' hu)))
          rw [Option.some.inj hb] at hgood
          exact absurd hgood' hgood

theorem encodes_sized (sizeText text : String) {max : ℕ} (hmax : max < 2 ^ 32) :
    Encodes Stop.Reported (sized sizeText text max) (Sized max) blob := by
  refine ((encodes_field reads_u32 sizeText _).bind fun n =>
    encodes_field (reads_bytes n) text _).congr fun p b w => ?_
  constructor
  · rintro ⟨n, _, _, ⟨⟨-, hn⟩, rfl⟩, ⟨⟨rfl, -⟩, rfl⟩, rfl⟩
    rw [Bool.and_eq_true, decide_eq_true_iff, decide_eq_true_iff] at hn
    exact ⟨hn, rfl⟩
  · rintro ⟨⟨hpos, hle⟩, rfl⟩
    have hgood : (0 < b.length && b.length ≤ max : Bool) = true := by
      rw [Bool.and_eq_true, decide_eq_true_iff, decide_eq_true_iff]
      exact ⟨hpos, hle⟩
    exact ⟨b.length, _, _, ⟨⟨by omega, hgood⟩, rfl⟩, ⟨⟨rfl, rfl⟩, rfl⟩, rfl⟩

theorem encodes_signature : Encodes Stop.Reported readSignature
    (fun s => Sized kMaxKeyIdSize s.keyId ∧ Sized kMaxSignatureSize s.bytes)
    EnvelopeSignature.encode := by
  refine ((encodes_sized _ _ (by decide)).bind fun id => (encodes_sized _ _ (by decide)).bind
    fun sig => accepts_pure _).congr fun p s w => ?_
  constructor
  · rintro ⟨id, _, _, ⟨hid, rfl⟩, ⟨sig, _, _, ⟨hsig, rfl⟩, ⟨rfl, rfl⟩, rfl⟩, rfl⟩
    rw [List.append_nil]
    exact ⟨⟨hid, hsig⟩, rfl⟩
  · rintro ⟨⟨hid, hsig⟩, rfl⟩
    exact ⟨s.keyId, _, _, ⟨hid, rfl⟩, ⟨s.bytes, _, _, ⟨hsig, rfl⟩, ⟨rfl, rfl⟩,
      (List.append_nil _).symm⟩, rfl⟩

theorem accepts_leftOfOffset :
    Accepts Stop.Reported leftOfOffset fun p b u => b = p ∧ u = [] := by
  intro r _
  refine ⟨nofun, fun b r' => ?_⟩
  constructor
  · intro he
    obtain ⟨rfl, rfl⟩ := Prod.mk.inj (Except.ok.inj he)
    exact ⟨[], List.nil_prefix, ⟨rfl, rfl⟩, rfl⟩
  · rintro ⟨u, -, ⟨rfl, rfl⟩, rfl⟩
    rfl

theorem eq_of_le_three {value : UInt8} (h : value ≤ 3) :
    value = 0 ∨ value = 1 ∨ value = 2 ∨ value = 3 := by
  have hle : value.toNat ≤ 3 := UInt8.le_iff_toNat_le.mp h
  simp only [← UInt8.toNat_inj, UInt8.reduceToNat]
  omega

theorem Channel.code_ofCode {value : UInt8} (h : value ≤ canaryPrivate.code) :
    (ofCode value).code = value := by
  rcases eq_of_le_three h with rfl | rfl | rfl | rfl <;> rfl

theorem Os.code_ofCode {value : UInt8} (h : value ≤ linux.code) : (ofCode value).code = value := by
  rcases eq_of_le_three (UInt8.le_trans h (by decide)) with rfl | rfl | rfl | rfl
  · rfl
  · rfl
  · rfl
  · exact absurd h (by decide)

theorem Arch.code_ofCode {value : UInt8} (h : value ≤ arm.code) : (ofCode value).code = value := by
  rcases eq_of_le_three (UInt8.le_trans h (by decide)) with rfl | rfl | rfl | rfl
  · rfl
  · rfl
  · rfl
  · exact absurd h (by decide)

theorem Channel.ofCode_code (channel : Channel) :
    ofCode channel.code = channel ∧ channel.code ≤ canaryPrivate.code := by
  cases channel <;> decide

theorem Os.ofCode_code (os : Os) : ofCode os.code = os ∧ os.code ≤ linux.code := by
  cases os <;> decide

theorem Arch.ofCode_code (arch : Arch) : ofCode arch.code = arch ∧ arch.code ≤ arm.code := by
  cases arch <;> decide

/-- **What is read after the magic.** -/
theorem accepts_envelope : Accepts Stop.Reported readEnvelope fun p e w =>
    e.WithinLimits ∧ e.signedRegion = p ++ e.fields ∧ w = e.fields ++ e.tail := by
  refine ((encodes_field reads_u32 _ _).bind fun _ =>
    (encodes_field reads_u8 _ _).bind fun channel =>
    (encodes_field reads_u8 _ _).bind fun os =>
    (encodes_field reads_u8 _ _).bind fun arch =>
    (encodes_field reads_u64 _ _).bind fun version =>
    (encodes_field reads_u64 _ _).bind fun created =>
    (encodes_sized _ _ (by decide)).bind fun manifest =>
    accepts_leftOfOffset.bind fun signedRegion =>
    (encodes_sized _ _ (by decide)).bind fun manifestSignature =>
    (encodes_field reads_u32 _ _).bind fun count =>
    (encodes_signature.times count).bind fun signatures =>
    (encodes_sized _ _ (by decide)).bind fun payload => accepts_pure _).congr fun p e w => ?_
  constructor
  · rintro ⟨_, _, _, ⟨⟨-, hf⟩, rfl⟩, ⟨channel, _, _, ⟨⟨-, hc⟩, rfl⟩, ⟨os, _, _, ⟨⟨-, ho⟩, rfl⟩,
      ⟨arch, _, _, ⟨⟨-, ha⟩, rfl⟩, ⟨version, _, _, ⟨⟨hv, -⟩, rfl⟩, ⟨created, _, _, ⟨⟨ht, -⟩, rfl⟩,
      ⟨manifest, _, _, ⟨hm, rfl⟩, ⟨_, _, _, ⟨rfl, rfl⟩, ⟨sig, _, _, ⟨hs, rfl⟩,
      ⟨_, _, _, ⟨⟨-, hcount⟩, rfl⟩, ⟨sigs, _, _, ⟨⟨rfl, hsigs⟩, rfl⟩, ⟨payload, _, _, ⟨hp, rfl⟩,
      ⟨rfl, rfl⟩, rfl⟩, rfl⟩, rfl⟩, rfl⟩, rfl⟩, rfl⟩, rfl⟩, rfl⟩, rfl⟩, rfl⟩, rfl⟩, rfl⟩
    obtain rfl := of_decide_eq_true hf
    have hcreated : (UInt64.ofNat created).toInt64.toUInt64.toNat = created :=
      UInt64.toNat_ofNat_of_lt ht
    refine ⟨⟨hv, hm, hs, of_decide_eq_true hcount, hsigs, hp⟩, ?_, ?_⟩ <;>
      simp only [Envelope.fields, Envelope.tail, Channel.code_ofCode (of_decide_eq_true hc),
        Os.code_ofCode (of_decide_eq_true ho), Arch.code_ofCode (of_decide_eq_true ha), hcreated,
        List.append_assoc, List.append_nil, List.nil_append]
  · rintro ⟨hlimits, hregion, rfl⟩
    obtain ⟨hchannel, hc⟩ := e.channel.ofCode_code
    obtain ⟨hos, ho⟩ := e.target.os.ofCode_code
    obtain ⟨harch, ha⟩ := e.target.arch.ofCode_code
    have hcreated : (UInt64.ofNat e.created.toUInt64.toNat).toInt64 = e.created := by
      rw [UInt64.ofNat_toNat, Int64.toInt64_toUInt64]
    refine ⟨kEnvelopeFormat, _, _, ⟨⟨by decide, rfl⟩, rfl⟩,
      ⟨e.channel.code, _, _, ⟨⟨trivial, decide_eq_true hc⟩, rfl⟩,
      ⟨e.target.os.code, _, _, ⟨⟨trivial, decide_eq_true ho⟩, rfl⟩,
      ⟨e.target.arch.code, _, _, ⟨⟨trivial, decide_eq_true ha⟩, rfl⟩,
      ⟨e.version, _, _, ⟨⟨hlimits.version, rfl⟩, rfl⟩,
      ⟨e.created.toUInt64.toNat, _, _, ⟨⟨e.created.toUInt64.toNat_lt, rfl⟩, rfl⟩,
      ⟨e.manifest, _, _, ⟨hlimits.manifest, rfl⟩, ⟨e.signedRegion, _, _, ⟨?_, rfl⟩,
      ⟨e.manifestSignature, _, _, ⟨hlimits.manifestSignature, rfl⟩,
      ⟨e.signatures.length, _, _, ⟨⟨?_, decide_eq_true hlimits.signatures⟩, rfl⟩,
      ⟨e.signatures, _, _, ⟨⟨rfl, hlimits.signature⟩, rfl⟩,
      ⟨e.payload, _, _, ⟨hlimits.payload, rfl⟩, ⟨?_, rfl⟩, rfl⟩, rfl⟩, rfl⟩, rfl⟩, rfl⟩, rfl⟩, rfl⟩,
      rfl⟩, rfl⟩, rfl⟩, rfl⟩, ?_⟩
    · rw [hregion, Envelope.fields]
      simp only [List.append_assoc]
    · exact lt_of_le_of_lt hlimits.signatures (by decide)
    · rw [hchannel, hos, harch, hcreated]
    · rw [Envelope.fields, Envelope.tail]
      simp only [List.append_assoc, List.append_nil, List.nil_append]

theorem isV2UpdateFile_iff {data : QByteArray} :
    isV2UpdateFile data = true ↔ data.take 4 = kEnvelopeMagic := by
  rw [isV2UpdateFile, Bool.and_eq_true, decide_eq_true_iff, decide_eq_true_iff]
  refine ⟨And.right, fun h => ⟨?_, h⟩⟩
  have hlen := congrArg List.length h
  rw [List.length_take, show kEnvelopeMagic.length = 4 from rfl] at hlen
  omega

/-- **`parseEnvelope` accepts exactly the encodings of envelopes within the limits**, and what it
does not accept it reports. -/
theorem parseEnvelope_iff (data : QByteArray) :
    (∀ fault, parseEnvelope data ≠ .error (.fault fault)) ∧
    ∀ e, parseEnvelope data = .ok e ↔
      e.WithinLimits ∧ e.signedRegion = e.header ∧ data = e.encode := by
  have hparse : parseEnvelope data = if isV2UpdateFile data = true then
      readEnvelope { data, offset := 4 } >>= fun r =>
        if r.2.offset ≠ r.2.data.length then .error (.error "Bad envelope payload.") else .ok r.1
      else .error (.error "Bad envelope magic.") := by
    rw [parseEnvelope]
    cases isV2UpdateFile data <;> rfl
  have hencode : ∀ e : Envelope, data = e.encode →
      data.take 4 = kEnvelopeMagic ∧ data.drop 4 = e.fields ++ e.tail := by
    rintro e rfl
    rw [Envelope.encode, Envelope.header, List.append_assoc]
    exact ⟨rfl, rfl⟩
  rw [hparse]
  by_cases hmagic : isV2UpdateFile data = true
  · have htake := isV2UpdateFile_iff.mp hmagic
    have hin : Cursor.Inside ({ data, offset := 4 } : Reader) := by
      rw [isV2UpdateFile, Bool.and_eq_true, decide_eq_true_iff] at hmagic
      exact hmagic.1
    obtain ⟨hclean, hiff⟩ := accepts_envelope { data, offset := 4 } hin
    rw [Cursor.before, Cursor.rest] at hiff
    dsimp only at hiff
    rw [htake] at hiff
    have hok : ∀ e : Envelope, e.WithinLimits → e.signedRegion = e.header → data = e.encode →
        readEnvelope { data, offset := 4 } = .ok (e, { data, offset := 4 + (data.drop 4).length }) := by
      intro e hlimits hregion he
      obtain ⟨-, hdrop⟩ := hencode e he
      exact (hiff e _).mpr ⟨_, List.prefix_rfl, ⟨hlimits, hregion, hdrop⟩, rfl⟩
    rw [if_pos hmagic]
    cases hread : readEnvelope { data, offset := 4 } with
    | error stop =>
      refine ⟨fun fault he => ?_, fun e => ⟨fun h => (by cases h), ?_⟩⟩
      · obtain rfl := Except.error.inj he
        exact hclean _ hread
      · rintro ⟨hlimits, hregion, he⟩
        cases hread.symm.trans (hok e hlimits hregion he)
    | ok r =>
      obtain ⟨e₁, r₁⟩ := r
      obtain ⟨u, hu, ⟨hlimits, hregion, rfl⟩, rfl⟩ := (hiff e₁ r₁).mp hread
      have hend : 4 + (e₁.fields ++ e₁.tail).length = data.length ↔ data = e₁.encode := by
        constructor
        · intro hlen
          have hrest := hu.eq_of_length (by rw [List.length_drop]; omega)
          rw [Envelope.encode, Envelope.header, List.append_assoc, hrest, ← htake,
            List.take_append_drop]
        · intro he
          rw [← (hencode e₁ he).2, List.length_drop, Nat.add_sub_cancel' hin]
      rw [ok_bind]
      show (∀ fault, (if 4 + (e₁.fields ++ e₁.tail).length ≠ data.length then _ else _)
        ≠ Except.error (Stop.fault fault)) ∧ ∀ e, (if 4 + (e₁.fields ++ e₁.tail).length ≠ data.length
        then _ else _) = Except.ok e ↔ _
      by_cases he : data = e₁.encode
      · rw [if_neg (not_not.mpr (hend.mpr he))]
        refine ⟨fun _ h => (by cases h),
          fun e => ⟨fun h => ?_, fun h => h.elim fun hl h => h.elim fun hr hd => ?_⟩⟩
        · obtain rfl := Except.ok.inj h
          exact ⟨hlimits, hregion, he⟩
        · exact congrArg Except.ok
            (Prod.mk.inj (Except.ok.inj (hread.symm.trans (hok e hl hr hd)))).1
      · rw [if_pos (fun h => he (hend.mp h))]
        refine ⟨fun fault h => ?_,
          fun e => ⟨fun h => (by cases h), fun h => h.elim fun hl h => h.elim fun hr hd => ?_⟩⟩
        · cases Except.error.inj h
        · obtain ⟨rfl, -⟩ := Prod.mk.inj (Except.ok.inj (hread.symm.trans (hok e hl hr hd)))
          exact absurd hd he
  · rw [if_neg hmagic]
    refine ⟨fun _ h => (by cases h), fun e => ⟨fun h => (by cases h), ?_⟩⟩
    rintro ⟨-, -, he⟩
    exact absurd (isV2UpdateFile_iff.mpr (hencode e he).1) hmagic

/-! ## What is signed -/

theorem Channel.code_injective {a b : Channel} (h : a.code = b.code) : a = b := by
  rw [← a.ofCode_code.1, h, b.ofCode_code.1]

theorem Os.code_injective {a b : Os} (h : a.code = b.code) : a = b := by
  rw [← a.ofCode_code.1, h, b.ofCode_code.1]

theorem Arch.code_injective {a b : Arch} (h : a.code = b.code) : a = b := by
  rw [← a.ofCode_code.1, h, b.ofCode_code.1]

theorem littleEndian_injective {width m n : ℕ} (hm : m < 256 ^ width) (hn : n < 256 ^ width)
    (h : littleEndian width m = littleEndian width n) : m = n := by
  rw [← ofLittleEndian_littleEndian hm, h, ofLittleEndian_littleEndian hn]

theorem blob_injective {a b : QByteArray} (h : blob a = blob b) : a = b := by
  refine (List.append_inj h ?_).2
  rw [length_littleEndian, length_littleEndian]

/-- The metadata of an envelope, and its manifest. -/
def Envelope.metadata (e : Envelope) : Channel × Target × ℕ × Int64 × QByteArray :=
  (e.channel, e.target, e.version, e.created, e.manifest)

/-- **The header determines all of it.** -/
theorem Envelope.metadata_of_header {e₁ e₂ : Envelope} (h₁ : e₁.WithinLimits)
    (h₂ : e₂.WithinLimits) (h : e₁.header = e₂.header) : e₁.metadata = e₂.metadata := by
  have hlen : ∀ width m n, (littleEndian width m).length = (littleEndian width n).length :=
    fun width m n => by rw [length_littleEndian, length_littleEndian]
  obtain ⟨-, hfields⟩ := List.append_inj h rfl
  obtain ⟨-, hrest⟩ := List.append_inj hfields (hlen 4 _ _)
  obtain ⟨hchannel, hrest⟩ := List.append_inj hrest rfl
  obtain ⟨hos, hrest⟩ := List.append_inj hrest rfl
  obtain ⟨harch, hrest⟩ := List.append_inj hrest rfl
  obtain ⟨hversion, hrest⟩ := List.append_inj hrest (hlen 8 _ _)
  obtain ⟨hcreated, hmanifest⟩ := List.append_inj hrest (hlen 8 _ _)
  have htarget : e₁.target = e₂.target := by
    have ho := Os.code_injective (List.singleton_inj.mp hos)
    have ha := Arch.code_injective (List.singleton_inj.mp harch)
    cases h₁ : e₁.target
    cases h₂ : e₂.target
    simp_all
  have htime := littleEndian_injective e₁.created.toUInt64.toNat_lt e₂.created.toUInt64.toNat_lt
    hcreated
  have htime' : e₁.created = e₂.created := by
    rw [← Int64.toInt64_toUInt64 e₁.created, UInt64.toNat_inj.mp htime, Int64.toInt64_toUInt64]
  rw [metadata, metadata, Channel.code_injective (List.singleton_inj.mp hchannel), htarget,
    littleEndian_injective h₁.version h₂.version hversion, htime', blob_injective hmanifest]

theorem length_sha256 {evpDigest : QByteArray → Option QByteArray} {data : QByteArray}
    (h : sha256 evpDigest data ≠ []) : (sha256 evpDigest data).length = 32 := by
  rw [sha256] at h ⊢
  split at h
  · split at h
    · next hlen => rw [if_pos hlen, hlen]
    · exact absurd rfl h
  · exact absurd rfl h

theorem signingInput_eq {evpDigest : QByteArray → Option QByteArray} {e : Envelope}
    (hregion : e.signedRegion = e.header) (h : sha256 evpDigest e.payload ≠ []) :
    signingInput evpDigest e = e.header ++ sha256 evpDigest e.payload := by
  rw [signingInput, hregion, if_neg]
  rw [Bool.or_eq_true, List.isEmpty_iff, List.isEmpty_iff]
  rintro (h' | h')
  · exact h h'
  · exact nomatch h'

/-- **Equal signing inputs bind metadata, manifest and payload**, when the hash could be computed
and does not take the two payloads to one value. -/
theorem signingInput_binds {evpDigest : QByteArray → Option QByteArray} {e₁ e₂ : Envelope}
    (h₁ : e₁.WithinLimits) (h₂ : e₂.WithinLimits) (hregion₁ : e₁.signedRegion = e₁.header)
    (hregion₂ : e₂.signedRegion = e₂.header) (hhash : sha256 evpDigest e₁.payload ≠ [])
    (hinj : sha256 evpDigest e₁.payload = sha256 evpDigest e₂.payload → e₁.payload = e₂.payload)
    (h : signingInput evpDigest e₁ = signingInput evpDigest e₂) :
    e₁.metadata = e₂.metadata ∧ e₁.payload = e₂.payload := by
  have hhash₂ : sha256 evpDigest e₂.payload ≠ [] := by
    intro hnone
    rw [signingInput_eq hregion₁ hhash] at h
    have hempty : signingInput evpDigest e₂ = [] := by
      rw [signingInput, hnone]
      rfl
    rw [hempty] at h
    exact hhash (List.append_eq_nil_iff.mp h).2
  rw [signingInput_eq hregion₁ hhash, signingInput_eq hregion₂ hhash₂] at h
  obtain ⟨hheader, heq⟩ := List.append_inj' h (by rw [length_sha256 hhash, length_sha256 hhash₂])
  exact ⟨Envelope.metadata_of_header h₁ h₂ hheader, hinj heq⟩

/-- **The format of update files.**  Reading never leaves the data; exactly the encodings of envelopes
within the limits are accepted, so that an accepted file is its signed region with the encodings of
what follows; and what a signature is made over determines the metadata, the manifest and the
payload. -/
theorem envelope_format :
    (∀ data fault, parseEnvelope data ≠ .error (.fault fault)) ∧
    (∀ data e, parseEnvelope data = .ok e ↔
      e.WithinLimits ∧ e.signedRegion = e.header ∧ data = e.encode) ∧
    (∀ data e, parseEnvelope data = .ok e → data = e.signedRegion ++ e.tail) ∧
    ∀ (evpDigest : QByteArray → Option QByteArray) (data₁ data₂ : QByteArray) (e₁ e₂ : Envelope),
      parseEnvelope data₁ = .ok e₁ → parseEnvelope data₂ = .ok e₂ →
      sha256 evpDigest e₁.payload ≠ [] →
      (sha256 evpDigest e₁.payload = sha256 evpDigest e₂.payload → e₁.payload = e₂.payload) →
      signingInput evpDigest e₁ = signingInput evpDigest e₂ →
      e₁.channel = e₂.channel ∧ e₁.target = e₂.target ∧ e₁.version = e₂.version ∧
        e₁.created = e₂.created ∧ e₁.manifest = e₂.manifest ∧ e₁.payload = e₂.payload := by
  have hiff : ∀ data e, parseEnvelope data = .ok e ↔
      e.WithinLimits ∧ e.signedRegion = e.header ∧ data = e.encode :=
    fun data => (parseEnvelope_iff data).2
  refine ⟨fun data => (parseEnvelope_iff data).1, hiff, fun data e he => ?_,
    fun evpDigest data₁ data₂ e₁ e₂ he₁ he₂ hhash hinj h => ?_⟩
  · obtain ⟨-, hregion, hdata⟩ := (hiff data e).mp he
    rw [hdata, hregion, Envelope.encode]
  · obtain ⟨h₁, hregion₁, -⟩ := (hiff data₁ e₁).mp he₁
    obtain ⟨h₂, hregion₂, -⟩ := (hiff data₂ e₂).mp he₂
    obtain ⟨hmetadata, hpayload⟩ := signingInput_binds h₁ h₂ hregion₁ hregion₂ hhash hinj h
    obtain ⟨hchannel, hrest⟩ := Prod.mk.inj hmetadata
    obtain ⟨htarget, hrest⟩ := Prod.mk.inj hrest
    obtain ⟨hversion, hrest⟩ := Prod.mk.inj hrest
    obtain ⟨hcreated, hmanifest⟩ := Prod.mk.inj hrest
    exact ⟨hchannel, htarget, hversion, hcreated, hmanifest, hpayload⟩

/-- A small envelope with the given signatures; its payload is the byte `7`. -/
def smallEnvelope (signatures : List EnvelopeSignature) : Envelope where
  channel := .beta
  target := ⟨.mac, .arm⟩
  version := 5000001 * 2 ^ 32
  created := 1700000000
  manifest := [0x7b, 0x7d]
  manifestSignature := [1]
  signatures
  payload := [7]
  signedRegion := kEnvelopeMagic ++ (littleEndian 4 2 ++ [1, 1, 2]
    ++ littleEndian 8 (5000001 * 2 ^ 32) ++ littleEndian 8 1700000000 ++ [2, 0, 0, 0, 0x7b, 0x7d])

/-- The hash of the byte `7`. -/
def digestOfSeven (_ : QByteArray) : Option QByteArray :=
  some [202, 53, 135, 88, 246, 210, 126, 108, 244, 82, 114, 147, 121, 119, 167, 72, 253, 136, 57, 29,
    182, 121, 206, 218, 125, 199, 191, 31, 0, 94, 232, 121]

theorem envelope_format_small :
    (smallEnvelope []).manifest = (smallEnvelope [⟨[9], [8]⟩]).manifest ∧
      (smallEnvelope []).payload = (smallEnvelope [⟨[9], [8]⟩]).payload := by
  obtain ⟨-, hiff, -, hbinds⟩ := envelope_format
  have hone : parseEnvelope (smallEnvelope []).encode = .ok (smallEnvelope []) :=
    (hiff _ _).mpr ⟨⟨by decide, by decide, by decide, by decide, by decide, by decide⟩,
      by decide, rfl⟩
  have htwo : parseEnvelope (smallEnvelope [⟨[9], [8]⟩]).encode
      = .ok (smallEnvelope [⟨[9], [8]⟩]) :=
    (hiff _ _).mpr ⟨⟨by decide, by decide, by decide, by decide, by decide, by decide⟩,
      by decide, rfl⟩
  obtain ⟨-, -, -, -, hmanifest, hpayload⟩ := hbinds digestOfSeven _ _ _ _ hone htwo
    (by decide) (fun _ => rfl) rfl
  exact ⟨hmanifest, hpayload⟩

end Updates

end Core

end Yunogram
