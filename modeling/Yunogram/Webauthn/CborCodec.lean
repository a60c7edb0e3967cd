import Yunogram.Webauthn.Cbor

/-!
# Webauthn/CborCodec — what was written is read back, and nothing else is read

One induction over a value and one over the levels of the decoder: `decodeOne_encodeTo` says where a
value that was written leaves the reader, and `reads_decodeOne` what any call may do to it.  The result
is `cbor_codec`.
-/

namespace Yunogram.Webauthn

open Machinery

variable {r r' : Reader} {levels : ℕ}

/-! ## Reading what was written -/

/-- How deep the values inside of a value are, at most. -/
def CborValue.depth : CborValue → ℕ
  | .array value => depthItems value
  | .map value => depthEntries value
  | _ => 0
where
  /-- The depth of the array with some entries. -/
  depthItems : List CborValue → ℕ
    | [] => 0
    | entry :: entries => max (entry.depth + 1) (depthItems entries)
  /-- The depth of the map with some entries. -/
  depthEntries : List (CborValue × CborValue) → ℕ
    | [] => 0
    | (key, entry) :: entries => max (max (key.depth + 1) (entry.depth + 1)) (depthEntries entries)

variable {major value : ℕ} {bytes rest : Bytes}

/-- The bytes from the position on. -/
def Reader.ahead (r : Reader) : Bytes := r.data.drop r.position

theorem Reader.ahead_skip (h : r.ahead = bytes ++ rest) (n : ℕ) (hn : bytes.length = n) :
    ({ r with position := r.position + n } : Reader).ahead = rest := by
  rw [Reader.ahead, ← List.drop_drop]
  change r.ahead.drop n = rest
  rw [h, List.drop_left' hn]

/-- The initial byte has the major type above the number that says what the argument is. -/
theorem initial_toNat {low : ℕ} (hlow : low < 32) (hmajor : major < 8) :
    (UInt8.ofNat (low ||| major <<< 5)).toNat >>> 5 = major ∧
      (UInt8.ofNat (low ||| major <<< 5)).toNat &&& 0x1F = low := by
  have hvalue : low ||| major <<< 5 = low + 2 ^ 5 * major := or_shiftLeft hlow major
  rw [hvalue, UInt8.toNat_ofNat', Nat.mod_eq_of_lt (by omega), Nat.shiftRight_eq_div_pow,
    show (0x1F : ℕ) = 2 ^ 5 - 1 from rfl, Nat.and_two_pow_sub_one_eq_mod]
  omega

/-- **The number of some bytes is read.** -/
theorem readBig_bigEndian (hr : r.InBounds) {width : ℕ} (hwidth : width ≤ 8)
    (hvalue : value < 256 ^ width) (h : r.ahead = bigEndian width value ++ rest) :
    r.readBig width = (some value, { r with position := r.position + width }) := by
  have hlength := congrArg List.length h
  rw [Reader.ahead, List.length_drop, List.length_append, length_bigEndian] at hlength
  rw [Reader.readBig_eq hr hwidth, ← Reader.ahead, h, List.take_left' (length_bigEndian width value),
    ofBigEndian_bigEndian hvalue]
  have hposition := hr.position
  exact if_neg (by omega)

/-- **The major type and the argument are read back.** -/
theorem read_appendUnsigned (hr : r.InBounds) (hmajor : major < 8) (hvalue : value < 2 ^ 64)
    (h : r.ahead = appendUnsigned major value ++ rest) :
    ∃ initial, initial.toNat >>> 5 = major ∧
      r.read = (some initial, { r with position := r.position + 1 }) ∧
      readArgument (initial.toNat &&& 0x1F) { r with position := r.position + 1 }
        = (some value, { r with position := r.position + (appendUnsigned major value).length }) := by
  -- What follows the initial byte, by how long the argument is.
  have hread : ∀ (initial : UInt8) (tail : Bytes), r.ahead = initial :: tail →
      r.read = (some initial, { r with position := r.position + 1 }) ∧
        ({ r with position := r.position + 1 } : Reader).InBounds := by
    intro initial tail hahead
    have hlt : r.position < r.data.length := by
      have hlength := congrArg List.length hahead
      rw [Reader.ahead, List.length_drop, List.length_cons] at hlength
      omega
    have hinitial : r.data[r.position] = initial := by
      rw [Reader.ahead, List.drop_eq_getElem_cons hlt] at hahead
      exact (List.cons.inj hahead).1
    rw [Reader.read_eq, dif_pos hlt, hinitial]
    exact ⟨rfl, hlt, hr.length⟩
  have hwide : ∀ low width, low < 32 → width ≤ 8 → value < 256 ^ width →
      (∀ r : Reader, readArgument low r = r.readBig width) →
      appendUnsigned major value = UInt8.ofNat (low ||| major <<< 5) :: bigEndian width value →
      ∃ initial, initial.toNat >>> 5 = major ∧
        r.read = (some initial, { r with position := r.position + 1 }) ∧
        readArgument (initial.toNat &&& 0x1F) { r with position := r.position + 1 }
          = (some value, { r with
              position := r.position + (appendUnsigned major value).length }) := by
    intro low width hlow hwidth hfits hargument happend
    obtain ⟨htype, hinfo⟩ := initial_toNat hlow hmajor
    rw [happend, List.cons_append] at h
    obtain ⟨hinitial, hr'⟩ := hread _ _ h
    refine ⟨_, htype, hinitial, ?_⟩
    have hahead : ({ r with position := r.position + 1 } : Reader).ahead
        = bigEndian width value ++ rest :=
      Reader.ahead_skip (show r.ahead = [UInt8.ofNat (low ||| major <<< 5)] ++ _ from h) 1 rfl
    rw [hinfo, hargument, readBig_bigEndian hr' hwidth hfits hahead, happend, List.length_cons,
      length_bigEndian]
    dsimp only
    rw [Nat.add_assoc, Nat.add_comm 1 width]
  by_cases hsmall : value < 24
  · have happend : appendUnsigned major value = [UInt8.ofNat (value ||| major <<< 5)] :=
      if_pos hsmall
    obtain ⟨htype, hinfo⟩ := initial_toNat (show value < 32 by omega) hmajor
    rw [happend, List.cons_append] at h
    obtain ⟨hinitial, -⟩ := hread _ _ h
    refine ⟨_, htype, hinitial, ?_⟩
    rw [hinfo, readArgument, if_pos hsmall, happend]
    rfl
  · by_cases hbyte : value ≤ 0xFF
    · exact hwide 24 1 (by decide) (by decide) (by omega)
        (fun _ => by rw [readArgument, if_neg (by decide), if_pos rfl])
        (by rw [appendUnsigned, if_neg hsmall, if_pos hbyte])
    · by_cases hshort : value ≤ 0xFFFF
      · exact hwide 25 2 (by decide) (by decide) (by omega)
          (fun _ => by rw [readArgument, if_neg (by decide), if_neg (by decide), if_pos rfl])
          (by rw [appendUnsigned, if_neg hsmall, if_neg hbyte, if_pos hshort])
      · by_cases hlong : value ≤ 0xFFFFFFFF
        · exact hwide 26 4 (by decide) (by decide) (by omega)
            (fun _ => by rw [readArgument, if_neg (by decide), if_neg (by decide), if_neg (by decide),
              if_pos rfl])
            (by rw [appendUnsigned, if_neg hsmall, if_neg hbyte, if_neg hshort, if_pos hlong])
        · exact hwide 27 8 (by decide) (by decide) (by omega)
            (fun _ => by rw [readArgument, if_neg (by decide), if_neg (by decide), if_neg (by decide),
              if_neg (by decide), if_pos rfl])
            (by rw [appendUnsigned, if_neg hsmall, if_neg hbyte, if_neg hshort, if_neg hlong])

/-- The reader after some bytes. -/
theorem Reader.InBounds.after (hr : r.InBounds) (h : r.ahead = bytes ++ rest)
    (hdata : r'.data = r.data) (hposition : r'.position = r.position + bytes.length) :
    r'.InBounds ∧ r'.ahead = rest := by
  have hlength := congrArg List.length h
  rw [Reader.ahead, List.length_drop, List.length_append] at hlength
  have hle := hr.position
  refine ⟨⟨?_, hdata ▸ hr.length⟩, ?_⟩
  · rw [hdata, hposition]
    omega
  · rw [Reader.ahead, hdata, hposition]
    exact Reader.ahead_skip h _ rfl

/-- A value takes at least a byte, and so there are no more entries than bytes. -/
theorem length_appendUnsigned_pos (major value : ℕ) : 0 < (appendUnsigned major value).length := by
  unfold appendUnsigned
  split_ifs <;> exact Nat.succ_pos _

theorem length_encodeTo_pos (value : CborValue) : 0 < (encodeTo value).length := by
  cases value with
  | int value =>
    rw [encodeTo]
    split_ifs <;> exact length_appendUnsigned_pos _ _
  | bool value => exact Nat.one_pos
  | _ =>
    rw [encodeTo, List.length_append]
    exact Nat.add_pos_left (length_appendUnsigned_pos _ _) _

theorem length_le_encodeItems (values : List CborValue) :
    values.length ≤ (encodeItems values).length := by
  induction values with
  | nil => exact le_rfl
  | cons value values ih =>
    have hpos := length_encodeTo_pos value
    rw [encodeItems, List.length_cons, List.length_append]
    omega

theorem length_le_encodeEntries (values : List (CborValue × CborValue)) :
    values.length ≤ (encodeEntries values).length := by
  induction values with
  | nil => exact le_rfl
  | cons value values ih =>
    have hpos := length_encodeTo_pos value.1
    rw [encodeEntries, List.length_cons, List.length_append, List.length_append]
    omega

/-- **After the major type and the argument the value itself is read.** -/
theorem decodeOne_appendUnsigned (levels : ℕ) (hr : r.InBounds) (hmajor : major < 8)
    (hvalue : value ≤ rest.length ∨ value < 2 ^ 63) (h : r.ahead = appendUnsigned major value ++ rest) :
    ∃ initial r₁, initial.toNat >>> 5 = major ∧
      decodeOne (levels + 1) r = decodeMajor (decodeOne levels) initial value r₁ ∧
      r₁.data = r.data ∧ r₁.position = r.position + (appendUnsigned major value).length ∧
      r₁.InBounds ∧ r₁.ahead = rest := by
  have hlt : value < 2 ^ 64 := by
    have hlength := congrArg List.length h
    rw [Reader.ahead, List.length_drop, List.length_append] at hlength
    have hsize := hr.length
    omega
  have hcalled : (called levels r).InBounds := ⟨hr.position, hr.length⟩
  obtain ⟨initial, htype, hread, hargument⟩ := read_appendUnsigned hcalled hmajor hlt h
  refine ⟨initial, { called levels r with
    position := (called levels r).position + (appendUnsigned major value).length }, htype, ?_, rfl, rfl,
    hcalled.after h rfl rfl⟩
  rw [decodeOne_succ, hread]
  simp only [hargument]

theorem take_ahead (hr : r.InBounds) (h : r.ahead = bytes ++ rest) : ¬r.left < bytes.length ∧
    r.take bytes.length = (bytes, { r with position := r.position + bytes.length }) := by
  have hlength := congrArg List.length h
  rw [Reader.ahead, List.length_drop, List.length_append] at hlength
  have hposition := hr.position
  have hinside : ¬r.data.length < r.position + bytes.length := by omega
  refine ⟨by rw [Reader.left_eq hr]; omega, ?_⟩
  rw [Reader.take, ← Reader.ahead, h, List.take_left, decide_eq_false hinside, Bool.or_false]

mutual

/-- **A value that was written is read back.** -/
theorem decodeOne_encodeTo (value : CborValue) {levels : ℕ} (hdepth : value.depth < levels)
    {r : Reader} (hr : r.InBounds) {rest : Bytes} (h : r.ahead = encodeTo value ++ rest) :
    ∃ r', decodeOne levels r = (some value, r') ∧ r'.data = r.data ∧
      r'.position = r.position + (encodeTo value).length := by
  obtain ⟨levels, rfl⟩ := Nat.exists_eq_succ_of_ne_zero (Nat.ne_zero_of_lt hdepth)
  cases value with
  | int value =>
    obtain ⟨value, hlow, hhigh⟩ := value
    rw [encodeTo] at h ⊢
    dsimp only at h ⊢
    split_ifs at h ⊢ with hsign
    · obtain ⟨initial, r₁, htype, hdecode, hdata, hposition, -⟩ :=
        decodeOne_appendUnsigned levels hr (by decide) (Or.inr (by omega)) h
      have hfits : value.toNat < 2 ^ 63 := by omega
      refine ⟨r₁, ?_, hdata, hposition⟩
      rw [hdecode, decodeMajor, htype]
      simp only [hfits, dite_true, Int.toNat_of_nonneg hsign]
    · obtain ⟨initial, r₁, htype, hdecode, hdata, hposition, -⟩ :=
        decodeOne_appendUnsigned levels hr (by decide) (Or.inr (by omega)) h
      have hfits : (-1 - value).toNat < 2 ^ 63 := by omega
      have hback : -1 - ((-1 - value).toNat : ℤ) = value := by omega
      refine ⟨r₁, ?_, hdata, hposition⟩
      rw [hdecode, decodeMajor, htype]
      simp only [hfits, dite_true, hback]
  | bytes value =>
    rw [encodeTo, List.append_assoc] at h
    obtain ⟨initial, r₁, htype, hdecode, hdata, hposition, hr₁, hahead⟩ :=
      decodeOne_appendUnsigned levels hr (by decide)
        (Or.inl (by rw [List.length_append]; exact Nat.le_add_right _ _)) h
    obtain ⟨hleft, htake⟩ := take_ahead hr₁ hahead
    refine ⟨{ r₁ with position := r₁.position + value.length }, ?_, hdata, ?_⟩
    · rw [hdecode, decodeMajor, htype]
      simp only [if_neg hleft, htake]
    · rw [encodeTo, List.length_append, hposition, Nat.add_assoc]
  | string value =>
    rw [encodeTo, List.append_assoc] at h
    obtain ⟨initial, r₁, htype, hdecode, hdata, hposition, hr₁, hahead⟩ :=
      decodeOne_appendUnsigned levels hr (by decide)
        (Or.inl (by rw [List.length_append]; exact Nat.le_add_right _ _)) h
    obtain ⟨hleft, htake⟩ := take_ahead hr₁ hahead
    refine ⟨{ r₁ with position := r₁.position + value.length }, ?_, hdata, ?_⟩
    · rw [hdecode, decodeMajor, htype]
      simp only [if_neg hleft, htake]
    · rw [encodeTo, List.length_append, hposition, Nat.add_assoc]
  | array values =>
    rw [encodeTo, List.append_assoc] at h
    have hcount := length_le_encodeItems values
    obtain ⟨initial, r₁, htype, hdecode, hdata, hposition, hr₁, hahead⟩ :=
      decodeOne_appendUnsigned levels hr (by decide)
        (Or.inl (by rw [List.length_append]; omega)) h
    obtain ⟨r₂, hitems, hdata₂, hposition₂⟩ :=
      decodeItems_encodeItems values (Nat.le_of_lt_succ hdepth) hr₁ hahead
    refine ⟨r₂, ?_, hdata₂.trans hdata, ?_⟩
    · rw [hdecode, decodeMajor, htype]
      simp only [hitems, Option.map_some]
    · rw [encodeTo, List.length_append, hposition₂, hposition, Nat.add_assoc]
  | map values =>
    rw [encodeTo, List.append_assoc] at h
    have hcount := length_le_encodeEntries values
    obtain ⟨initial, r₁, htype, hdecode, hdata, hposition, hr₁, hahead⟩ :=
      decodeOne_appendUnsigned levels hr (by decide)
        (Or.inl (by rw [List.length_append]; omega)) h
    obtain ⟨r₂, hentries, hdata₂, hposition₂⟩ :=
      decodeEntries_encodeEntries values (Nat.le_of_lt_succ hdepth) hr₁ hahead
    refine ⟨r₂, ?_, hdata₂.trans hdata, ?_⟩
    · rw [hdecode, decodeMajor, htype]
      simp only [hentries, Option.map_some]
    · rw [encodeTo, List.length_append, hposition₂, hposition, Nat.add_assoc]
  | bool value =>
    have hlt : r.position < r.data.length := by
      have hlength := congrArg List.length h
      rw [Reader.ahead, List.length_drop, encodeTo, List.length_append, List.length_singleton]
        at hlength
      omega
    have hinitial : r.data[r.position] = if value then 0xF5 else 0xF4 := by
      rw [Reader.ahead, List.drop_eq_getElem_cons hlt, encodeTo] at h
      exact (List.cons.inj h).1
    refine ⟨{ called levels r with position := r.position + 1 }, ?_, rfl, rfl⟩
    rw [decodeOne_succ, Reader.read_eq, dif_pos (show (called levels r).position < (called levels r).data.length from hlt)]
    change (match readArgument (r.data[r.position].toNat &&& 0x1F) _ with
      | (none, r) => (none, r)
      | (some argument, r') => decodeMajor (decodeOne levels) r.data[r.position] argument r') = _
    rw [hinitial]
    cases value <;> rfl

/-- **The entries of an array are read back.** -/
theorem decodeItems_encodeItems (values : List CborValue) {levels : ℕ}
    (hdepth : CborValue.depth.depthItems values ≤ levels) {r : Reader} (hr : r.InBounds)
    {rest : Bytes} (h : r.ahead = encodeItems values ++ rest) :
    ∃ r', decodeItems (decodeOne levels) values.length r = (some values, r') ∧ r'.data = r.data ∧
      r'.position = r.position + (encodeItems values).length := by
  cases values with
  | nil => exact ⟨r, rfl, rfl, rfl⟩
  | cons value values =>
    rw [encodeItems, List.append_assoc] at h
    obtain ⟨r₁, hfirst, hdata, hposition⟩ := decodeOne_encodeTo value
      (Nat.lt_of_succ_le ((le_max_left _ _).trans hdepth)) hr h
    obtain ⟨hr₁, hahead⟩ := hr.after h hdata hposition
    obtain ⟨r₂, hrest, hdata₂, hposition₂⟩ :=
      decodeItems_encodeItems values ((le_max_right _ _).trans hdepth) hr₁ hahead
    refine ⟨r₂, ?_, hdata₂.trans hdata, ?_⟩
    · rw [List.length_cons, decodeItems, hfirst]
      simp only [hrest]
    · rw [encodeItems, List.length_append, hposition₂, hposition, Nat.add_assoc]

/-- **The entries of a map are read back.** -/
theorem decodeEntries_encodeEntries (values : List (CborValue × CborValue)) {levels : ℕ}
    (hdepth : CborValue.depth.depthEntries values ≤ levels) {r : Reader} (hr : r.InBounds)
    {rest : Bytes} (h : r.ahead = encodeEntries values ++ rest) :
    ∃ r', decodeEntries (decodeOne levels) values.length r = (some values, r') ∧
      r'.data = r.data ∧ r'.position = r.position + (encodeEntries values).length := by
  match values with
  | [] => exact ⟨r, rfl, rfl, rfl⟩
  | (key, value) :: values =>
    rw [encodeEntries, List.append_assoc, List.append_assoc] at h
    have hpair := (le_max_left _ _).trans hdepth
    obtain ⟨r₁, hkey, hdata, hposition⟩ := decodeOne_encodeTo key
      (Nat.lt_of_succ_le ((le_max_left _ _).trans hpair)) hr h
    obtain ⟨hr₁, hahead⟩ := hr.after h hdata hposition
    obtain ⟨r₂, hvalue, hdata₂, hposition₂⟩ := decodeOne_encodeTo value
      (Nat.lt_of_succ_le ((le_max_right _ _).trans hpair)) hr₁ hahead
    obtain ⟨hr₂, hahead₂⟩ := hr₁.after hahead hdata₂ hposition₂
    obtain ⟨r₃, hrest, hdata₃, hposition₃⟩ :=
      decodeEntries_encodeEntries values ((le_max_right _ _).trans hdepth) hr₂ hahead₂
    refine ⟨r₃, ?_, hdata₃.trans (hdata₂.trans hdata), ?_⟩
    · rw [List.length_cons, decodeEntries, hkey]
      simp only [hvalue, hrest]
    · rw [encodeEntries, List.length_append, List.length_append, hposition₃, hposition₂, hposition]
      omega

end

/-! ## The codec -/

theorem inBounds_start {data : Bytes} (hdata : data.length < 2 ^ 64) :
    (Reader.start data).InBounds := ⟨Nat.zero_le _, hdata⟩

/-- **The codec**: a value that is no deeper than the decoder goes is read back from its bytes, whatever
the keys of its maps are; and of whatever bytes nothing outside is read, there is at most one call for
each of them and one more, no call that does anything is deeper than the limit, and a value is only
given when all bytes were read. -/
theorem cbor_codec :
    (∀ value : CborValue, value.depth ≤ kMaxCborDepth → (cborEncode value).length < 2 ^ 64 →
      cborDecode (cborEncode value) = some value) ∧
    ∀ data : Bytes, data.length < 2 ^ 64 →
      (decodeStart data).2.outside = false ∧
      (decodeStart data).2.calls ≤ data.length + 1 ∧
      (decodeStart data).2.deepest ≤ kMaxCborDepth ∧
      ∀ value, cborDecode data = some value →
        (decodeStart data).1 = some value ∧ (decodeStart data).2.position = data.length := by
  refine ⟨fun value hdepth hlength => ?_, fun data hdata => ?_⟩
  · have hstart : (Reader.start (cborEncode value)).ahead = encodeTo value ++ [] := by
      rw [List.append_nil]
      rfl
    obtain ⟨r, hdecode, hdata, hposition⟩ :=
      decodeOne_encodeTo value (Nat.lt_succ_of_le hdepth) (inBounds_start hlength) hstart
    have hall : r.position = r.data.length := by
      rw [hposition, hdata]
      exact Nat.zero_add _
    rw [cborDecode, decodeStart, hdecode]
    simp only [hall, ne_eq, not_true_eq_false, if_false]
  · have hreads := reads_decodeOne (kMaxCborDepth + 1) (Reader.start data) (inBounds_start hdata)
    rw [← decodeStart] at hreads
    have hcalls := hreads.calls
    have hposition : (decodeStart data).2.position ≤ data.length := hreads.position
    have hfailures : failures (decodeStart data).1 ≤ 1 := by
      unfold failures
      split_ifs <;> decide
    refine ⟨hreads.outside, ?_, hreads.deepest.trans (max_le (Nat.zero_le _) le_rfl),
      fun value hvalue => ?_⟩
    · change (decodeStart data).2.calls + 0 ≤ 0 + _ + _ at hcalls
      omega
    · rw [cborDecode] at hvalue
      rcases hdecode : decodeStart data with ⟨_ | result, r⟩
      · rw [hdecode] at hvalue
        exact nomatch hvalue
      · rw [hdecode] at hvalue hreads
        simp only [ne_eq, ite_not, Option.ite_none_right_eq_some] at hvalue
        exact ⟨hvalue.2, hvalue.1.trans (congrArg List.length hreads.data)⟩

/-- A map with an array in it. -/
def sampleMap : CborValue :=
  .map [(.int ⟨-1, by decide⟩, .array [.bool true, .string [0x61], .int ⟨1000, by decide⟩])]

theorem cbor_codec_sample :
    cborDecode [0xA1, 0x20, 0x83, 0xF5, 0x61, 0x61, 0x19, 0x03, 0xE8] = some sampleMap ∧
      (decodeStart [0xA1, 0x20, 0x83]).2.outside = false :=
  ⟨cbor_codec.1 sampleMap (by decide) (by decide),
    (cbor_codec.2 [0xA1, 0x20, 0x83] (by decide)).1⟩

end Yunogram.Webauthn
