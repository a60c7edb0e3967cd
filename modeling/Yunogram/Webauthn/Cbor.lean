import Yunogram.Machinery.LittleEndian

/-!
# Webauthn/Cbor — the values of the CTAP messages as bytes

`cborEncode` writes a value and `cborDecode` reads one.  The decoder is modelled with its reader, which
also counts the calls and keeps whether a byte outside of the data was read and how deep the recursion
went; the source keeps none of these.
-/

namespace Yunogram.Webauthn

open Machinery

/-- `Bytes`. -/
abbrev Bytes := List UInt8

/-- `kMaxCborDepth`. -/
def kMaxCborDepth : ℕ := 16

/-- `int64_t`. -/
abbrev Int64 := { n : ℤ // -2 ^ 63 ≤ n ∧ n < 2 ^ 63 }

/-- `CborValue`; a string is its bytes. -/
inductive CborValue
  | int (value : Int64)
  | bytes (value : Bytes)
  | string (value : Bytes)
  | array (value : List CborValue)
  | map (value : List (CborValue × CborValue))
  | bool (value : Bool)

/-! ## Writing -/

/-- `AppendUnsigned`, the bytes that are appended. -/
def appendUnsigned (major value : ℕ) : Bytes :=
  if value < 24 then [UInt8.ofNat (value ||| major <<< 5)]
  else if value ≤ 0xFF then UInt8.ofNat (24 ||| major <<< 5) :: bigEndian 1 value
  else if value ≤ 0xFFFF then UInt8.ofNat (25 ||| major <<< 5) :: bigEndian 2 value
  else if value ≤ 0xFFFFFFFF then UInt8.ofNat (26 ||| major <<< 5) :: bigEndian 4 value
  else UInt8.ofNat (27 ||| major <<< 5) :: bigEndian 8 value

mutual

/-- `EncodeTo`, the bytes that are appended. -/
def encodeTo : CborValue → Bytes
  | .int value =>
    if 0 ≤ value.1 then appendUnsigned 0 value.1.toNat else appendUnsigned 1 (-1 - value.1).toNat
  | .bytes value => appendUnsigned 2 value.length ++ value
  | .string value => appendUnsigned 3 value.length ++ value
  | .array value => appendUnsigned 4 value.length ++ encodeItems value
  | .map value => appendUnsigned 5 value.length ++ encodeEntries value
  | .bool value => [if value then 0xF5 else 0xF4]

/-- The entries of an array. -/
def encodeItems : List CborValue → Bytes
  | [] => []
  | entry :: entries => encodeTo entry ++ encodeItems entries

/-- The entries of a map. -/
def encodeEntries : List (CborValue × CborValue) → Bytes
  | [] => []
  | (key, entry) :: entries => encodeTo key ++ encodeTo entry ++ encodeEntries entries

end

/-- `CborEncode`. -/
def cborEncode (value : CborValue) : Bytes := encodeTo value

/-! ## Reading -/

/-- `Reader`, with what was observed: whether a byte outside of the data was read, how often
`decodeOne` was called, and how deep it went. -/
structure Reader where
  data : Bytes
  position : ℕ
  outside : Bool
  calls : ℕ
  deepest : ℕ

namespace Reader

variable (r : Reader)

/-- `data[position++]`. -/
def next : UInt8 × Reader :=
  match r.data[r.position]? with
  | none => (0, { r with position := r.position + 1, outside := true })
  | some byte => (byte, { r with position := r.position + 1 })

/-- `size - position`, of a `size_t`. -/
def left : ℕ := (r.data.length + 2 ^ 64 - r.position) % 2 ^ 64

/-- `Reader::read`. -/
def read : Option UInt8 × Reader :=
  if r.data.length ≤ r.position then (none, r) else (some r.next.1, r.next.2)

/-- The loop of `Reader::readBig`. -/
def readBigLoop : Reader → ℕ → ℕ → ℕ × Reader
  | r, 0, out => (out, r)
  | r, count + 1, out => r.next.2.readBigLoop count ((out <<< 8 ||| r.next.1.toNat) % 2 ^ 64)

/-- `Reader::readBig`. -/
def readBig (count : ℕ) : Option ℕ × Reader :=
  if r.left < count then (none, r)
  else (some (r.readBigLoop count 0).1, (r.readBigLoop count 0).2)

/-- The bytes from the position on. -/
def take (count : ℕ) : Bytes × Reader :=
  ((r.data.drop r.position).take count, { r with
    position := r.position + count
    outside := r.outside || r.data.length < r.position + count })

end Reader

/-- The argument that comes with the initial byte. -/
def readArgument (additional : ℕ) (r : Reader) : Option ℕ × Reader :=
  if additional < 24 then (some additional, r)
  else if additional = 24 then r.readBig 1
  else if additional = 25 then r.readBig 2
  else if additional = 26 then r.readBig 4
  else if additional = 27 then r.readBig 8
  else (none, r)

/-- The loop over the entries of an array. -/
def decodeItems (decodeOne : Reader → Option CborValue × Reader) :
    ℕ → Reader → Option (List CborValue) × Reader
  | 0, r => (some [], r)
  | count + 1, r =>
    match decodeOne r with
    | (none, r) => (none, r)
    | (some entry, r) =>
      match decodeItems decodeOne count r with
      | (none, r) => (none, r)
      | (some entries, r) => (some (entry :: entries), r)

/-- The loop over the entries of a map. -/
def decodeEntries (decodeOne : Reader → Option CborValue × Reader) :
    ℕ → Reader → Option (List (CborValue × CborValue)) × Reader
  | 0, r => (some [], r)
  | count + 1, r =>
    match decodeOne r with
    | (none, r) => (none, r)
    | (some key, r) =>
      match decodeOne r with
      | (none, r) => (none, r)
      | (some entry, r) =>
        match decodeEntries decodeOne count r with
        | (none, r) => (none, r)
        | (some entries, r) => (some ((key, entry) :: entries), r)

/-- The `switch` of `DecodeOne`, over the major type of the initial byte. -/
def decodeMajor (decodeOne : Reader → Option CborValue × Reader) (initial : UInt8) (argument : ℕ)
    (r : Reader) : Option CborValue × Reader :=
  match initial.toNat >>> 5 with
  | 0 => (if h : argument < 2 ^ 63 then some (.int ⟨argument, by omega⟩) else none, r)
  | 1 => (if h : argument < 2 ^ 63 then some (.int ⟨-1 - argument, by omega⟩) else none, r)
  | 2 =>
    if r.left < argument then (none, r)
    else (some (.bytes (r.take argument).1), (r.take argument).2)
  | 3 =>
    if r.left < argument then (none, r)
    else (some (.string (r.take argument).1), (r.take argument).2)
  | 4 => ((decodeItems decodeOne argument r).1.map .array, (decodeItems decodeOne argument r).2)
  | 5 => ((decodeEntries decodeOne argument r).1.map .map, (decodeEntries decodeOne argument r).2)
  | 7 =>
    (if initial = 0xF4 then some (.bool false)
      else if initial = 0xF5 then some (.bool true) else none, r)
  | _ => (none, r)

/-- `DecodeOne`, by how many levels there may be from this one on; without any the depth is above
`kMaxCborDepth`. -/
def decodeOne : ℕ → Reader → Option CborValue × Reader
  | 0, r => (none, { r with calls := r.calls + 1 })
  | levels + 1, r =>
    match ({ r with calls := r.calls + 1
                    deepest := max r.deepest (kMaxCborDepth - levels) } : Reader).read with
    | (none, r) => (none, r)
    | (some initial, r) =>
      match readArgument (initial.toNat &&& 0x1F) r with
      | (none, r) => (none, r)
      | (some argument, r) => decodeMajor (decodeOne levels) initial argument r

/-- The reader at the start of some data. -/
def Reader.start (data : Bytes) : Reader := ⟨data, 0, false, 0, 0⟩

/-- What `DecodeOne` gives at the start, and where it leaves the reader. -/
def decodeStart (data : Bytes) : Option CborValue × Reader :=
  decodeOne (kMaxCborDepth + 1) (Reader.start data)

/-- `CborDecode`. -/
def cborDecode (data : Bytes) : Option CborValue :=
  match decodeStart data with
  | (none, _) => none
  | (some result, r) => if r.position ≠ r.data.length then none else some result

/-! ## What a call reads -/

variable {r r' r'' : Reader} {failed failed' n levels : ℕ}

/-- A reader that is inside of its data, which is of a size there may be. -/
structure Reader.InBounds (r : Reader) : Prop where
  position : r.position ≤ r.data.length
  length : r.data.length < 2 ^ 64

/-- **What a call may do to the reader**: it stays inside of the data, no byte outside is read, and
there is at most one call for a byte that was read and one that failed. -/
structure Reads (failed : ℕ) (r r' : Reader) : Prop where
  data : r'.data = r.data
  forward : r.position ≤ r'.position
  position : r'.position ≤ r.data.length
  outside : r'.outside = r.outside
  calls : r'.calls + r.position ≤ r.calls + r'.position + failed
  deepest : r'.deepest ≤ max r.deepest kMaxCborDepth

theorem Reads.refl (h : r.InBounds) : Reads 0 r r :=
  ⟨rfl, le_rfl, h.position, rfl, le_rfl, le_max_left _ _⟩

theorem Reads.inBounds (h : Reads failed r r') (hr : r.InBounds) : r'.InBounds :=
  ⟨h.data ▸ h.position, h.data ▸ hr.length⟩

theorem Reads.trans (h : Reads failed r r') (h' : Reads failed' r' r'') :
    Reads (failed + failed') r r'' where
  data := h'.data.trans h.data
  forward := h.forward.trans h'.forward
  position := h.data ▸ h'.position
  outside := h'.outside.trans h.outside
  calls := by
    have hc := h.calls
    have hc' := h'.calls
    omega
  deepest := h'.deepest.trans (max_le h.deepest (le_max_right _ _))

theorem Reads.mono (h : Reads failed r r') (hle : failed ≤ failed') : Reads failed' r r' :=
  { h with calls := h.calls.trans (Nat.add_le_add_left hle _) }

theorem Reader.left_eq (h : r.InBounds) : r.left = r.data.length - r.position := by
  have hposition := h.position
  have hlength := h.length
  rw [Reader.left]
  omega

theorem Reader.next_eq {b : UInt8} (h : r.data[r.position]? = some b) :
    r.next = (b, { r with position := r.position + 1 }) := by
  rw [Reader.next, h]

/-- **The bytes of a number, read one after the other.** -/
theorem Reader.readBigLoop_eq {count k out : ℕ} (h : r.position + count ≤ r.data.length)
    (hout : out < 256 ^ k) (hk : k + count ≤ 8) :
    r.readBigLoop count out = (((r.data.drop r.position).take count).foldl
      (fun value byte => value <<< 8 ||| byte.toNat) out,
      { r with position := r.position + count }) := by
  induction count generalizing r k out with
  | zero => rw [Reader.readBigLoop, List.take_zero, List.foldl_nil, Nat.add_zero]
  | succ count ih =>
    have hlt : r.position < r.data.length := by omega
    have hnext := Reader.next_eq (List.getElem?_eq_getElem hlt)
    have hb : r.data[r.position].toNat < 2 ^ 8 := r.data[r.position].toNat_lt
    have hvalue : out <<< 8 ||| r.data[r.position].toNat = 256 * out + r.data[r.position].toNat := by
      rw [← Nat.shiftLeft_add_eq_or_of_lt hb, Nat.shiftLeft_eq, Nat.mul_comm]
    have hfits : out <<< 8 ||| r.data[r.position].toNat < 256 ^ (k + 1) := by
      rw [hvalue, pow_succ]
      omega
    have hpow : 256 ^ (k + 1) ≤ 2 ^ 64 :=
      (Nat.pow_le_pow_right (by decide) (show k + 1 ≤ 8 by omega)).trans (by decide)
    rw [Reader.readBigLoop, hnext]
    dsimp only
    rw [Nat.mod_eq_of_lt (hfits.trans_le hpow), ih (by dsimp only; omega) hfits (by omega),
      List.drop_eq_getElem_cons hlt, List.take_succ_cons, List.foldl_cons]
    dsimp only
    rw [Nat.add_assoc, Nat.add_comm 1 count]

/-- **A number of at most eight bytes**, when they are there. -/
theorem Reader.readBig_eq {count : ℕ} (hr : r.InBounds) (hcount : count ≤ 8) :
    r.readBig count = if r.data.length < r.position + count then (none, r)
      else (some (ofBigEndian ((r.data.drop r.position).take count)),
        { r with position := r.position + count }) := by
  have hposition := hr.position
  rw [Reader.readBig, Reader.left_eq hr]
  by_cases hshort : r.data.length < r.position + count
  · rw [if_pos hshort, if_pos (by omega)]
  · rw [if_neg hshort, if_neg (by omega),
      Reader.readBigLoop_eq (k := 0) (Nat.le_of_not_lt hshort) Nat.one_pos (by omega)]
    rfl

theorem Reads.skip {count : ℕ} (h : ¬r.data.length < r.position + count) :
    Reads 0 r { r with position := r.position + count } where
  data := rfl
  forward := Nat.le_add_right _ _
  position := Nat.le_of_not_lt h
  outside := rfl
  calls := by
    dsimp only
    omega
  deepest := le_max_left _ _

theorem reads_readBig (hr : r.InBounds) {count : ℕ} (hcount : count ≤ 8) :
    Reads 0 r (r.readBig count).2 := by
  rw [Reader.readBig_eq hr hcount]
  split_ifs with hshort
  · exact Reads.refl hr
  · exact Reads.skip hshort

theorem reads_readArgument (hr : r.InBounds) (additional : ℕ) :
    Reads 0 r (readArgument additional r).2 := by
  unfold readArgument
  split_ifs
  · exact Reads.refl hr
  · exact reads_readBig hr (by decide)
  · exact reads_readBig hr (by decide)
  · exact reads_readBig hr (by decide)
  · exact reads_readBig hr (by decide)
  · exact Reads.refl hr

/-- A call that gives nothing may be one more than there are bytes. -/
def failures {α : Type*} (out : Option α) : ℕ := if out.isSome then 0 else 1

/-- **What decoding one value reads**, wherever the reader is. -/
def DecodesInside (decodeOne : Reader → Option CborValue × Reader) : Prop :=
  ∀ r : Reader, r.InBounds → Reads (failures (decodeOne r).1) r (decodeOne r).2

variable {one : Reader → Option CborValue × Reader}

theorem reads_decodeItems (hone : DecodesInside one) (hr : r.InBounds) (count : ℕ) :
    Reads (failures (decodeItems one count r).1) r (decodeItems one count r).2 := by
  induction count generalizing r with
  | zero => exact Reads.refl hr
  | succ count ih =>
    have hfirst := hone r hr
    rw [decodeItems]
    rcases hresult : one r with ⟨_ | entry, r₁⟩
    · rw [hresult] at hfirst
      exact hfirst
    · rw [hresult] at hfirst
      have hrest := ih (hfirst.inBounds hr)
      rcases hitems : decodeItems one count r₁ with ⟨_ | entries, r₂⟩
      · rw [hitems] at hrest
        simp only [hitems]
        exact hfirst.trans hrest
      · rw [hitems] at hrest
        simp only [hitems]
        exact hfirst.trans hrest

theorem reads_decodeEntries (hone : DecodesInside one) (hr : r.InBounds) (count : ℕ) :
    Reads (failures (decodeEntries one count r).1) r (decodeEntries one count r).2 := by
  induction count generalizing r with
  | zero => exact Reads.refl hr
  | succ count ih =>
    have hkey := hone r hr
    rw [decodeEntries]
    rcases hresult : one r with ⟨_ | key, r₁⟩
    · rw [hresult] at hkey
      exact hkey
    · rw [hresult] at hkey
      have hentry := hone r₁ (hkey.inBounds hr)
      rcases hvalue : one r₁ with ⟨_ | entry, r₂⟩
      · rw [hvalue] at hentry
        simp only [hvalue]
        exact hkey.trans hentry
      · rw [hvalue] at hentry
        have hrest := ih (hentry.inBounds (hkey.inBounds hr))
        rcases hentries : decodeEntries one count r₂ with ⟨_ | entries, r₃⟩
        · rw [hentries] at hrest
          simp only [hvalue, hentries]
          exact hkey.trans (hentry.trans hrest)
        · rw [hentries] at hrest
          simp only [hvalue, hentries]
          exact hkey.trans (hentry.trans hrest)

theorem failures_map {α β : Type*} (out : Option α) (f : α → β) :
    failures (out.map f) = failures out := by
  cases out <;> rfl

theorem reads_decodeMajor (hone : DecodesInside one) (hr : r.InBounds) (initial : UInt8)
    (argument : ℕ) : Reads (failures (decodeMajor one initial argument r).1) r
      (decodeMajor one initial argument r).2 := by
  have hstay : ∀ out : Option CborValue, Reads (failures out) r r := fun out =>
    (Reads.refl hr).mono (Nat.zero_le _)
  have htake : ¬r.left < argument → Reads 0 r (r.take argument).2 := fun hleft => by
    rw [Reader.left_eq hr] at hleft
    have hposition := hr.position
    have hinside : ¬r.data.length < r.position + argument := by omega
    rw [Reader.take, decide_eq_false hinside, Bool.or_false]
    exact Reads.skip hinside
  unfold decodeMajor
  split
  · exact hstay _
  · exact hstay _
  · split_ifs with hleft
    · exact hstay none
    · exact htake hleft
  · split_ifs with hleft
    · exact hstay none
    · exact htake hleft
  · rw [failures_map]
    exact reads_decodeItems hone hr argument
  · rw [failures_map]
    exact reads_decodeEntries hone hr argument
  · exact hstay _
  · exact hstay none

/-- The reader once a call was counted that the limit of the depth allows. -/
def called (levels : ℕ) (r : Reader) : Reader :=
  { r with calls := r.calls + 1, deepest := max r.deepest (kMaxCborDepth - levels) }

theorem decodeOne_succ (levels : ℕ) (r : Reader) : decodeOne (levels + 1) r =
    match (called levels r).read with
    | (none, r) => (none, r)
    | (some initial, r) =>
      match readArgument (initial.toNat &&& 0x1F) r with
      | (none, r) => (none, r)
      | (some argument, r) => decodeMajor (decodeOne levels) initial argument r := rfl

theorem Reader.read_eq : r.read = if h : r.position < r.data.length
    then (some r.data[r.position], { r with position := r.position + 1 }) else (none, r) := by
  rw [Reader.read]
  split_ifs with hle hlt hlt
  · exact absurd hlt (Nat.not_lt.mpr hle)
  · rfl
  · rw [Reader.next_eq (List.getElem?_eq_getElem hlt)]
  · exact absurd (Nat.le_of_not_lt hlt) hle

/-- **Every call reads inside of the data**, by induction on the levels there may be. -/
theorem reads_decodeOne (levels : ℕ) : DecodesInside (decodeOne levels) := by
  have hdeep : ∀ (r : Reader) n, max r.deepest (kMaxCborDepth - n) ≤ max r.deepest kMaxCborDepth :=
    fun r n => max_le_max le_rfl (Nat.sub_le _ _)
  induction levels with
  | zero =>
    intro r hr
    refine ⟨rfl, le_rfl, hr.position, rfl, ?_, le_max_left _ _⟩
    change r.calls + 1 + r.position ≤ r.calls + r.position + 1
    omega
  | succ levels ih =>
    intro r hr
    rw [decodeOne_succ, Reader.read_eq]
    split_ifs with hlt
    · have hread : Reads 0 r { called levels r with position := r.position + 1 } := by
        refine ⟨rfl, Nat.le_succ _, hlt, rfl, ?_, hdeep r levels⟩
        change r.calls + 1 + r.position ≤ r.calls + (r.position + 1) + 0
        omega
      have hargument := reads_readArgument (hread.inBounds hr)
        ((called levels r).data[(called levels r).position].toNat &&& 0x1F)
      rcases hout : readArgument
        ((called levels r).data[(called levels r).position].toNat &&& 0x1F)
        { called levels r with position := r.position + 1 } with ⟨_ | argument, r₂⟩
      all_goals
        rw [hout] at hargument
        have hposition : (called levels r).position = r.position := rfl
        simp only [hposition] at hout ⊢
        simp only [hout]
      · exact (hread.trans hargument).mono (Nat.zero_le _)
      · refine ((hread.trans hargument).trans (reads_decodeMajor ih
          ((hread.trans hargument).inBounds hr) _ _)).mono ?_
        rw [Nat.add_zero, Nat.zero_add]
    · refine ⟨rfl, le_rfl, hr.position, rfl, ?_, hdeep r levels⟩
      change r.calls + 1 + r.position ≤ r.calls + r.position + 1
      omega

end Yunogram.Webauthn
