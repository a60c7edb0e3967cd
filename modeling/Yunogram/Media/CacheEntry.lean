import Mathlib
import Yunogram.Machinery.FlatMap
import Yunogram.Machinery.LittleEndian

/-!
# Media/CacheEntry — the parts of a streamed file as one entry of the cache

A file is read in parts of `kPartSize`, and the parts of one slice of it are one entry of the cache.
An entry that has the parts from the start of the slice on without a gap is their bytes one after the
other; any other has the number of parts and each with its offset and size.  What is read back is
taken for the first kind by its size alone, so an entry of the second kind is padded until its size
cannot be one of the first.

Two results: `parseCachedMap_contiguous` and `parseCachedMap_complex`, that each kind is read back.
-/

namespace Yunogram.Media.Streaming

open Machinery

/-- The bytes of a part. -/
abbrev Bytes := List UInt8

/-- `kPartSize`. -/
def kPartSize : ℕ := 128 * 1024

/-- `kPartsInSlice`. -/
def kPartsInSlice : ℕ := 64

/-- `kInSlice`. -/
def kInSlice : ℕ := kPartsInSlice * kPartSize

/-- `kMaxPartsInHeader`. -/
def kMaxPartsInHeader : ℕ := 64

/-- `kMaxOnlyInHeader`. -/
def kMaxOnlyInHeader : ℕ := 80 * kPartSize

/-- `kPartsOutsideFirstSliceGood`. -/
def kPartsOutsideFirstSliceGood : ℕ := 8

/-- `PartsMap`: parts by their offsets in the slice. -/
abbrev PartsMap := FlatMap ℕ Bytes

/-- `ParsedCacheEntry`. -/
structure ParsedCacheEntry where
  parts : PartsMap
  included : Option PartsMap
  deriving DecidableEq

/-- A 32 bit number, or a length, as an `int`. -/
def toInt (n : ℕ) : ℤ := Int.bmod n (2 ^ 32)

/-! ## Sizes -/

/-- `IsContiguousSerialization`. -/
def isContiguousSerialization (serializedSize maxSliceSize : ℤ) : Bool :=
  serializedSize % kPartSize = 0 || serializedSize = maxSliceSize

/-- `IsFullInHeader`. -/
def isFullInHeader (size : ℕ) : Bool := size ≤ kMaxOnlyInHeader

/-- `ComputeIsGoodHeader`. -/
def computeIsGoodHeader (size : ℕ) (header : PartsMap) : Bool :=
  if isFullInHeader size then false
  else (header.keys.filter (kInSlice ≤ ·)).length ≤ kPartsOutsideFirstSliceGood

/-- `SlicesCount`, in 32 bit numbers; it ensures that there are less than 0x1FF. -/
def slicesCount (size : ℕ) : ℕ := (size + kInSlice - 1) % 2 ^ 32 / kInSlice

/-- `MaxSliceSize`, before it is taken for an `int`. -/
def maxSliceSize (sliceNumber size : ℕ) : ℕ :=
  if sliceNumber = 0 then size
  else if sliceNumber = slicesCount size then size - (sliceNumber - 1) * kInSlice
  else kInSlice

/-! ## Reading -/

/-- `takeInt`. -/
def takeInt (data : Bytes) : Option ℕ × Bytes :=
  if data.length < 4 then (none, data) else (some (ofLittleEndian (data.take 4)), data.drop 4)

/-- `takeBytes`, of a count that was read as a 32 bit number. -/
def takeBytes (data : Bytes) (count : ℕ) : Bytes × Bytes :=
  if toInt count ≤ 0 ∨ data.length < count then ([], data) else (data.take count, data.drop count)

/-- The loop of `ParseComplexCachedMap`. -/
def parseParts (maxSize : ℕ) : ℕ → PartsMap → Bytes → PartsMap × Bytes
  | 0, result, data => (result, data)
  | count + 1, result, data =>
    let offset := (takeInt data).1.getD 0
    let data := (takeInt data).2
    let size := (takeInt data).1.getD 0
    let data := (takeInt data).2
    let bytes := (takeBytes data size).1
    let data := (takeBytes data size).2
    if maxSize ≤ offset ∨ size = 0 ∨ maxSize < size ∨ maxSize < (offset + size) % 2 ^ 32 ∨
        bytes.length ≠ size then (result, [])
    else parseParts maxSize count (result.emplace offset bytes) data

/-- `ParseComplexCachedMap`: the parts, and what is left of the data. -/
def parseComplexCachedMap (data : Bytes) (maxSize : ℕ) : PartsMap × Bytes :=
  match takeInt data with
  | (none, _) => (.empty, [])
  | (some count, data) =>
    if count = 0 ∨ kMaxOnlyInHeader / kPartSize < count then (.empty, data)
    else parseParts maxSize count .empty data

/-- The loop of `ParseCachedMap`: the data cut into parts. -/
def contiguousParts (result : PartsMap) (offset : ℕ) (data : Bytes) : PartsMap :=
  if _h : data = [] then result
  else contiguousParts (result.emplace offset (data.take kPartSize)) (offset + kPartSize)
    (data.drop kPartSize)
termination_by data.length
decreasing_by
  have hpos := List.length_pos_of_ne_nil _h
  have hpart : 0 < kPartSize := by decide
  rw [List.length_drop]
  omega

/-- `ParseCachedMap`. -/
def parseCachedMap (data : Bytes) (maxSize : ℕ) : PartsMap × Bytes :=
  let size := toInt data.length
  if isContiguousSerialization size (toInt maxSize) then
    if toInt maxSize < size then (.empty, [])
    else (contiguousParts .empty 0 (data.take size.toNat), [])
  else parseComplexCachedMap data maxSize

/-- `ParseCacheEntry`. -/
def parseCacheEntry (data : Bytes) (sliceNumber size : ℕ) : ParsedCacheEntry :=
  let parsed := parseCachedMap data (maxSliceSize sliceNumber size)
  if sliceNumber = 0 ∧ computeIsGoodHeader size parsed.1 then
    ⟨parsed.1, some (parseCachedMap parsed.2 (maxSliceSize 1 size)).1⟩
  else ⟨parsed.1, none⟩

/-! ## Writing -/

/-- `FindNotLoadedStart`. -/
def findNotLoadedStart : List (ℕ × Bytes) → ℕ → ℕ
  | [], result => result
  | part :: parts, result =>
    if part.1 ≤ result ∧ result ≤ part.1 + part.2.length then
      findNotLoadedStart parts (part.1 + part.2.length)
    else result

/-- `SerializeComplexPartsMap`. -/
def serializeComplexPartsMap (parts : PartsMap) : Bytes :=
  littleEndian 4 parts.size ++ parts.entries.flatMap fun part =>
    littleEndian 4 part.1 ++ littleEndian 4 part.2.length ++ part.2

/-- The loop that makes sure that data is not taken for contiguous: zeros are added while it is. -/
def padded (maxSize : ℤ) : ℕ → Bytes → Bytes
  | 0, data => data
  | rounds + 1, data =>
    if isContiguousSerialization (toInt data.length) maxSize then padded maxSize rounds (data ++ [0])
    else data

/-! ## Parts of a slice -/

/-- **The parts of a slice**: at multiples of `kPartSize` inside it, each as long as a part is there. -/
structure WellFormed (sliceSize : ℕ) (parts : PartsMap) : Prop where
  offset : ∀ part ∈ parts.entries, kPartSize ∣ part.1 ∧ part.1 < sliceSize
  length : ∀ part ∈ parts.entries, part.2.length = min kPartSize (sliceSize - part.1)

variable {parts result : PartsMap} {entries : List (ℕ × Bytes)} {data tail : Bytes}
  {sliceSize n offset : ℕ}

theorem toInt_eq (h : n < 2 ^ 31) : toInt n = n := by
  unfold toInt
  exact Int.bmod_eq_of_le (by omega) (by omega)

/-- A part ends inside its slice, and is not empty. -/
theorem WellFormed.bounds (h : WellFormed sliceSize parts) {part : ℕ × Bytes}
    (hpart : part ∈ parts.entries) : 0 < part.2.length ∧ part.2.length ≤ kPartSize ∧
      part.1 + part.2.length ≤ sliceSize := by
  obtain ⟨-, hlt⟩ := h.offset part hpart
  have hlength := h.length part hpart
  have hsize : 0 < kPartSize := by decide
  omega

/-- **Parts added in their order make the map they are of.** -/
theorem foldl_emplace_entries (parts : PartsMap) :
    parts.entries.foldl (fun result part => result.emplace part.1 part.2) .empty = parts := by
  have hfold : ∀ (l : List (ℕ × Bytes)) (m : PartsMap), (l.map Prod.fst).Nodup →
      (∀ part ∈ l, m.find? part.1 = none) → ∀ part,
      part ∈ (l.foldl (fun result part => result.emplace part.1 part.2) m).entries
        ↔ part ∈ m.entries ∨ part ∈ l := by
    intro l
    induction l with
    | nil => simp
    | cons a l ih =>
      intro m hnodup hnone part
      obtain ⟨ha, hnodup⟩ := List.nodup_cons.mp hnodup
      have hanone := hnone a List.mem_cons_self
      have hrest : ∀ b ∈ l, (m.emplace a.1 a.2).find? b.1 = none := fun b hb => by
        have hne : b.1 ≠ a.1 := fun heq => ha (heq ▸ List.mem_map_of_mem hb)
        rw [FlatMap.find?_emplace_of_none hanone, if_neg hne]
        exact hnone b (List.mem_cons_of_mem _ hb)
      rw [List.foldl_cons, ih (m.emplace a.1 a.2) hnodup hrest,
        (FlatMap.perm_emplace hanone a.2).mem_iff, List.mem_cons, List.mem_cons]
      tauto
  refine FlatMap.ext (FlatMap.eq_of_mem_iff (FlatMap.sorted _) parts.sorted fun part => ?_)
  rw [hfold parts.entries .empty (FlatMap.nodup_keys parts) fun _ _ => FlatMap.find?_empty _]
  simp [FlatMap.empty]

/-! ## Parts with their offsets -/

@[simp] theorem takeInt_littleEndian (h : n < 2 ^ 32) (data : Bytes) :
    takeInt (littleEndian 4 n ++ data) = (some n, data) := by
  have hlength : (littleEndian 4 n).length = 4 := length_littleEndian 4 n
  rw [takeInt, if_neg (by rw [List.length_append, hlength]; omega), List.take_left' hlength,
    List.drop_left' hlength, ofLittleEndian_littleEndian (by omega)]

theorem takeBytes_append {bytes : Bytes} (hpos : 0 < bytes.length) (h : bytes.length < 2 ^ 31)
    (data : Bytes) : takeBytes (bytes ++ data) bytes.length = (bytes, data) := by
  have hcount : ¬(toInt bytes.length ≤ 0 ∨ (bytes ++ data).length < bytes.length) := by
    rw [toInt_eq h, List.length_append]
    omega
  rw [takeBytes, if_neg hcount, List.take_left, List.drop_left]

/-- **The parts after the number of them are read back**, and what follows them is left. -/
theorem parseParts_flatMap {maxSize : ℕ} (hmax : maxSize < 2 ^ 32) (tail : Bytes)
    (hentries : ∀ part ∈ entries, 0 < part.2.length ∧ part.2.length ≤ kPartSize ∧
      part.1 + part.2.length ≤ maxSize) (result : PartsMap) :
    parseParts maxSize entries.length result ((entries.flatMap fun part =>
        littleEndian 4 part.1 ++ littleEndian 4 part.2.length ++ part.2) ++ tail)
      = (entries.foldl (fun result part => result.emplace part.1 part.2) result, tail) := by
  induction entries generalizing result with
  | nil => rfl
  | cons part entries ih =>
    obtain ⟨hpos, hpart, hend⟩ := hentries part List.mem_cons_self
    have hsmall : kPartSize < 2 ^ 31 := by decide
    have hsum : (part.1 + part.2.length) % 2 ^ 32 = part.1 + part.2.length :=
      Nat.mod_eq_of_lt (by omega)
    have hgood : ¬(maxSize ≤ part.1 ∨ part.2.length = 0 ∨ maxSize < part.2.length ∨
        maxSize < part.1 + part.2.length ∨ part.2.length ≠ part.2.length) := by omega
    simp only [List.length_cons, List.flatMap_cons, List.append_assoc, parseParts,
      takeInt_littleEndian (show part.1 < 2 ^ 32 by omega),
      takeInt_littleEndian (show part.2.length < 2 ^ 32 by omega), Option.getD_some,
      takeBytes_append hpos (by omega), hsum, if_neg hgood, List.foldl_cons]
    exact ih (fun b hb => hentries b (List.mem_cons_of_mem _ hb)) _

/-- **What is written with offsets is read back**, and what follows it is left. -/
theorem parseComplexCachedMap_serialize (hslice : sliceSize < 2 ^ 32)
    (h : WellFormed sliceSize parts) (hsize : parts.size ≤ kMaxOnlyInHeader / kPartSize)
    (tail : Bytes) :
    parseComplexCachedMap (serializeComplexPartsMap parts ++ tail) sliceSize = (parts, tail) := by
  have hmany : kMaxOnlyInHeader / kPartSize < 2 ^ 32 := by decide
  rw [parseComplexCachedMap, serializeComplexPartsMap, List.append_assoc,
    takeInt_littleEndian (by omega)]
  dsimp only
  split_ifs with hcount
  · have hnone : parts.entries = [] := List.eq_nil_of_length_eq_zero (by
      rcases hcount with hzero | hlarge
      · exact hzero
      · omega)
    rw [hnone, List.flatMap_nil, List.nil_append]
    exact congrArg (·, tail) (FlatMap.ext hnone).symm
  · rw [FlatMap.size, parseParts_flatMap hslice tail fun part hpart => h.bounds hpart,
      foldl_emplace_entries]

/-- No two parts are the same one of the slice. -/
theorem WellFormed.nodup_indices (h : WellFormed sliceSize parts) :
    (parts.keys.map (· / kPartSize)).Nodup := by
  refine List.Nodup.map_on (fun a ha b hb heq => ?_) parts.nodup_keys
  obtain ⟨v, hv⟩ := FlatMap.mem_keys.mp ha
  obtain ⟨w, hw⟩ := FlatMap.mem_keys.mp hb
  exact (Nat.div_left_inj (h.offset _ (FlatMap.find?_eq_some.mp hv)).1
    (h.offset _ (FlatMap.find?_eq_some.mp hw)).1).mp heq

theorem WellFormed.indices_subset {count : ℕ} (h : WellFormed sliceSize parts)
    (hcount : sliceSize ≤ count * kPartSize) :
    parts.keys.map (· / kPartSize) ⊆ List.range count := fun i hi => by
  obtain ⟨k, hk, rfl⟩ := List.mem_map.mp hi
  obtain ⟨v, hv⟩ := FlatMap.mem_keys.mp hk
  have hlt := (h.offset _ (FlatMap.find?_eq_some.mp hv)).2
  exact List.mem_range.mpr ((Nat.div_lt_iff_lt_mul (by decide)).mpr (hlt.trans_le hcount))

theorem length_indices (parts : PartsMap) :
    (parts.keys.map (· / kPartSize)).length = parts.size := by
  rw [List.length_map, FlatMap.keys, List.length_map, FlatMap.size]

/-- As many parts as fit in the slice. -/
theorem WellFormed.size_le {count : ℕ} (h : WellFormed sliceSize parts)
    (hcount : sliceSize ≤ count * kPartSize) : parts.size ≤ count := by
  have hlength := (List.subperm_of_subset h.nodup_indices (h.indices_subset hcount)).length_le
  rwa [length_indices, List.length_range] at hlength

/-! ## Parts without a gap -/

/-- **The parts from an offset on, without a gap**: only the last one may be shorter than a part. -/
def Consecutive : ℕ → List (ℕ × Bytes) → Prop
  | _, [] => True
  | offset, part :: entries =>
    part.1 = offset ∧ 0 < part.2.length ∧ part.2.length ≤ kPartSize ∧
      (entries ≠ [] → part.2.length = kPartSize) ∧ Consecutive (offset + kPartSize) entries

/-- **Data of parts without a gap is cut into them.** -/
theorem contiguousParts_flatMap (h : Consecutive offset entries) (result : PartsMap) :
    contiguousParts result offset (entries.flatMap Prod.snd)
      = entries.foldl (fun result part => result.emplace part.1 part.2) result := by
  induction entries generalizing offset result with
  | nil =>
    rw [contiguousParts]
    rfl
  | cons part entries ih =>
    obtain ⟨rfl, hpos, hle, hfull, hrest⟩ := h
    have hne : part.2 ++ entries.flatMap Prod.snd ≠ [] := fun hnil => by
      rw [(List.append_eq_nil_iff.mp hnil).1] at hpos
      exact absurd hpos (Nat.lt_irrefl 0)
    have hcut : (part.2 ++ entries.flatMap Prod.snd).take kPartSize = part.2 ∧
        (part.2 ++ entries.flatMap Prod.snd).drop kPartSize = entries.flatMap Prod.snd := by
      rcases entries.eq_nil_or_concat with rfl | ⟨_, _, rfl⟩
      · rw [List.flatMap_nil, List.append_nil]
        exact ⟨List.take_of_length_le hle, List.drop_of_length_le hle⟩
      · exact ⟨List.take_left' (hfull (by simp)), List.drop_left' (hfull (by simp))⟩
    rw [List.flatMap_cons, contiguousParts, dif_neg hne, hcut.1, hcut.2, ih hrest, List.foldl_cons]

/-- Parts without a gap end where the last of them does. -/
theorem Consecutive.length (h : Consecutive offset entries) (last : ℕ × Bytes)
    (hlast : last ∈ entries.getLast?) :
    offset + (entries.flatMap Prod.snd).length = last.1 + last.2.length := by
  induction entries generalizing offset with
  | nil => exact absurd hlast (by simp)
  | cons part entries ih =>
    obtain ⟨rfl, -, -, hfull, hrest⟩ := h
    rcases entries.eq_nil_or_concat with rfl | ⟨init, b, rfl⟩
    · obtain rfl : part = last := by simpa using hlast
      simp
    · have hnext := ih hrest (by simpa [List.getLast?_cons] using hlast)
      rw [List.flatMap_cons, List.length_append, hfull (by simp)]
      omega

/-- Parts without a gap start one part after the other. -/
theorem Consecutive.lt {entries : List (ℕ × Bytes)} (h : Consecutive offset entries) :
    ∀ part ∈ entries, part.1 < offset + entries.length * kPartSize := by
  induction entries generalizing offset with
  | nil => exact fun part hpart => absurd hpart List.not_mem_nil
  | cons a entries ih =>
    obtain ⟨rfl, -, -, -, hrest⟩ := h
    have hsize : 0 < kPartSize := by decide
    intro part hpart
    rw [List.length_cons, Nat.succ_mul]
    rcases List.mem_cons.mp hpart with rfl | hpart
    · omega
    · have hlt := ih hrest part hpart
      omega

/-- **What is loaded from the start on has no gap**, when that is more than where the last part
starts. -/
theorem consecutive_of_findNotLoadedStart (hsorted : entries.Pairwise fun a b => a.1 < b.1)
    (hpart : ∀ part ∈ entries, kPartSize ∣ part.1 ∧ part.1 < sliceSize ∧
      part.2.length = min kPartSize (sliceSize - part.1))
    (hoffset : kPartSize ∣ offset) (hle : ∀ part ∈ entries, offset ≤ part.1)
    (hlast : ∀ last ∈ entries.getLast?, last.1 < findNotLoadedStart entries offset) :
    Consecutive offset entries := by
  have hsize : 0 < kPartSize := by decide
  induction entries generalizing offset with
  | nil => exact trivial
  | cons a entries ih =>
    obtain ⟨ha, hsorted⟩ := List.pairwise_cons.mp hsorted
    obtain ⟨hadvd, halt, halength⟩ := hpart a List.mem_cons_self
    have hoa := hle a List.mem_cons_self
    -- The next part starts a whole part after this one, and so this one is a whole part.
    have hnext : ∀ b ∈ entries, a.1 + kPartSize ≤ b.1 := fun b hb => by
      obtain ⟨i, hi⟩ := hadvd
      obtain ⟨j, hj⟩ := (hpart b (List.mem_cons_of_mem _ hb)).1
      have hlt := ha b hb
      rw [hi, hj] at hlt ⊢
      have hij : i + 1 ≤ j := Nat.lt_of_mul_lt_mul_left hlt
      calc kPartSize * i + kPartSize = kPartSize * (i + 1) := by ring
        _ ≤ kPartSize * j := Nat.mul_le_mul_left _ hij
    have hfull : entries ≠ [] → a.2.length = kPartSize := fun hne => by
      obtain ⟨b, hb⟩ := List.exists_mem_of_ne_nil _ hne
      have hb' := hnext b hb
      have hblt := (hpart b (List.mem_cons_of_mem _ hb)).2.1
      omega
    by_cases hstart : a.1 ≤ offset ∧ offset ≤ a.1 + a.2.length
    · obtain rfl : a.1 = offset := Nat.le_antisymm hstart.1 hoa
      refine ⟨rfl, by omega, by omega, hfull, ?_⟩
      rcases entries.eq_nil_or_concat with rfl | ⟨init, c, rfl⟩
      · exact trivial
      · refine ih hsorted (fun b hb => hpart b (List.mem_cons_of_mem _ hb))
          (Nat.dvd_add hadvd (Nat.dvd_refl _)) hnext fun last hmem => ?_
        have hfound := hlast last (by simpa [List.getLast?_cons] using hmem)
        rwa [findNotLoadedStart, if_pos hstart, hfull (by simp)] at hfound
    · exfalso
      obtain ⟨last, hmem⟩ : ∃ last, last ∈ (a :: entries).getLast? :=
        ⟨_, List.getLast?_eq_some_getLast (by simp)⟩
      have hfound := hlast last hmem
      rw [findNotLoadedStart, if_neg hstart] at hfound
      exact absurd (hle last (List.mem_of_getLast? hmem)) (Nat.not_le.mpr hfound)

/-- **Parts without a gap are read back from their bytes alone**: those are whole parts, or the whole
slice. -/
theorem parseCachedMap_contiguous (hslice : sliceSize < 2 ^ 31) (h : WellFormed sliceSize parts)
    (hne : parts.entries ≠ [])
    (hlast : ∀ last ∈ parts.entries.getLast?, last.1 < findNotLoadedStart parts.entries 0) :
    parseCachedMap (parts.entries.flatMap Prod.snd) sliceSize = (parts, []) := by
  have hconsecutive := consecutive_of_findNotLoadedStart parts.sorted
    (fun part hpart => ⟨(h.offset part hpart).1, (h.offset part hpart).2, h.length part hpart⟩)
    (Nat.dvd_zero _) (fun _ _ => Nat.zero_le _) hlast
  obtain ⟨last, hmem⟩ : ∃ last, last ∈ parts.entries.getLast? :=
    ⟨_, List.getLast?_eq_some_getLast hne⟩
  have hpart := List.mem_of_getLast? hmem
  obtain ⟨hdvd, hlt⟩ := h.offset last hpart
  have hlength := h.length last hpart
  have hdata := hconsecutive.length last hmem
  rw [Nat.zero_add] at hdata
  have hle : (parts.entries.flatMap Prod.snd).length ≤ sliceSize := by omega
  have hcontiguous : isContiguousSerialization
      (toInt (parts.entries.flatMap Prod.snd).length) (toInt sliceSize) = true := by
    rw [toInt_eq hslice, toInt_eq (by omega), isContiguousSerialization, Bool.or_eq_true,
      decide_eq_true_iff, decide_eq_true_iff, hdata]
    rcases Nat.le_total kPartSize (sliceSize - last.1) with hfull | hshort
    · rw [Nat.min_eq_left hfull] at hlength
      rw [hlength]
      exact Or.inl (by exact_mod_cast Nat.mod_eq_zero_of_dvd (Nat.dvd_add hdvd (Nat.dvd_refl _)))
    · exact Or.inr (by omega)
  rw [parseCachedMap, if_pos hcontiguous, toInt_eq hslice, toInt_eq (by omega), if_neg (by omega),
    Int.toNat_natCast, List.take_length, contiguousParts_flatMap hconsecutive,
    foldl_emplace_entries]

/-! ## What is not taken for parts without a gap -/

theorem isContiguousSerialization_iff {size : ℕ} {maxSize : ℤ} :
    isContiguousSerialization size maxSize = true ↔ size % kPartSize = 0 ∨ (size : ℤ) = maxSize := by
  rw [isContiguousSerialization, Bool.or_eq_true, decide_eq_true_iff, decide_eq_true_iff]
  norm_cast

/-- **Two zeros are enough**: of three sizes one after another one is neither a multiple of
`kPartSize` nor the size of the slice. -/
theorem padded_eq (data : Bytes) (maxSize : ℤ) (h : data.length + 3 < 2 ^ 31) :
    ∃ zeros ≤ 2, padded maxSize 3 data = data ++ List.replicate zeros 0 ∧
      isContiguousSerialization (toInt (data ++ List.replicate zeros 0).length) maxSize = false := by
  have hlength : ∀ zeros ≤ 2, toInt (data ++ List.replicate zeros 0).length
      = ((data.length + zeros : ℕ) : ℤ) := fun zeros hzeros => by
    rw [List.length_append, List.length_replicate, toInt_eq (by omega)]
  have hzero := hlength 0 (by omega)
  have hone := hlength 1 (by omega)
  have htwo := hlength 2 (by omega)
  simp only [List.replicate_succ, List.replicate_zero, List.append_nil] at hzero hone htwo
  by_cases h0 : isContiguousSerialization (toInt data.length) maxSize = true
  · by_cases h1 : isContiguousSerialization (toInt (data ++ [0]).length) maxSize = true
    · have h2 : isContiguousSerialization (toInt (data ++ [0, 0]).length) maxSize = false := by
        have hpart : kPartSize = 131072 := rfl
        rw [hzero, isContiguousSerialization_iff, hpart] at h0
        rw [hone, isContiguousSerialization_iff, hpart] at h1
        rw [htwo, ← Bool.not_eq_true, isContiguousSerialization_iff, hpart]
        omega
      refine ⟨2, Nat.le_refl 2, ?_, h2⟩
      rw [padded, if_pos h0, padded, if_pos h1, padded, List.append_assoc, List.singleton_append,
        if_neg (Bool.not_eq_true _ ▸ h2)]
      rfl
    · refine ⟨1, by omega, ?_, Bool.not_eq_true _ ▸ h1⟩
      rw [padded, if_pos h0, padded, if_neg h1]
      rfl
  · refine ⟨0, by omega, ?_, ?_⟩
    · rw [padded, if_neg h0, List.replicate_zero, List.append_nil]
    · rw [List.replicate_zero, List.append_nil]
      exact Bool.not_eq_true _ ▸ h0

theorem length_serializeComplexPartsMap (parts : PartsMap) :
    (serializeComplexPartsMap parts).length
      = 4 + 8 * parts.size + (parts.entries.map fun part => part.2.length).sum := by
  have hflat : ∀ l : List (ℕ × Bytes), (l.flatMap fun part =>
      littleEndian 4 part.1 ++ littleEndian 4 part.2.length ++ part.2).length
        = 8 * l.length + (l.map fun part => part.2.length).sum := by
    intro l
    induction l with
    | nil => rfl
    | cons part l ih =>
      simp only [List.flatMap_cons, List.length_append, length_littleEndian, ih, List.map_cons,
        List.sum_cons, List.length_cons]
      omega
  rw [serializeComplexPartsMap, List.length_append, length_littleEndian, hflat, FlatMap.size]
  omega

/-- Parts take at most a part each. -/
theorem WellFormed.sum_length_le (h : WellFormed sliceSize parts) :
    (parts.entries.map fun part => part.2.length).sum ≤ parts.size * kPartSize := by
  refine (List.sum_le_card_nsmul _ kPartSize fun length hmem => ?_).trans ?_
  · obtain ⟨part, hpart, rfl⟩ := List.mem_map.mp hmem
    exact (h.bounds hpart).2.1
  · rw [List.length_map, smul_eq_mul, FlatMap.size]

/-- **The parts of a whole slice with their offsets are not taken for parts without a gap**: the
number of them and the offsets are less than a part. -/
theorem isContiguousSerialization_whole (h : WellFormed kInSlice parts) {zeros : ℕ}
    (hzeros : zeros ≤ 2) :
    isContiguousSerialization
      (toInt (serializeComplexPartsMap parts ++ List.replicate zeros 0).length)
      (toInt kInSlice) = false := by
  have hcount : parts.size ≤ kPartsInSlice := h.size_le (Nat.le_refl _)
  have hpart : kPartSize = 131072 := rfl
  have hslice : kInSlice = 8388608 := rfl
  have hmany : kPartsInSlice = 64 := rfl
  have hwhole : ∀ part ∈ parts.entries, part.2.length = kPartSize := fun part hmem => by
    obtain ⟨⟨i, hi⟩, hlt⟩ := h.offset part hmem
    rw [h.length part hmem]
    rw [hi, hpart, hslice] at hlt ⊢
    omega
  have hsum : (parts.entries.map fun part => part.2.length).sum = parts.size * 131072 := by
    rw [List.map_congr_left hwhole, hpart, List.map_const', List.sum_replicate, smul_eq_mul, FlatMap.size]
  have hlength : (serializeComplexPartsMap parts ++ List.replicate zeros 0).length
      = 4 + 8 * parts.size + parts.size * 131072 + zeros := by
    rw [List.length_append, length_serializeComplexPartsMap, hsum, List.length_replicate]
  rw [hlength, toInt_eq (by omega), toInt_eq (by omega), ← Bool.not_eq_true,
    isContiguousSerialization_iff, hpart]
  omega

/-- **What is written with offsets and padded is read back**, with what was written after it. -/
theorem parseCachedMap_complex (hslice : sliceSize < 2 ^ 32) (h : WellFormed sliceSize parts)
    (hsize : parts.size ≤ kMaxOnlyInHeader / kPartSize)
    (hcontiguous : isContiguousSerialization (toInt (serializeComplexPartsMap parts ++ tail).length)
      (toInt sliceSize) = false) :
    parseCachedMap (serializeComplexPartsMap parts ++ tail) sliceSize = (parts, tail) := by
  rw [parseCachedMap]
  simp only [hcontiguous, Bool.false_eq_true, if_false]
  exact parseComplexCachedMap_serialize hslice h hsize tail

end Yunogram.Media.Streaming
