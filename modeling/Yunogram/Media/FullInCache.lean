import Yunogram.Media.StreamingRuns

/-!
# Media/FullInCache — when the slices say that all of a file is in the cache

A flag of each slice says that it is full, and `_fullInCache` that all slices are.  The flag is set
when the last part of a slice comes, from the network or from the cache, and it stays when the slice
is unloaded; whether anything was put to the cache is not looked at.  When the streaming starts it
is also set for what has the whole size in the cache.

`Held` says that all of a slice is there, `Change` what a step may do to slices and flags, and
`FullOk` what the flags always say; what follows of one change is proved here.
-/

namespace Yunogram.Media.Streaming

open Machinery Slices

variable {size n k offset count : ℕ} {parts result : PartsMap} {bytes file : Bytes}
  {s s' : Slices} {loads : ℕ → Bytes → Prop} {slice slice' : Slice} {i : ℕ}

/-! ## The flags -/

/-- `Slice::Flag::FullInCache` of the header and of the slices, and `_fullInCache`. -/
structure Full where
  header : Bool
  data : List Bool
  fullInCache : Bool
  deriving DecidableEq

namespace Full

/-- What new slices say. -/
def new (s : Slices) : Full := ⟨false, s.data.map fun _ => false, false⟩

/-- The flag of the slice with a number; the one with number 0 is the header. -/
def flag (full : Full) (sliceNumber : ℕ) : Bool :=
  if sliceNumber = 0 then full.header else full.data.getD (sliceNumber - 1) false

/-- The flag of a slice becomes another. -/
def setFlag (full : Full) (sliceNumber : ℕ) (value : Bool) : Full :=
  if sliceNumber = 0 then { full with header := value }
  else { full with data := full.data.set (sliceNumber - 1) value }

/-- `Slices::checkFullInCache`. -/
def checkFullInCache (full : Full) (s : Slices) : Bool :=
  if isFullInHeader s.size then full.header else full.data.all id

/-- `partsCount`: how many parts a slice has. -/
def partsCount (s : Slices) (sliceNumber : ℕ) : ℕ :=
  if sliceNumber = 0 then (s.size + kPartSize - 1) / kPartSize
  else if sliceNumber < s.data.length then kPartsInSlice
  else (s.size - (sliceNumber - 1) * kInSlice + kPartSize - 1) / kPartSize

/-- `Slices::checkSliceFullLoaded`. -/
def checkSliceFullLoaded (full : Full) (s : Slices) (sliceNumber : ℕ) : Full :=
  if sliceNumber = 0 ∧ ¬isFullInHeader s.size then full
  else
    let loaded := ((sliceAt s sliceNumber).getD .empty).parts.size == partsCount s sliceNumber
    if full.flag sliceNumber && !loaded then
      { full.setFlag sliceNumber false with fullInCache := false }
    else if !full.flag sliceNumber && loaded then
      { full.setFlag sliceNumber true with
        fullInCache := (full.setFlag sliceNumber true).checkFullInCache s }
    else full

/-- `Slices::processCachedSizes`. -/
def processCachedSizes (full : Full) (s : Slices) (sizes : List ℕ) : Option Full :=
  if sizes.length ≠ s.data.length then none
  else
    let data := full.data.mapIdx fun i flag =>
      flag || sizes.getD i 0 ==
        if i + 1 < s.data.length then kInSlice else s.size - i * kInSlice
    some { full with data, fullInCache := data.count true == sizes.length }

/-- Whether what comes from the cache for a slice is awaited. -/
def awaits (s : Slices) (sliceNumber : ℕ) : Bool :=
  if sliceNumber = 0 ∧ s.isGoodHeader then s.data[0]?.any (·.loadingFromCache)
  else (sliceAt s sliceNumber).any (·.loadingFromCache)

/-- `Slices::processCacheResult`.  The slice is checked before the header is applied to the others;
this changes nothing of a header that has all of the file, and no other is checked. -/
def processCacheResult (full : Full) (s : Slices) (sliceNumber : ℕ) (result : PartsMap) :
    Option (Slices × Full) :=
  (s.processCacheResult sliceNumber result).map fun s' =>
    (s', if awaits s sliceNumber then full.checkSliceFullLoaded s' sliceNumber else full)

/-- `Slices::processPart`. -/
def processPart (full : Full) (s : Slices) (offset : ℕ) (bytes : Bytes) :
    Option (Slices × Full) :=
  (s.processPart offset bytes).map fun s' =>
    (s', full.checkSliceFullLoaded s' (if isFullInHeader s.size then 0 else offset / kInSlice + 1))

end Full

/-! ## A slice that is all held -/

/-- The slices of a file: the header when it has all of it, else all others. -/
def SliceOf (s : Slices) (n : ℕ) : Prop :=
  if isFullInHeader s.size then n = 0 else 1 ≤ n ∧ sliceStart n < s.size

/-- The slices that the flags are of. -/
def Flagged (s : Slices) (n : ℕ) : Prop :=
  if isFullInHeader s.size then n = 0 else 1 ≤ n ∧ n ≤ s.data.length

/-- The parts that are held of a slice. -/
def partsAt (s : Slices) (n : ℕ) : PartsMap := ((sliceAt s n).getD .empty).parts

/-- **All of a slice is held**: each of its bytes is, and it is the one of the file. -/
def Held (file : Bytes) (s : Slices) (n : ℕ) : Prop :=
  ∀ b < maxSliceSize n s.size, ∃ part ∈ (partsAt s n).entries,
    part.1 ≤ b ∧ b < part.1 + part.2.length ∧ part.2[b - part.1]? = file[sliceStart n + b]?

theorem Flagged.pos (h : Flagged s n) (hfull : isFullInHeader s.size = false) :
    1 ≤ n ∧ n ≤ s.data.length := by
  unfold Flagged at h
  rwa [if_neg (by simp [hfull])] at h

theorem Flagged.zero (h : Flagged s n) (hfull : isFullInHeader s.size = true) : n = 0 := by
  unfold Flagged at h
  rwa [if_pos hfull] at h

theorem Flagged.keeps (h : Flagged s n) (hsize : s'.size = s.size)
    (hlength : s'.data.length = s.data.length) : Flagged s' n := by
  unfold Flagged at h ⊢
  rwa [hsize, hlength]

/-- **The flags are of all slices**, when there are any. -/
theorem SliceOf.flagged (h : SliceOf s n) (hv : Valid loads s) (hslices : ∃ n, Flagged s n) :
    Flagged s n := by
  cases hfull : isFullInHeader s.size with
  | true =>
    rw [SliceOf, if_pos hfull] at h
    rwa [Flagged, if_pos hfull]
  | false =>
    obtain ⟨k, hk⟩ := hslices
    obtain ⟨hpos, hle⟩ := hk.pos hfull
    rw [SliceOf, if_neg (by simp [hfull])] at h
    rw [Flagged, if_neg (by simp [hfull])]
    refine ⟨h.1, ?_⟩
    have hstart := h.2
    have hlt := hv.size
    have hslice : kInSlice = 8388608 := rfl
    rw [hv.length, if_neg (by simp [hfull])] at hle ⊢
    unfold slicesCount at hle ⊢
    unfold sliceStart at hstart
    rw [hslice] at hstart hle ⊢
    omega

theorem Flagged.sliceOf (h : Flagged s n) (hv : Valid loads s) : SliceOf s n := by
  cases hfull : isFullInHeader s.size with
  | true =>
    rw [Flagged, if_pos hfull] at h
    rwa [SliceOf, if_pos hfull]
  | false =>
    obtain ⟨hpos, hle⟩ := h.pos hfull
    rw [hv.length, if_neg (by simp [hfull])] at hle
    rw [SliceOf, if_neg (by simp [hfull])]
    exact ⟨hpos, (maxSliceSize_eq hv.size hpos hle).1⟩

theorem Flagged.exists (h : Flagged s n) : ∃ slice, sliceAt s n = some slice := by
  cases hfull : isFullInHeader s.size with
  | true =>
    obtain rfl := h.zero hfull
    exact ⟨s.header, rfl⟩
  | false =>
    obtain ⟨hpos, hle⟩ := h.pos hfull
    obtain ⟨i, rfl⟩ := Nat.exists_eq_succ_of_ne_zero (Nat.pos_iff_ne_zero.mp hpos)
    exact ⟨s.data[i], by rw [sliceAt, if_neg (Nat.succ_ne_zero i), Nat.succ_sub_one,
      List.getElem?_eq_getElem hle]⟩

theorem partsAt_eq (h : sliceAt s n = some slice) : partsAt s n = slice.parts := by
  rw [partsAt, h, Option.getD_some]

/-- **A slice has as many parts as its size says.** -/
theorem Flagged.partsCount_eq (h : Flagged s n) (hv : Valid loads s) :
    Full.partsCount s n = (maxSliceSize n s.size + kPartSize - 1) / kPartSize := by
  cases hfull : isFullInHeader s.size with
  | true =>
    obtain rfl := h.zero hfull
    rw [Full.partsCount, maxSliceSize, if_pos rfl, if_pos rfl]
  | false =>
    obtain ⟨hpos, hle⟩ := h.pos hfull
    have hlength := hv.length
    rw [if_neg (by simp [hfull])] at hlength
    unfold Full.partsCount maxSliceSize
    rw [if_neg (Nat.pos_iff_ne_zero.mp hpos), if_neg (Nat.pos_iff_ne_zero.mp hpos), hlength]
    by_cases hlast : n = slicesCount s.size
    · rw [if_neg (by omega), if_pos hlast]
    · rw [if_pos (by omega), if_neg hlast]
      decide

theorem Flagged.size_pos (h : Flagged s n) (hv : Valid loads s) (hsize : 0 < s.size) :
    0 < maxSliceSize n s.size := by
  cases hfull : isFullInHeader s.size with
  | true =>
    obtain rfl := h.zero hfull
    exact hsize
  | false =>
    obtain ⟨hpos, hle⟩ := h.pos hfull
    have hlength := hv.length
    rw [if_neg (by simp [hfull])] at hlength
    obtain ⟨hlt, heq⟩ := maxSliceSize_eq hv.size hpos (hlength ▸ hle)
    have hslice : 0 < kInSlice := by decide
    omega

theorem Flagged.holds (h : Flagged s n) (hv : Valid loads s) :
    Holds s.size loads n (partsAt s n) := by
  obtain ⟨slice, hslice⟩ := h.exists
  rw [partsAt_eq hslice]
  exact (hv.sliceAt hslice).1

/-- **Parts that are as many as there can be are all of them.** -/
theorem WellFormed.size_eq_iff {sliceSize : ℕ} (h : WellFormed sliceSize parts) :
    parts.size = (sliceSize + kPartSize - 1) / kPartSize ↔
      ∀ b < sliceSize, ∃ part ∈ parts.entries, part.1 = b / kPartSize * kPartSize := by
  have hpart : kPartSize = 131072 := rfl
  have hcount : sliceSize ≤ (sliceSize + kPartSize - 1) / kPartSize * kPartSize := by
    rw [hpart]
    omega
  constructor
  · intro hsize b hb
    have hsub := List.subperm_of_subset h.nodup_indices (h.indices_subset hcount)
    have hperm := hsub.perm_of_length_le (by rw [length_indices, List.length_range, hsize])
    have hindex : b / kPartSize ∈ parts.keys.map (· / kPartSize) :=
      hperm.mem_iff.mpr (List.mem_range.mpr (by
        rw [hpart]
        omega))
    obtain ⟨offset, hoffset, heq⟩ := List.mem_map.mp hindex
    obtain ⟨bytes, hbytes⟩ := FlatMap.mem_keys.mp hoffset
    have hmem := FlatMap.find?_eq_some.mp hbytes
    refine ⟨_, hmem, ?_⟩
    rw [← heq]
    exact (Nat.div_mul_cancel (h.offset _ hmem).1).symm
  · intro hall
    refine Nat.le_antisymm (h.size_le hcount) ?_
    have hsubset : List.range ((sliceSize + kPartSize - 1) / kPartSize)
        ⊆ parts.keys.map (· / kPartSize) := fun k hk => by
      have hlt := List.mem_range.mp hk
      obtain ⟨part, hmem, heq⟩ := hall (k * kPartSize) (by
        rw [hpart] at hlt ⊢
        omega)
      have hfound := FlatMap.mem_keys.mpr ⟨part.2, FlatMap.find?_eq_some.mpr hmem⟩
      refine List.mem_map.mpr ⟨part.1, hfound, ?_⟩
      rw [heq, Nat.mul_div_cancel k (by decide), Nat.mul_div_cancel k (by decide)]
    have hlength := (List.subperm_of_subset List.nodup_range hsubset).length_le
    rwa [length_indices, List.length_range] at hlength

/-- **A slice is all held when it has as many parts as its size says.** -/
theorem Flagged.held_iff (h : Flagged s n) (hv : Valid (fileLoads file) s) :
    Held file s n ↔ (partsAt s n).size = Full.partsCount s n := by
  have hholds := h.holds hv
  have hpart : kPartSize = 131072 := rfl
  rw [h.partsCount_eq hv, hholds.wellFormed.size_eq_iff]
  refine forall₂_congr fun b hb => ⟨?_, ?_⟩
  · rintro ⟨part, hmem, hle, hlt, -⟩
    obtain ⟨⟨k, hk⟩, -, hlength, -⟩ := hholds part hmem
    refine ⟨part, hmem, ?_⟩
    rw [hpart] at hk hlength ⊢
    omega
  · rintro ⟨part, hmem, heq⟩
    obtain ⟨-, hstart, hlength, hloads⟩ := hholds part hmem
    have hmod := Nat.mod_eq_sub_div_mul (x := b) (k := kPartSize)
    have hlt := Nat.mod_lt b (show 0 < kPartSize by decide)
    rw [hmod, ← heq] at hlt
    have hle : part.1 ≤ b := heq ▸ Nat.div_mul_le_self b kPartSize
    refine ⟨part, hmem, hle, by omega, ?_⟩
    rw [show part.2 = _ from hloads, List.getElem?_take_of_lt hlt, List.getElem?_drop]
    exact congrArg (file[·]?) (by omega)

/-! ## The flags and the slices -/

/-- What there is of a slice was looked at: the header that has all of the file always was; of
others what was read of the cache, and everything while nothing is read of it. -/
def Counts (s : Slices) (n : ℕ) (slice : Slice) : Prop :=
  n = 0 ∨ slice.loadedFromCache = true ∨ s.headerMode = .unknown ∨ s.headerMode = .noCache

/-- There is a slice; there is none of a file that is so near to 4 GiB that their count is 0. -/
def HasSlices (s : Slices) : Prop := ∃ n, Flagged s n

/-- Nothing is held of a slice, nor was read for it. -/
def Rests (s : Slices) (n : ℕ) : Prop :=
  ∃ slice, sliceAt s n = some slice ∧ slice.parts = .empty ∧ slice.loadedFromCache = false

/-- **What the flags always say**: all slices are full when each is, and each is that has all parts
when it was looked at. -/
structure FullOk (s : Slices) (full : Full) : Prop where
  length : full.data.length = s.data.length
  all : HasSlices s → full.fullInCache = full.checkFullInCache s
  none : ¬HasSlices s → full.fullInCache = false
  held : ∀ n slice, Flagged s n → sliceAt s n = some slice → Counts s n slice →
    slice.parts.size = Full.partsCount s n → full.flag n = true

namespace Full

variable {full full' : Full} {value : Bool} {sizes : List ℕ}

theorem flag_zero (full : Full) : full.flag 0 = full.header := rfl

theorem flag_succ (full : Full) (i : ℕ) : full.flag (i + 1) = full.data.getD i false := rfl

theorem flag_setFlag_ne (full : Full) (value : Bool) (h : k ≠ n) :
    (full.setFlag n value).flag k = full.flag k := by
  unfold setFlag
  cases n with
  | zero =>
    rw [if_pos rfl]
    unfold flag
    rw [if_neg h, if_neg h]
  | succ i =>
    rw [if_neg (Nat.succ_ne_zero i), Nat.succ_sub_one]
    cases k with
    | zero => rfl
    | succ j =>
      have hij : i ≠ j := fun hij => h (congrArg (· + 1) hij.symm)
      rw [flag_succ, flag_succ, List.getD_eq_getElem?_getD, List.getElem?_set_ne hij,
        List.getD_eq_getElem?_getD]

theorem flag_setFlag_self (full : Full) (value : Bool) (h : n ≤ full.data.length) :
    (full.setFlag n value).flag n = value := by
  unfold setFlag
  cases n with
  | zero => rfl
  | succ i =>
    rw [if_neg (Nat.succ_ne_zero i), Nat.succ_sub_one, flag_succ, List.getD_eq_getElem?_getD,
      List.getElem?_set_self h, Option.getD_some]

theorem length_setFlag (full : Full) (n : ℕ) (value : Bool) :
    (full.setFlag n value).data.length = full.data.length := by
  unfold setFlag
  split_ifs
  · rfl
  · exact List.length_set

/-- **All slices are full when each is.** -/
theorem checkFullInCache_iff (hlength : full.data.length = s.data.length) :
    full.checkFullInCache s = true ↔ ∀ n, Flagged s n → full.flag n = true := by
  unfold checkFullInCache
  cases hfull : isFullInHeader s.size with
  | true =>
    rw [if_pos rfl]
    constructor
    · intro hheader n hn
      obtain rfl := hn.zero hfull
      exact hheader
    · intro hall
      exact hall 0 (by rw [Flagged, if_pos hfull])
  | false =>
    rw [if_neg Bool.false_ne_true, List.all_eq_true]
    constructor
    · intro hall n hn
      obtain ⟨hpos, hle⟩ := hn.pos hfull
      obtain ⟨i, rfl⟩ := Nat.exists_eq_succ_of_ne_zero (Nat.pos_iff_ne_zero.mp hpos)
      have hi : i < full.data.length := hlength ▸ hle
      rw [flag_succ, List.getD_eq_getElem?_getD, List.getElem?_eq_getElem hi, Option.getD_some]
      exact hall _ (List.getElem_mem hi)
    · intro hall value hvalue
      obtain ⟨i, hi, rfl⟩ := List.getElem_of_mem hvalue
      have hflag := hall (i + 1) (by
        rw [Flagged, if_neg (by simp [hfull])]
        omega)
      rwa [flag_succ, List.getD_eq_getElem?_getD, List.getElem?_eq_getElem hi, Option.getD_some]
        at hflag

/-- **What checking a slice does**: its flag says whether it has all parts, and nothing else
changes; all slices are full when each is, as before. -/
theorem checkSliceFullLoaded_spec (hn : Flagged s n) (hlength : full.data.length = s.data.length)
    (hall : full.fullInCache = full.checkFullInCache s) :
    (full.checkSliceFullLoaded s n).data.length = full.data.length ∧
      (full.checkSliceFullLoaded s n).fullInCache
        = (full.checkSliceFullLoaded s n).checkFullInCache s ∧
      (full.checkSliceFullLoaded s n).flag n
        = decide ((partsAt s n).size = partsCount s n) ∧
      ∀ k ≠ n, (full.checkSliceFullLoaded s n).flag k = full.flag k := by
  have hle : n ≤ full.data.length := by
    cases hfull : isFullInHeader s.size with
    | true => exact (hn.zero hfull).symm ▸ Nat.zero_le _
    | false => exact hlength ▸ (hn.pos hfull).2
  have hheader : ¬(n = 0 ∧ ¬isFullInHeader s.size) := by
    rintro ⟨rfl, hnot⟩
    exact absurd (hn.pos (Bool.not_eq_true _ ▸ hnot)).1 (by decide)
  have hloaded : (((sliceAt s n).getD .empty).parts.size == partsCount s n)
      = decide ((partsAt s n).size = partsCount s n) := rfl
  have hself := fun value => flag_setFlag_self full value hle
  unfold checkSliceFullLoaded
  rw [if_neg hheader, hloaded]
  dsimp only
  generalize decide ((partsAt s n).size = partsCount s n) = loaded
  cases hflag : full.flag n <;> cases loaded
  · exact ⟨rfl, hall, hflag, fun k _ => rfl⟩
  · exact ⟨length_setFlag full n true, rfl, hself true, fun k hk => flag_setFlag_ne full true hk⟩
  · have hnot : (full.setFlag n false).checkFullInCache s = false := by
      rw [← Bool.not_eq_true, checkFullInCache_iff ((length_setFlag full n false).trans hlength)]
      intro hcheck
      exact absurd ((hcheck n hn).symm.trans (hself false)) (by decide)
    exact ⟨length_setFlag full n false, hnot.symm, hself false,
      fun k hk => flag_setFlag_ne full false hk⟩
  · exact ⟨rfl, hall, hflag, fun k _ => rfl⟩

theorem length_sizes (h : full.processCachedSizes s sizes = some full') :
    sizes.length = s.data.length := by
  unfold processCachedSizes at h
  split_ifs at h with hsizes
  exact not_not.mp hsizes

/-- What is known of the size of a slice in the cache. -/
def SizeInCache (sizes : List ℕ) (s : Slices) (n : ℕ) : Prop :=
  n ≠ 0 ∧ sizes[n - 1]? = some (maxSliceSize n s.size)

/-- **What the sizes in the cache do**: a slice with its whole size there is full as well. -/
theorem processCachedSizes_spec (hnot : isFullInHeader s.size = false)
    (hv : s.data.length = slicesCount s.size) (hlength : full.data.length = s.data.length)
    (h : full.processCachedSizes s sizes = some full') :
    full'.data.length = full.data.length ∧ full'.fullInCache = full'.checkFullInCache s ∧
      ∀ n, Flagged s n → (full'.flag n = true ↔ full.flag n = true ∨ SizeInCache sizes s n) := by
  unfold processCachedSizes at h
  split_ifs at h with hsizes
  obtain rfl := Option.some.inj h
  have hsizes := not_not.mp hsizes
  refine ⟨List.length_mapIdx, ?_, fun n hn => ?_⟩
  · have hdata : ∀ data : List Bool, data.length = full.data.length →
        (data.count true == sizes.length) = data.all id := fun data hdata => by
      rw [Bool.eq_iff_iff, beq_iff_eq, List.all_eq_true, hsizes, ← hlength, ← hdata,
        List.count_eq_length]
      exact forall₂_congr fun value _ => eq_comm
    unfold checkFullInCache
    rw [if_neg (by simp [hnot])]
    exact hdata _ List.length_mapIdx
  · obtain ⟨hpos, hle⟩ := hn.pos hnot
    obtain ⟨i, rfl⟩ := Nat.exists_eq_succ_of_ne_zero (Nat.pos_iff_ne_zero.mp hpos)
    have hi : i < full.data.length := hlength ▸ hle
    have hi' : i < sizes.length := hsizes ▸ hle
    have hsize : maxSliceSize (i + 1) s.size
        = if i + 1 < s.data.length then kInSlice else s.size - i * kInSlice := by
      unfold maxSliceSize
      rw [if_neg (Nat.succ_ne_zero i), ← hv]
      by_cases hlast : i + 1 = s.data.length
      · rw [if_pos hlast, if_neg (by omega)]
        rfl
      · rw [if_neg hlast, if_pos (by omega)]
    have hflag : full.data.getD i false = full.data[i] := by
      rw [List.getD_eq_getElem?_getD, List.getElem?_eq_getElem hi, Option.getD_some]
    rw [flag_succ, flag_succ, hflag, List.getD_eq_getElem?_getD, List.getElem?_mapIdx,
      List.getElem?_eq_getElem hi, Option.map_some, Option.getD_some, Bool.or_eq_true, beq_iff_eq,
      List.getD_eq_getElem?_getD, List.getElem?_eq_getElem hi', Option.getD_some]
    unfold SizeInCache
    rw [hsize, Nat.succ_sub_one, List.getElem?_eq_getElem hi', Option.some_inj]
    exact or_congr_right ⟨fun h => ⟨Nat.succ_ne_zero i, h⟩, fun h => h.2⟩

end Full

/-! ## What changes -/

/-- **A slice that no flag is changed for**: its parts are as they were; or it was looked at and is
unloaded; or there may be more of it, and it is not looked at. -/
def Quiet (s s' : Slices) (n : ℕ) : Prop :=
  ∀ slice', sliceAt s' n = some slice' → ∃ slice, sliceAt s n = some slice ∧
    (slice'.parts = slice.parts ∧ (Counts s' n slice' → Counts s n slice) ∨
      slice'.parts = .empty ∧ Counts s n slice ∨
      ¬Counts s' n slice' ∧ slice.parts.size ≤ slice'.parts.size)

/-- **What changes of the slices and of the flags.**  No flag does; or one slice is checked, which
does not rest then; or it is known what sizes the slices have in the cache. -/
inductive Change (s s' : Slices) (full : Full) : Full → Prop
  | quiet (h : ∀ n, Flagged s n → Quiet s s' n) : Change s s' full full
  | checked (k : ℕ) (hk : Flagged s' k) (hbusy : ¬Rests s' k)
      (h : ∀ n ≠ k, Flagged s n → Quiet s s' n) :
      Change s s' full (full.checkSliceFullLoaded s' k)
  | sizes (sizes : List ℕ) {full' : Full} (hs : s' = s) (hsome : sizes ≠ [])
      (hnot : isFullInHeader s.size = false)
      (h : full.processCachedSizes s sizes = some full') : Change s s' full full'

variable {full full' : Full}

/-- A slice that does not change keeps its flag in order. -/
theorem FullOk.quiet (h : FullOk s full) (hv : Valid loads s') (hpos : 0 < s'.size)
    (hsize : s'.size = s.size) (hlength : s'.data.length = s.data.length)
    (hquiet : Quiet s s' n) (hn : Flagged s' n) (hslice : sliceAt s' n = some slice')
    (hcounts : Counts s' n slice') (hparts : slice'.parts.size = Full.partsCount s' n) :
    full.flag n = true := by
  have hsame : Full.partsCount s' n = Full.partsCount s n := by
    unfold Full.partsCount
    rw [hsize, hlength]
  obtain ⟨slice, hold, ⟨heq, himp⟩ | ⟨heq, -⟩ | ⟨hnot, -⟩⟩ := hquiet slice' hslice
  · exact h.held n slice (hn.keeps hsize.symm hlength.symm) hold (himp hcounts)
      (heq ▸ hsame ▸ hparts)
  · have hpart : kPartSize = 131072 := rfl
    have hzero : Full.partsCount s' n = 0 := by
      rw [← hparts, heq]
      rfl
    have hsizePos := hn.size_pos hv hpos
    rw [hn.partsCount_eq hv, hpart] at hzero
    omega
  · exact absurd hcounts hnot

theorem HasSlices.keeps (h : HasSlices s) (hsize : s'.size = s.size)
    (hlength : s'.data.length = s.data.length) : HasSlices s' :=
  h.imp fun _ hn => hn.keeps hsize hlength

theorem FullOk.all_of_size (h : FullOk s full) (hsize : s'.size = s.size)
    (hlength : s'.data.length = s.data.length) (hslices : HasSlices s') :
    full.fullInCache = full.checkFullInCache s' := by
  rw [h.all (hslices.keeps hsize.symm hlength.symm), Full.checkFullInCache, Full.checkFullInCache,
    hsize]

/-- **What is so of the flags stays so.** -/
theorem FullOk.change (h : FullOk s full) (hv : Valid loads s') (hpos : 0 < s'.size)
    (hsize : s'.size = s.size) (hlength : s'.data.length = s.data.length)
    (hchange : Change s s' full full') : FullOk s' full' := by
  have hall := fun hslices => h.all_of_size hsize hlength hslices
  cases hchange with
  | quiet hquiet =>
    refine ⟨h.length.trans hlength.symm, hall, fun hnot => h.none fun hslices =>
      hnot (hslices.keeps hsize hlength), fun n slice' hn hslice hcounts hparts => ?_⟩
    exact h.quiet hv hpos hsize hlength (hquiet n (hn.keeps hsize.symm hlength.symm)) hn hslice
      hcounts hparts
  | checked k hk hbusy hquiet =>
    obtain ⟨hsame, hcheck, hself, hother⟩ :=
      Full.checkSliceFullLoaded_spec hk (h.length.trans hlength.symm) (hall ⟨k, hk⟩)
    refine ⟨hsame.trans (h.length.trans hlength.symm), fun _ => hcheck,
      fun hnot => absurd ⟨k, hk⟩ hnot, fun n slice' hn hslice hcounts hparts => ?_⟩
    by_cases hnk : n = k
    · obtain rfl := hnk
      rw [hself, decide_eq_true_iff, partsAt_eq hslice]
      exact hparts
    · rw [hother n hnk]
      exact h.quiet hv hpos hsize hlength (hquiet n hnk (hn.keeps hsize.symm hlength.symm)) hn
        hslice hcounts hparts
  | sizes sizes hs hsome hnot hsizes =>
    obtain rfl := hs
    have hcount := hv.length
    rw [if_neg (by simp [hnot])] at hcount
    obtain ⟨hsame, hcheck, hflags⟩ := Full.processCachedSizes_spec hnot hcount h.length hsizes
    refine ⟨hsame.trans h.length, fun _ => hcheck, fun hnone => absurd ?_ hnone,
      fun n slice' hn hslice hcounts hparts => ?_⟩
    · have hpos := List.length_pos_iff.mpr hsome
      rw [Full.length_sizes hsizes] at hpos
      exact ⟨1, by rw [Flagged, if_neg (by simp [hnot])]; exact ⟨Nat.le_refl 1, hpos⟩⟩
    exact (hflags n hn).mpr (Or.inl (h.held n slice' hn hslice hcounts hparts))

/-- **A flag that is set is set for a slice that is all held**, or is in the cache with its size. -/
theorem Change.gained (h : FullOk s full) (hv : Valid (fileLoads file) s')
    (hsize : s'.size = s.size) (hlength : s'.data.length = s.data.length)
    (hchange : Change s s' full full') (hn : Flagged s' n) (hflag : full'.flag n = true)
    (hnot : full.flag n = false) : Held file s' n ∨ ∃ sizes, s' = s ∧
      full.processCachedSizes s sizes = some full' ∧ Full.SizeInCache sizes s n := by
  have hall := fun hslices => h.all_of_size hsize hlength hslices
  cases hchange with
  | quiet hquiet => exact absurd (hflag.symm.trans hnot) (by decide)
  | checked k hk hbusy hquiet =>
    obtain ⟨-, -, hself, hother⟩ :=
      Full.checkSliceFullLoaded_spec hk (h.length.trans hlength.symm) (hall ⟨k, hk⟩)
    by_cases hnk : n = k
    · obtain rfl := hnk
      rw [hself, decide_eq_true_iff] at hflag
      exact Or.inl ((hk.held_iff hv).mpr hflag)
    · rw [hother n hnk] at hflag
      exact absurd (hflag.symm.trans hnot) (by decide)
  | sizes sizes hs hsome hnotFull hsizes =>
    obtain rfl := hs
    have hcount := hv.length
    rw [if_neg (by simp [hnotFull])] at hcount
    obtain ⟨-, -, hflags⟩ := Full.processCachedSizes_spec hnotFull hcount h.length hsizes
    refine Or.inr ⟨sizes, rfl, hsizes, ((hflags n hn).mp hflag).resolve_left ?_⟩
    rw [hnot]
    exact Bool.false_ne_true

/-- **A flag stays while the slice rests.** -/
theorem Change.kept (h : FullOk s full) (hv : Valid loads s')
    (hsize : s'.size = s.size) (hlength : s'.data.length = s.data.length)
    (hchange : Change s s' full full') (hn : Flagged s' n) (hrests : Rests s' n)
    (hflag : full.flag n = true) : full'.flag n = true := by
  have hall := fun hslices => h.all_of_size hsize hlength hslices
  cases hchange with
  | quiet hquiet => exact hflag
  | checked k hk hbusy hquiet =>
    obtain ⟨-, -, -, hother⟩ :=
      Full.checkSliceFullLoaded_spec hk (h.length.trans hlength.symm) (hall ⟨k, hk⟩)
    rw [hother n fun hnk => hbusy (hnk ▸ hrests)]
    exact hflag
  | sizes sizes hs hsome hnotFull hsizes =>
    obtain rfl := hs
    have hcount := hv.length
    rw [if_neg (by simp [hnotFull])] at hcount
    obtain ⟨-, -, hflags⟩ := Full.processCachedSizes_spec hnotFull hcount h.length hsizes
    exact (hflags n hn).mpr (Or.inl hflag)

/-- **What was all held when it was unloaded was looked at.** -/
theorem Change.unloaded (h : FullOk s full) (hv : Valid (fileLoads file) s) (hpos : 0 < s.size)
    (hchange : Change s s' full full') (hn : Flagged s n) (hheld : Held file s n)
    (hrests : Rests s' n) : full.flag n = true := by
  have hparts := (hn.held_iff hv).mp hheld
  have hpart : kPartSize = 131072 := rfl
  have hsome : 0 < Full.partsCount s n := by
    have hsizePos := hn.size_pos hv hpos
    rw [hn.partsCount_eq hv, hpart]
    omega
  have hquiet : Quiet s s' n := by
    cases hchange with
    | quiet hquiet => exact hquiet n hn
    | checked k hk hbusy hquiet =>
      exact hquiet n (fun hnk => hbusy (hnk ▸ hrests)) hn
    | sizes sizes hs hsome hnotFull hsizes =>
      obtain rfl := hs
      exact fun slice hslice => ⟨slice, hslice, Or.inl ⟨rfl, id⟩⟩
  obtain ⟨slice', hslice', hempty, -⟩ := hrests
  obtain ⟨slice, hslice, hcase⟩ := hquiet slice' hslice'
  rw [partsAt_eq hslice] at hparts
  rw [hempty] at hcase
  obtain ⟨heq, -⟩ | ⟨-, hcounts⟩ | ⟨-, hle⟩ := hcase
  · rw [← heq] at hparts
    exact absurd hparts (Nat.ne_of_lt hsome)
  · exact h.held n slice hn hslice hcounts hparts
  · rw [hparts] at hle
    exact absurd hsome (Nat.not_lt.mpr hle)

end Yunogram.Media.Streaming
