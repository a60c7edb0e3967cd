import Yunogram.Machinery.MachineArith
import Yunogram.Media.StreamingRuns

/-!
# Media/SlicesArithmetic — the 32 bit sums that slices of a file are found by

A size is a 32 bit number, and where a slice or a part starts is computed of it with such numbers.
Here is what is computed when a part is given to the slices, when a buffer is filled and when the
header is read, each as the source has it.  What is computed with 64 bits, as everything that
`kPartSize` is in, stands only for the 32 bit number that it is taken for.

`sums_fit`: nothing of it wraps around, and the slices are enough for the file, for all sizes that
`SlicesCount` itself does not wrap around for.  Of those for which it does it counts no slices at
all, and they are accepted. -/

namespace Yunogram.Media.Streaming

open Machinery MachineArith

/-- `SlicesCount`. -/
def slicesCountSum (size : ℕ) : MachineArith := ((size : MachineArith) + kInSlice - 1) / kInSlice

/-- The index of the slice that an offset is in. -/
def indexSum (offset : ℕ) : MachineArith := offset / (kInSlice : MachineArith)

/-- An offset in the slice with an index. -/
def inSliceSum (offset index : ℕ) : MachineArith := offset - (index : MachineArith) * kInSlice

/-- An offset in the file, of one in the slice with an index. -/
def inFileSum (offset index : ℕ) : MachineArith := offset + (index : MachineArith) * kInSlice

/-- `_size - (sliceNumber - 1) * kInSlice`, which is the size of the last slice. -/
def restSum (size sliceNumber : ℕ) : MachineArith := inSliceSum size (sliceNumber - 1)

/-- `MaxSliceSize`. -/
def maxSliceSizeSums (sliceNumber size : ℕ) : List MachineArith :=
  if sliceNumber = 0 then []
  else if sliceNumber = slicesCount size then [slicesCountSum size, restSum size sliceNumber]
  else [slicesCountSum size]

namespace Slice

/-- `Slice::offsetsFromLoader`, whose loop is over 32 bit offsets. -/
def offsetsFromLoaderSums (parts : PartsMap) (till : ℕ) : ℕ → ℕ → List ℕ → List MachineArith
  | 0, _, _ => []
  | rounds + 1, offset, result =>
    if till ≤ offset then []
    else if parts.contains offset then
      (offset + (kPartSize : MachineArith)) ::
        offsetsFromLoaderSums parts till rounds (offset + kPartSize) result
    else match stackAdd kLoadFromRemoteMax result offset with
      | none => []
      | some result =>
        (offset + (kPartSize : MachineArith)) ::
          offsetsFromLoaderSums parts till rounds (offset + kPartSize) result

/-- `FindNotLoadedStart`, which takes the ends of parts for 32 bit numbers. -/
def endSums (parts : List (ℕ × Bytes)) : List MachineArith :=
  parts.map fun part => part.1 + (part.2.length : MachineArith)

/-- `Slice::prepareFill`. -/
def prepareFillSums (slice : Slice) (from' till : ℕ) : List MachineArith :=
  let fromOffset := from' / kPartSize * kPartSize
  let tillPart := (till + kPartSize - 1) / kPartSize
  let preloadTillOffset := (tillPart + kPreloadPartsAhead) * kPartSize
  let asks start := [val start, val preloadTillOffset] ++
    offsetsFromLoaderSums slice.parts preloadTillOffset preloadTillOffset start []
  if slice.parts.entries.countP (·.1 ≤ from') = 0 then asks fromOffset
  else
    let parts := partsBetween slice.parts from' till
    let haveTill := findNotLoadedStart parts fromOffset
    endSums parts ++
      if haveTill < till then asks haveTill else asks (tillPart * kPartSize)

end Slice

/-- `CopyLoaded`, up to an assertion of it that fails. -/
def copyLoadedSums (till : ℕ) : List (ℕ × Bytes) → ℕ → List MachineArith
  | [], _ => []
  | part :: parts, filled =>
    let copyTill := min (part.1 + part.2.length) till
    (part.1 + (part.2.length : MachineArith)) ::
      if part.1 ≤ filled ∧ filled < copyTill then
        let copy : MachineArith := copyTill - (filled : MachineArith)
        [filled - (part.1 : MachineArith), copy, filled + copy] ++
          copyLoadedSums till parts copyTill
      else []

namespace Slices

variable (s : Slices)

/-- `Slices::checkSliceFullLoaded`. -/
def checkSliceFullLoadedSums (sliceNumber : ℕ) : List MachineArith :=
  if sliceNumber = 0 ∨ sliceNumber < s.data.length then [] else [restSum s.size sliceNumber]

/-- `Slices::processCachedSizes`. -/
def processCachedSizesSums : List MachineArith :=
  (List.range s.data.length).flatMap fun i =>
    if i + 1 < s.data.length then [] else [restSum s.size (i + 1)]

/-- `Slices::processPart`. -/
def processPartSums (offset : ℕ) : List MachineArith :=
  if isFullInHeader s.size then []
  else [indexSum offset, inSliceSum offset (offset / kInSlice)] ++
    s.checkSliceFullLoadedSums (offset / kInSlice + 1)

/-- `Slices::applyHeaderCacheData`. -/
def applyHeaderCacheDataSums : List MachineArith :=
  s.header.parts.entries.flatMap fun part =>
    [indexSum part.1, inSliceSum part.1 (part.1 / kInSlice)]

/-- What is computed when the header or a slice is read, or put to the cache. -/
def cacheSums : List MachineArith :=
  s.applyHeaderCacheDataSums ++ s.processCachedSizesSums ++
    (List.range (s.data.length + 1)).flatMap fun n =>
      s.checkSliceFullLoadedSums n ++ maxSliceSizeSums n s.size ++
        Slice.endSums ((sliceAt s n).getD .empty).parts.entries

/-- `handlePrepareResult`. -/
def handlePrepareResultSums (sliceIndex : ℕ) (prepared : Slice.PrepareFillResult) :
    List MachineArith :=
  if s.cacheNotLoaded sliceIndex then []
  else prepared.offsetsFromLoader.map fun offset => inFileSum offset sliceIndex

/-- `addToHeader`. -/
def addToHeaderSums (slice : ℕ) (parts : List (ℕ × Bytes)) : List MachineArith :=
  if s.headerMode ≠ .unknown then []
  else parts.map fun part => (slice : MachineArith) * kInSlice + part.1

/-- `Slices::fillFromHeader`. -/
def fillFromHeaderSums (offset count : ℕ) : List MachineArith :=
  let prepared := s.header.prepareFill offset (offset + count)
  (offset + (count : MachineArith)) :: s.header.prepareFillSums offset (offset + count) ++
    if prepared.ready then copyLoadedSums (offset + count) prepared.parts offset else []

/-- What is computed of one of the slices of a range. -/
def sliceSums (sliceIndex from' till : ℕ) : List MachineArith :=
  let slice := s.data.getD sliceIndex .empty
  let prepared := slice.prepareFill from' till
  slice.prepareFillSums from' till ++ s.handlePrepareResultSums sliceIndex prepared ++
    copyLoadedSums till prepared.parts from' ++ s.addToHeaderSums sliceIndex prepared.parts

/-- The slices and limits of a range. -/
def rangeSums (offset count : ℕ) : List MachineArith :=
  let till := offset + count
  let fromSlice := offset / kInSlice
  [offset + (count : MachineArith), indexSum offset, slicesCountSum till,
    (fromSlice : MachineArith) + 1, (fromSlice : MachineArith) + 2, inSliceSum offset fromSlice,
    inSliceSum till fromSlice, ((fromSlice : MachineArith) + 1) * kInSlice] ++
    if (fromSlice + 1) * kInSlice < till
      then [till - ((fromSlice : MachineArith) + 1) * kInSlice] else []

/-- `Slices::fill`. -/
def fillSums (offset count : ℕ) : List MachineArith :=
  if s.headerMode ≠ .noCache ∧ ¬s.header.loadedFromCache then []
  else if isFullInHeader s.size then s.fillFromHeaderSums offset count
  else
    let till := offset + count
    let fromSlice := offset / kInSlice
    rangeSums offset count ++
      s.sliceSums fromSlice (offset - fromSlice * kInSlice)
        (min kInSlice (till - fromSlice * kInSlice)) ++
      if fromSlice + 1 < tillSlice offset count
        then s.sliceSums (fromSlice + 1) 0 (till - (fromSlice + 1) * kInSlice) else []

/-- **Nothing that is computed wraps around**: when any part of a slice is given, when any range is
filled, and when the header or a slice is read or put to the cache. -/
structure SumsFit : Prop where
  part : ∀ offset < 2 ^ 32, isFullInHeader s.size = true ∨ offset / kInSlice < s.data.length →
    ∀ sum ∈ s.processPartSums offset, sum.Fits 32
  fill : ∀ offset count, 0 < count → offset + count ≤ s.size → count ≤ kInSlice →
    ∀ sum ∈ s.fillSums offset count, sum.Fits 32
  cache : ∀ sum ∈ s.cacheSums, sum.Fits 32

end Slices

/-! ## One sum -/

variable {size n offset count index from' till : ℕ} {parts : PartsMap} {slice : Slice} {s : Slices}
  {loads : ℕ → Bytes → Prop} {sum : MachineArith}

theorem kInSlice_lt : kInSlice < 2 ^ 32 := by decide

theorem kInSlice_pos : 0 < kInSlice := by decide

/-- What `SlicesCount` computes is what is said of it. -/
theorem slicesCountSum_wrapped (hsize : size < 2 ^ 32) :
    (slicesCountSum size).wrapped 32 = slicesCount size := by
  have hslice : kInSlice = 8388608 := rfl
  change (((size % 2 ^ 32 + kInSlice % 2 ^ 32) % 2 ^ 32 + (2 ^ 32 - 1 % 2 ^ 32)) % 2 ^ 32) /
    (kInSlice % 2 ^ 32) = slicesCount size
  rw [slicesCount, hslice, Nat.mod_eq_of_lt hsize, Nat.mod_eq_of_lt (by decide : 8388608 < 2 ^ 32)]
  refine congrArg (· / 8388608) ?_
  omega

theorem slicesCountSum_fits (hsize : size + kInSlice < 2 ^ 32) : (slicesCountSum size).Fits 32 := by
  refine ⟨⟨⟨?_, kInSlice_lt, hsize⟩, fits_ofNat.mpr (by decide), ?_⟩, kInSlice_lt⟩
  · exact (Nat.le_add_right _ _).trans_lt hsize
  · exact kInSlice_pos.trans_le (Nat.le_add_left _ _)

theorem indexSum_fits (hoffset : offset < 2 ^ 32) : (indexSum offset).Fits 32 :=
  ⟨hoffset, kInSlice_lt⟩

theorem inSliceSum_fits (hoffset : offset < 2 ^ 32) (hle : index * kInSlice ≤ offset) :
    (inSliceSum offset index).Fits 32 := by
  have hindex : index ≤ index * kInSlice := Nat.le_mul_of_pos_right index kInSlice_pos
  exact ⟨hoffset, ⟨(hindex.trans hle).trans_lt hoffset, kInSlice_lt, hle.trans_lt hoffset⟩, hle⟩

theorem inFileSum_fits (hlt : offset + index * kInSlice < 2 ^ 32) :
    (inFileSum offset index).Fits 32 := by
  have hindex : index ≤ index * kInSlice := Nat.le_mul_of_pos_right index kInSlice_pos
  have hproduct : index * kInSlice < 2 ^ 32 := (Nat.le_add_left _ _).trans_lt hlt
  exact ⟨(Nat.le_add_right _ _).trans_lt hlt,
    ⟨hindex.trans_lt hproduct, kInSlice_lt, hproduct⟩, hlt⟩

/-- A slice that is there starts in the file. -/
theorem restSum_fits (hsize : size < 2 ^ 32) (hpos : 0 < n) (hn : n ≤ slicesCount size) :
    (restSum size n).Fits 32 :=
  inSliceSum_fits hsize (maxSliceSize_eq hsize hpos hn).1.le

theorem maxSliceSizeSums_fit (hsize : size + kInSlice < 2 ^ 32) :
    ∀ sum ∈ maxSliceSizeSums n size, sum.Fits 32 := by
  intro sum hsum
  have hlt : size < 2 ^ 32 := (Nat.le_add_right _ _).trans_lt hsize
  unfold maxSliceSizeSums at hsum
  split_ifs at hsum with hzero hlast
  · exact absurd hsum List.not_mem_nil
  · rcases List.mem_pair.mp hsum with rfl | rfl
    · exact slicesCountSum_fits hsize
    · exact restSum_fits hlt (Nat.pos_of_ne_zero hzero) hlast.le
  · rw [List.mem_singleton.mp hsum]
    exact slicesCountSum_fits hsize

/-! ## One slice -/

/-- What is asked for of a loader is before the limit. -/
theorem offsetsFromLoaderLoop_lt {rounds : ℕ} {result : List ℕ} :
    ∀ o ∈ Slice.offsetsFromLoaderLoop parts till rounds offset result, o ∈ result ∨ o < till := by
  induction rounds generalizing offset result with
  | zero => exact fun o ho => Or.inl ho
  | succ rounds ih =>
    intro o ho
    rw [Slice.offsetsFromLoaderLoop] at ho
    split_ifs at ho with htill hcontains
    · exact Or.inl ho
    · exact ih o ho
    · split at ho
      · exact Or.inl ho
      · next more hadd =>
        rw [Slice.stackAdd, Option.ite_none_right_eq_some] at hadd
        obtain rfl := Option.some.inj hadd.2
        rcases ih o ho with hmem | hlt
        · rcases List.mem_append.mp hmem with hmem | hmem
          · exact Or.inl hmem
          · exact Or.inr (List.mem_singleton.mp hmem ▸ Nat.lt_of_not_le htill)
        · exact Or.inr hlt

theorem offsetsFromLoaderSums_fit {rounds : ℕ} {result : List ℕ}
    (htill : till + kPartSize < 2 ^ 32) :
    ∀ sum ∈ Slice.offsetsFromLoaderSums parts till rounds offset result, sum.Fits 32 := by
  have hnext : ∀ o < till, ((o : MachineArith) + (kPartSize : MachineArith)).Fits 32 := by
    intro o ho
    have hpart : kPartSize < 2 ^ 32 := by decide
    exact ⟨by rw [fits_coe]; omega, hpart, by rw [value_coe, value_coe]; omega⟩
  induction rounds generalizing offset result with
  | zero => exact fun sum hsum => absurd hsum List.not_mem_nil
  | succ rounds ih =>
    intro sum hsum
    rw [Slice.offsetsFromLoaderSums] at hsum
    split_ifs at hsum with hend hcontains
    · exact absurd hsum List.not_mem_nil
    · rcases List.mem_cons.mp hsum with rfl | hsum
      · exact hnext offset (Nat.lt_of_not_le hend)
      · exact ih sum hsum
    · split at hsum
      · exact absurd hsum List.not_mem_nil
      · rcases List.mem_cons.mp hsum with rfl | hsum
        · exact hnext offset (Nat.lt_of_not_le hend)
        · exact ih sum hsum

/-- What a slice asks for ends before this. -/
theorem preloadTill_le (htill : till ≤ kMaxOnlyInHeader) :
    (till + kPartSize - 1) / kPartSize ≤ 80 ∧
      ((till + kPartSize - 1) / kPartSize + kPreloadPartsAhead) * kPartSize ≤ 88 * kPartSize := by
  have hparts : (till + kPartSize - 1) / kPartSize ≤ 80 := by
    have hpart : kPartSize = 131072 := rfl
    have hheader : kMaxOnlyInHeader = 10485760 := rfl
    rw [hheader] at htill
    rw [hpart]
    omega
  exact ⟨hparts, Nat.mul_le_mul_right kPartSize (Nat.add_le_add_right hparts kPreloadPartsAhead)⟩

theorem kMaxOnlyInHeader_lt : kMaxOnlyInHeader < 2 ^ 32 := by decide

theorem endSums_fit {entries : List (ℕ × Bytes)}
    (hend : ∀ part ∈ entries, part.1 + part.2.length < 2 ^ 32) :
    ∀ sum ∈ Slice.endSums entries, sum.Fits 32 := by
  intro sum hsum
  obtain ⟨part, hpart, rfl⟩ := List.mem_map.mp hsum
  have hlt := hend part hpart
  exact ⟨(Nat.le_add_right _ _).trans_lt hlt, (Nat.le_add_left _ _).trans_lt hlt, hlt⟩

/-- **What is read of a slice, and asked for, is in 32 bit numbers.** -/
theorem prepareFillSums_fit (hend : ∀ part ∈ slice.parts.entries, part.1 + part.2.length < 2 ^ 32)
    (htill : till ≤ kMaxOnlyInHeader) (hfrom : from' ≤ till) :
    ∀ sum ∈ slice.prepareFillSums from' till, sum.Fits 32 := by
  obtain ⟨hparts, hpreload⟩ := preloadTill_le htill
  have hlimit : 88 * kPartSize + kPartSize < 2 ^ 32 := by decide
  have hasks : ∀ start < 2 ^ 32, ∀ sum ∈ [val start,
        val (((till + kPartSize - 1) / kPartSize + kPreloadPartsAhead) * kPartSize)] ++
      Slice.offsetsFromLoaderSums slice.parts
        (((till + kPartSize - 1) / kPartSize + kPreloadPartsAhead) * kPartSize)
        (((till + kPartSize - 1) / kPartSize + kPreloadPartsAhead) * kPartSize) start [],
      sum.Fits 32 := by
    intro start hstart sum hsum
    rcases List.mem_append.mp hsum with hsum | hsum
    · rcases List.mem_pair.mp hsum with rfl | rfl
      · exact hstart
      · exact hpreload.trans_lt ((Nat.le_add_right _ _).trans_lt hlimit)
    · exact offsetsFromLoaderSums_fit ((Nat.add_le_add_right hpreload _).trans_lt hlimit) sum hsum
  have htill32 : till < 2 ^ 32 := htill.trans_lt kMaxOnlyInHeader_lt
  intro sum hsum
  unfold Slice.prepareFillSums at hsum
  dsimp only at hsum
  split_ifs at hsum with hnone hhave
  · exact hasks _ ((Nat.div_mul_le_self _ _).trans_lt (hfrom.trans_lt htill32)) sum hsum
  · rcases List.mem_append.mp hsum with hsum | hsum
    · exact endSums_fit (fun part hpart =>
        hend part (List.mem_of_mem_drop (List.mem_filter.mp hpart).1)) sum hsum
    · exact hasks _ (hhave.trans htill32) sum hsum
  · rcases List.mem_append.mp hsum with hsum | hsum
    · exact endSums_fit (fun part hpart =>
        hend part (List.mem_of_mem_drop (List.mem_filter.mp hpart).1)) sum hsum
    · refine hasks _ ((Nat.mul_le_mul_right kPartSize hparts).trans_lt ?_) sum hsum
      decide

/-- **What is copied is at 32 bit numbers.** -/
theorem copyLoadedSums_fit {entries : List (ℕ × Bytes)} {filled : ℕ}
    (hend : ∀ part ∈ entries, part.1 + part.2.length < 2 ^ 32) :
    ∀ sum ∈ copyLoadedSums till entries filled, sum.Fits 32 := by
  induction entries generalizing filled with
  | nil => exact fun sum hsum => absurd hsum List.not_mem_nil
  | cons part entries ih =>
    have hlt := hend part List.mem_cons_self
    have hpart : part.1 < 2 ^ 32 := (Nat.le_add_right _ _).trans_lt hlt
    intro sum hsum
    rcases List.mem_cons.mp hsum with rfl | hsum
    · exact ⟨hpart, (Nat.le_add_left _ _).trans_lt hlt, hlt⟩
    · split_ifs at hsum with hassert
      · obtain ⟨hle, hcopy⟩ := hassert
        have htill : min (part.1 + part.2.length) till < 2 ^ 32 :=
          (Nat.min_le_left _ _).trans_lt hlt
        have hfilled : filled < 2 ^ 32 := hcopy.trans htill
        have hsub : ((min (part.1 + part.2.length) till : ℕ) - (filled : MachineArith)).Fits 32 :=
          ⟨htill, hfilled, hcopy.le⟩
        have hsum' : filled + (min (part.1 + part.2.length) till - filled) < 2 ^ 32 := by omega
        rcases List.mem_append.mp hsum with hsum | hsum
        · rcases List.mem_cons.mp hsum with rfl | hsum
          · exact ⟨hfilled, hpart, hle⟩
          rcases List.mem_pair.mp hsum with rfl | rfl
          · exact hsub
          · exact ⟨hfilled, hsub, hsum'⟩
        · exact ih (fun other hother => hend other (List.mem_cons_of_mem _ hother)) sum hsum
      · exact absurd hsum List.not_mem_nil

/-- What a slice asks for is not far behind it. -/
theorem prepareFill_lt (htill : till ≤ kMaxOnlyInHeader) :
    ∀ o ∈ (slice.prepareFill from' till).offsetsFromLoader, o < 88 * kPartSize := by
  have hloop : ∀ start, ∀ o ∈ slice.offsetsFromLoader start
      (((till + kPartSize - 1) / kPartSize + kPreloadPartsAhead) * kPartSize),
      o < 88 * kPartSize := by
    intro start o ho
    rcases offsetsFromLoaderLoop_lt o ho with hmem | hlt
    · exact absurd hmem List.not_mem_nil
    · exact hlt.trans_le (preloadTill_le htill).2
  intro o ho
  unfold Slice.prepareFill at ho
  dsimp only at ho
  split_ifs at ho
  · exact hloop _ o ho
  · exact hloop _ o ho
  · exact hloop _ o ho

/-! ## All slices -/

/-- The size of a file with less slices than are accepted. -/
def sizeLimit : ℕ := 0x1FE * kInSlice

theorem sizeLimit_add : sizeLimit + kInSlice < 2 ^ 32 ∧ sizeLimit + 88 * kPartSize < 2 ^ 32 := by
  decide

/-- **The accepted sizes**, of those that are not too large to be counted. -/
theorem size_le_sizeLimit {useCache : Bool} (h : Slices.new size useCache = some s)
    (hsize : size ≤ 2 ^ 32 - kInSlice) : size ≤ sizeLimit := by
  unfold Slices.new at h
  rw [Option.ite_none_left_eq_some, Option.ite_none_left_eq_some] at h
  obtain ⟨-, hcount, -⟩ := h
  have hslice : kInSlice = 8388608 := rfl
  by_cases hfull : isFullInHeader size = true
  · have hheader : kMaxOnlyInHeader ≤ sizeLimit := by decide
    exact (of_decide_eq_true hfull).trans hheader
  · have hlt : slicesCount size < 0x1FF := Nat.lt_of_not_le fun hle => hcount ⟨hfull, hle⟩
    unfold slicesCount at hlt
    unfold sizeLimit
    rw [hslice] at hlt hsize ⊢
    omega

theorem maxSliceSize_lt (hsize : size < 2 ^ 32) : maxSliceSize n size < 2 ^ 32 := by
  unfold maxSliceSize
  split_ifs
  · exact hsize
  · exact (Nat.sub_le _ _).trans_lt hsize
  · exact kInSlice_lt

/-- Where the parts of a slice end. -/
theorem Holds.end_lt (h : Holds size loads n parts) (hsize : size < 2 ^ 32) :
    ∀ part ∈ parts.entries, part.1 + part.2.length < 2 ^ 32 := fun _ hpart =>
  (h.wellFormed.bounds hpart).2.2.trans_lt (maxSliceSize_lt hsize)

section

variable (hv : Valid loads s)

include hv

theorem Valid.checkSliceFullLoadedSums_fit (hn : n ≤ s.data.length) :
    ∀ sum ∈ s.checkSliceFullLoadedSums n, sum.Fits 32 := by
  intro sum hsum
  unfold Slices.checkSliceFullLoadedSums at hsum
  split_ifs at hsum with hlast
  · exact absurd hsum List.not_mem_nil
  · rw [List.mem_singleton.mp hsum]
    have hpos : 0 < n := Nat.pos_of_ne_zero fun hzero => hlast (Or.inl hzero)
    refine restSum_fits hv.size hpos (hn.trans ?_)
    rw [hv.length]
    split_ifs
    · exact Nat.zero_le _
    · exact Nat.le_refl _

theorem Valid.processPartSums_fit (hoffset : offset < 2 ^ 32)
    (hslice : isFullInHeader s.size = true ∨ offset / kInSlice < s.data.length) :
    ∀ sum ∈ s.processPartSums offset, sum.Fits 32 := by
  intro sum hsum
  unfold Slices.processPartSums at hsum
  split_ifs at hsum with hfull
  · exact absurd hsum List.not_mem_nil
  · rcases List.mem_append.mp hsum with hsum | hsum
    · rcases List.mem_pair.mp hsum with rfl | rfl
      · exact indexSum_fits hoffset
      · exact inSliceSum_fits hoffset (Nat.div_mul_le_self _ _)
    · exact hv.checkSliceFullLoadedSums_fit (hslice.resolve_left hfull) sum hsum

theorem Valid.sliceAt_end_lt : ∀ part ∈ ((Streaming.sliceAt s n).getD .empty).parts.entries,
    part.1 + part.2.length < 2 ^ 32 := by
  cases hslice : Streaming.sliceAt s n with
  | none => exact fun part hpart => absurd hpart List.not_mem_nil
  | some slice => exact (hv.sliceAt hslice).1.end_lt hv.size

theorem Valid.cacheSums_fit (hlimit : s.size ≤ sizeLimit) :
    ∀ sum ∈ s.cacheSums, sum.Fits 32 := by
  have hroom := (Nat.add_le_add_right hlimit kInSlice).trans_lt sizeLimit_add.1
  intro sum hsum
  rcases List.mem_append.mp hsum with hsum | hsum
  · rcases List.mem_append.mp hsum with hsum | hsum
    · obtain ⟨part, hpart, hsum⟩ := List.mem_flatMap.mp hsum
      have hlt : part.1 < 2 ^ 32 :=
        (Nat.le_add_right _ _).trans_lt (hv.header.end_lt hv.size part hpart)
      rcases List.mem_pair.mp hsum with rfl | rfl
      · exact indexSum_fits hlt
      · exact inSliceSum_fits hlt (Nat.div_mul_le_self _ _)
    · obtain ⟨i, hi, hsum⟩ := List.mem_flatMap.mp hsum
      refine hv.checkSliceFullLoadedSums_fit (List.mem_range.mp hi) sum ?_
      rw [Slices.checkSliceFullLoadedSums]
      simpa using hsum
  · obtain ⟨n, hn, hsum⟩ := List.mem_flatMap.mp hsum
    rcases List.mem_append.mp hsum with hsum | hsum
    · rcases List.mem_append.mp hsum with hsum | hsum
      · exact hv.checkSliceFullLoadedSums_fit (Nat.le_of_lt_succ (List.mem_range.mp hn)) sum hsum
      · exact maxSliceSizeSums_fit hroom sum hsum
    · exact endSums_fit hv.sliceAt_end_lt sum hsum

theorem Valid.sliceSums_fit (hindex : index ≤ 0x1FE) (htill : till ≤ kMaxOnlyInHeader)
    (hfrom : from' ≤ till) : ∀ sum ∈ s.sliceSums index from' till, sum.Fits 32 := by
  have hend := (hv.getD index).end_lt hv.size
  have hadd := sizeLimit_add.2
  have hstart : index * kInSlice ≤ sizeLimit := Nat.mul_le_mul_right _ hindex
  intro sum hsum
  rcases List.mem_append.mp hsum with hsum | hsum
  · rcases List.mem_append.mp hsum with hsum | hsum
    · rcases List.mem_append.mp hsum with hsum | hsum
      · exact prepareFillSums_fit hend htill hfrom sum hsum
      · unfold Slices.handlePrepareResultSums at hsum
        split_ifs at hsum
        · exact absurd hsum List.not_mem_nil
        · obtain ⟨o, ho, rfl⟩ := List.mem_map.mp hsum
          have hlt := prepareFill_lt htill o ho
          exact inFileSum_fits (by omega)
    · exact copyLoadedSums_fit
        (fun part hpart => hend part (Slice.prepareFill_subset hpart)) sum hsum
  · unfold Slices.addToHeaderSums at hsum
    split_ifs at hsum
    · exact absurd hsum List.not_mem_nil
    · obtain ⟨part, hpart, rfl⟩ := List.mem_map.mp hsum
      obtain ⟨hlt, hpartOf⟩ := hv.prepareFill hpart
      have hfile := (PartOf.toFile hv.size hlt hpartOf).2.1
      have hsize : maxSliceSize 0 s.size = s.size := rfl
      rw [hsize] at hfile
      have hsum32 : index * kInSlice + part.1 < 2 ^ 32 := hfile.trans hv.size
      have hindex32 : index < 2 ^ 32 := hindex.trans_lt (by decide)
      exact ⟨⟨hindex32, kInSlice_lt, (Nat.le_add_right _ _).trans_lt hsum32⟩,
        (Nat.le_add_left _ _).trans_lt hsum32, hsum32⟩

theorem Valid.fillFromHeaderSums_fit (hfull : isFullInHeader s.size = true)
    (hend : offset + count ≤ s.size) : ∀ sum ∈ s.fillFromHeaderSums offset count, sum.Fits 32 := by
  have htill : offset + count ≤ kMaxOnlyInHeader := hend.trans (of_decide_eq_true hfull)
  have htill32 : offset + count < 2 ^ 32 := htill.trans_lt kMaxOnlyInHeader_lt
  have hparts := hv.header.end_lt hv.size
  intro sum hsum
  rcases List.mem_append.mp hsum with hsum | hsum
  · rcases List.mem_cons.mp hsum with rfl | hsum
    · exact ⟨(Nat.le_add_right _ _).trans_lt htill32, (Nat.le_add_left _ _).trans_lt htill32,
        htill32⟩
    · exact prepareFillSums_fit hparts htill (Nat.le_add_right _ _) sum hsum
  · split_ifs at hsum
    · exact copyLoadedSums_fit
        (fun part hpart => hparts part (Slice.prepareFill_subset hpart)) sum hsum
    · exact absurd hsum List.not_mem_nil

end

/-- **The slices and limits of a range are 32 bit numbers.** -/
theorem rangeSums_fit (hcount : 0 < count) (hend : offset + count ≤ sizeLimit) :
    ∀ sum ∈ Slices.rangeSums offset count, sum.Fits 32 := by
  have hroom := (Nat.add_le_add_right hend kInSlice).trans_lt sizeLimit_add.1
  have htill32 : offset + count < 2 ^ 32 := (Nat.le_add_right _ _).trans_lt hroom
  have hoffset32 : offset < 2 ^ 32 := (Nat.le_add_right _ _).trans_lt htill32
  have hindex : offset / kInSlice < 0x1FE := by
    rw [Nat.div_lt_iff_lt_mul kInSlice_pos]
    exact (Nat.lt_add_of_pos_right hcount).trans_le hend
  have hindex32 : offset / kInSlice + 2 < 2 ^ 32 := by omega
  have hstart : offset / kInSlice * kInSlice ≤ offset := Nat.div_mul_le_self _ _
  have hnext : ((offset / kInSlice + 1) * kInSlice) < 2 ^ 32 :=
    (Nat.mul_le_mul_right kInSlice hindex).trans_lt (by decide)
  have hone : ((offset / kInSlice : ℕ) + (1 : MachineArith)).Fits 32 :=
    ⟨by rw [fits_coe]; omega, fits_ofNat.mpr (by decide), (Nat.lt_succ_self _).trans hindex32⟩
  have htwo : ((offset / kInSlice : ℕ) + (2 : MachineArith)).Fits 32 :=
    ⟨by rw [fits_coe]; omega, fits_ofNat.mpr (by decide), hindex32⟩
  have hproduct : (((offset / kInSlice : ℕ) + (1 : MachineArith)) * kInSlice).Fits 32 :=
    ⟨hone, kInSlice_lt, hnext⟩
  intro sum hsum
  rcases List.mem_append.mp hsum with hsum | hsum
  · simp only [List.mem_cons, List.not_mem_nil, or_false] at hsum
    rcases hsum with rfl | rfl | rfl | rfl | rfl | rfl | rfl | rfl
    · exact ⟨hoffset32, (Nat.le_add_left _ _).trans_lt htill32, htill32⟩
    · exact indexSum_fits hoffset32
    · exact slicesCountSum_fits hroom
    · exact hone
    · exact htwo
    · exact inSliceSum_fits hoffset32 hstart
    · exact inSliceSum_fits htill32 (hstart.trans (Nat.le_add_right _ _))
    · exact hproduct
  · split_ifs at hsum with hlt
    · rw [List.mem_singleton.mp hsum]
      exact ⟨htill32, hproduct, hlt.le⟩
    · exact absurd hsum List.not_mem_nil

theorem Valid.fillSums_fit (hv : Valid loads s) (hlimit : s.size ≤ sizeLimit) (hcount : 0 < count)
    (hend : offset + count ≤ s.size) (hmost : count ≤ kInSlice) :
    ∀ sum ∈ s.fillSums offset count, sum.Fits 32 := by
  have hindex : offset / kInSlice < 0x1FE := by
    rw [Nat.div_lt_iff_lt_mul kInSlice_pos]
    exact (Nat.lt_add_of_pos_right hcount).trans_le (hend.trans hlimit)
  have hslice : kInSlice ≤ kMaxOnlyInHeader := by decide
  have hin := Nat.div_add_mod' offset kInSlice
  have hmod := Nat.mod_lt offset kInSlice_pos
  intro sum hsum
  unfold Slices.fillSums at hsum
  split_ifs at hsum with hheader hfull
  · exact absurd hsum List.not_mem_nil
  · exact hv.fillFromHeaderSums_fit hfull hend sum hsum
  · rcases List.mem_append.mp hsum with hsum | hsum
    · rcases List.mem_append.mp hsum with hsum | hsum
      · exact rangeSums_fit hcount (hend.trans hlimit) sum hsum
      · have htill := (Nat.min_le_left kInSlice
          (offset + count - offset / kInSlice * kInSlice)).trans hslice
        refine hv.sliceSums_fit hindex.le htill (le_min ?_ ?_) sum hsum
        · omega
        · omega
    · split_ifs at hsum
      · refine hv.sliceSums_fit hindex ?_ (Nat.zero_le _) sum hsum
        rw [Nat.add_mul, Nat.one_mul]
        omega
      · exact absurd hsum List.not_mem_nil

/-- **No sum wraps around** of a file that is not too large. -/
theorem Valid.sumsFit (hv : Valid loads s) (hlimit : s.size ≤ sizeLimit) : s.SumsFit where
  part _ hoffset hslice := hv.processPartSums_fit hoffset hslice
  fill _ _ hcount hend hmost := hv.fillSums_fit hlimit hcount hend hmost
  cache := hv.cacheSums_fit hlimit

/-! ## The sizes that are accepted -/

/-- **The slices are enough for a file, and no sum of them ever wraps around, exactly when the
number of slices is counted without it.** -/
theorem sums_fit {useCache : Bool} (hsize : size < 2 ^ 32)
    (hnew : Slices.new size useCache = some s) :
    (size ≤ (slicesCountSum size).wrapped 32 * kInSlice ∧
        ∀ loads r, Reader.Reachable loads r → r.slices.size = size → r.slices.SumsFit) ↔
      size ≤ 2 ^ 32 - kInSlice := by
  have hslice : kInSlice = 8388608 := rfl
  rw [slicesCountSum_wrapped hsize]
  constructor
  · rintro ⟨hle, -⟩
    unfold slicesCount at hle
    rw [hslice] at hle ⊢
    omega
  · intro hle
    have hlimit := size_le_sizeLimit hnew hle
    refine ⟨?_, fun loads r hr hr_size => hr.inv.valid.sumsFit (hr_size ▸ hlimit)⟩
    have hvalue : sizeLimit = 4278190080 := rfl
    rw [hvalue] at hlimit
    unfold slicesCount
    rw [hslice]
    omega

/-- A file of 80 parts and three bytes. -/
theorem sums_fit_sample :
    80 * kPartSize + 3 ≤ (slicesCountSum (80 * kPartSize + 3)).wrapped 32 * kInSlice ∧
      ∀ loads r, Reader.Reachable loads r → r.slices.size = 80 * kPartSize + 3 →
        r.slices.SumsFit :=
  have hnew : Slices.new (80 * kPartSize + 3) true
      = some (Reader.sampleSlices false false false .unknown []) := by decide +kernel
  (sums_fit (by decide) hnew).mpr (by decide)

/-- **The largest size is accepted with no slices.** -/
theorem largest_without_slices :
    ¬ ∀ (size : ℕ) (useCache : Bool) (s : Slices), size < 2 ^ 32 →
      Slices.new size useCache = some s → size ≤ (slicesCountSum size).wrapped 32 * kInSlice := by
  intro h
  have hnew : Slices.new (2 ^ 32 - 1) false
      = some ⟨[], .empty, [], 2 ^ 32 - 1, .noCache⟩ := by decide +kernel
  have hle := h (2 ^ 32 - 1) false _ (by decide) hnew
  rw [slicesCountSum_wrapped (by decide)] at hle
  exact absurd hle (by decide +kernel)

end Yunogram.Media.Streaming
