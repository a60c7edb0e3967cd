import Yunogram.Media.StreamingSlices

/-!
# Media/SlicesHold — what the slices of a file hold, kept by all that is done to them

`Holds` says of the parts of one slice, or of the header, that they are parts of the file that are
there; `loads` is what may be loaded for an offset.  `Valid` says it of all slices, and of the mode of
the header that it is what the parts of the header say.

The result is `parseCacheEntry_serialize`: what is put to the cache is read back.
-/

namespace Yunogram.Media.Streaming

open Machinery

variable {size n offset : ℕ} {loads : ℕ → Bytes → Prop} {parts result : PartsMap} {bytes : Bytes}
  {s s' : Slices}

/-! ## Where a slice is -/

/-- Where a slice starts in the file; the header has offsets in the file as well. -/
def sliceStart (sliceNumber : ℕ) : ℕ := (sliceNumber - 1) * kInSlice

/-- **A part of a slice**, as it is in the file. -/
def PartOf (size : ℕ) (loads : ℕ → Bytes → Prop) (n : ℕ) (part : ℕ × Bytes) : Prop :=
  kPartSize ∣ part.1 ∧ part.1 < maxSliceSize n size ∧
    part.2.length = min kPartSize (maxSliceSize n size - part.1) ∧
    loads (sliceStart n + part.1) part.2

/-- **The parts are parts of the slice.** -/
def Holds (size : ℕ) (loads : ℕ → Bytes → Prop) (n : ℕ) (parts : PartsMap) : Prop :=
  ∀ part ∈ parts.entries, PartOf size loads n part

theorem Holds.wellFormed (h : Holds size loads n parts) : WellFormed (maxSliceSize n size) parts :=
  ⟨fun part hpart => ⟨(h part hpart).1, (h part hpart).2.1⟩, fun part hpart => (h part hpart).2.2.1⟩

theorem Holds.empty : Holds size loads n .empty := fun part hpart => absurd hpart (by
  simp [FlatMap.empty])

theorem Holds.emplace (h : Holds size loads n parts) (hpart : PartOf size loads n (offset, bytes)) :
    Holds size loads n (parts.emplace offset bytes) := by
  intro part hmem
  cases hfind : parts.find? offset with
  | none =>
    rcases List.mem_cons.mp ((FlatMap.perm_emplace hfind bytes).mem_iff.mp hmem) with rfl | hmem
    · exact hpart
    · exact h part hmem
  | some w =>
    rw [FlatMap.emplace_of_contains hfind] at hmem
    exact h part hmem

theorem Holds.foldl_emplace (h : Holds size loads n parts) {entries : List (ℕ × Bytes)}
    (hentries : ∀ part ∈ entries, PartOf size loads n part) :
    Holds size loads n (entries.foldl (fun parts part => parts.emplace part.1 part.2) parts) := by
  induction entries generalizing parts with
  | nil => exact h
  | cons part entries ih =>
    exact ih (h.emplace (hentries part List.mem_cons_self))
      fun b hb => hentries b (List.mem_cons_of_mem _ hb)

theorem Holds.foldl_erase (h : Holds size loads n parts) (keys : List ℕ) :
    Holds size loads n (keys.foldl FlatMap.erase parts) := by
  induction keys generalizing parts with
  | nil => exact h
  | cons k keys ih => exact ih fun part hpart => h part (List.mem_filter.mp hpart).1

/-- **A slice that is there is a whole one, or ends where the file does.** -/
theorem maxSliceSize_eq (hsize : size < 2 ^ 32) (hpos : 0 < n) (hn : n ≤ slicesCount size) :
    sliceStart n < size ∧ maxSliceSize n size = min kInSlice (size - sliceStart n) := by
  have hslice : kInSlice = 8388608 := rfl
  unfold sliceStart maxSliceSize
  unfold slicesCount at hn ⊢
  rw [hslice] at hn ⊢
  rw [if_neg (Nat.pos_iff_ne_zero.mp hpos)]
  split_ifs with hlast
  · omega
  · omega

theorem kPartSize_dvd_kInSlice : kPartSize ∣ kInSlice := ⟨64, rfl⟩

/-- A part is as long in its slice as it is in the file. -/
theorem min_sub_part {part slice start o : ℕ} (hpart : part ∣ o) (hslice : part ∣ slice)
    (ho : o < slice) : min part (min slice (size - start) - o) = min part (size - (start + o)) := by
  have hwhole : o + part ≤ slice :=
    Nat.le_of_lt_add_of_dvd (Nat.add_lt_add_right ho part) (Nat.dvd_add hpart (Nat.dvd_refl _)) hslice
  omega

/-- **A part of a slice is a part of the file**, and the other way round. -/
theorem partOf_slice_iff {index : ℕ} (hsize : size < 2 ^ 32) (hcount : index < slicesCount size)
    (hoffset : offset < kInSlice) :
    PartOf size loads (index + 1) (offset, bytes) ↔
      PartOf size loads 0 (index * kInSlice + offset, bytes) := by
  have hmax := (maxSliceSize_eq (n := index + 1) hsize (Nat.succ_pos _) hcount).2
  have hfile : maxSliceSize 0 size = size := rfl
  have hstart : sliceStart (index + 1) = index * kInSlice := rfl
  have hzero : sliceStart 0 = 0 := Nat.zero_mul _
  have hdvd : kPartSize ∣ index * kInSlice + offset ↔ kPartSize ∣ offset :=
    Nat.dvd_add_right (kPartSize_dvd_kInSlice.mul_left index)
  unfold PartOf
  dsimp only
  rw [hmax, hstart, hfile, hzero, Nat.zero_add, hdvd]
  refine and_congr_right fun hpart => and_congr ?_ (and_congr ?_ Iff.rfl)
  · generalize kInSlice = slice at *
    omega
  · rw [min_sub_part hpart kPartSize_dvd_kInSlice hoffset]

theorem PartOf.toSlice (hsize : size < 2 ^ 32) (hcount : offset / kInSlice < slicesCount size)
    (h : PartOf size loads 0 (offset, bytes)) :
    PartOf size loads (offset / kInSlice + 1) (offset - offset / kInSlice * kInSlice, bytes) := by
  have hmod : offset - offset / kInSlice * kInSlice = offset % kInSlice := by
    rw [Nat.mod_eq_sub_div_mul]
  rw [hmod, partOf_slice_iff hsize hcount (Nat.mod_lt _ (by decide)), Nat.div_add_mod']
  exact h

theorem PartOf.toFile {index : ℕ} (hsize : size < 2 ^ 32) (hcount : index < slicesCount size)
    (h : PartOf size loads (index + 1) (offset, bytes)) :
    PartOf size loads 0 (index * kInSlice + offset, bytes) := by
  have hmax := (maxSliceSize_eq (n := index + 1) hsize (Nat.succ_pos _) hcount).2
  exact (partOf_slice_iff hsize hcount
    (h.2.1.trans_le (hmax ▸ Nat.min_le_left _ _))).mp h

/-! ## All slices -/

/-- **What is always so of the slices of a file.** -/
structure Valid (loads : ℕ → Bytes → Prop) (s : Slices) : Prop where
  size : s.size < 2 ^ 32
  length : s.data.length = if isFullInHeader s.size then 0 else slicesCount s.size
  header : Holds s.size loads 0 s.header.parts
  slices : ∀ i slice, s.data[i]? = some slice → Holds s.size loads (i + 1) slice.parts
  headerSize : isFullInHeader s.size = false → s.header.parts.size ≤ kMaxPartsInHeader
  full : s.headerMode = .full → isFullInHeader s.size = true
  small : s.headerMode = .small →
    isFullInHeader s.size = false ∧ computeIsGoodHeader s.size s.header.parts = false
  good : s.headerMode = .good → computeIsGoodHeader s.size s.header.parts = true
  loading : s.header.loadingFromCache = true →
    s.headerMode = .unknown ∧ s.header.loadedFromCache = false
  unread : s.headerMode = .unknown → s.header.loadedFromCache = false → s.header.parts = .empty

theorem Valid.index (hv : Valid loads s) {i : ℕ} {slice : Slice} (h : s.data[i]? = some slice) :
    isFullInHeader s.size = false ∧ i < slicesCount s.size := by
  have hlt := (List.getElem?_eq_some_iff.mp h).1
  rw [hv.length] at hlt
  split_ifs at hlt with hfull
  · exact absurd hlt (Nat.not_lt_zero i)
  · exact ⟨Bool.not_eq_true _ ▸ hfull, hlt⟩

theorem Valid.setSlice (hv : Valid loads s) {i : ℕ} {slice slice' : Slice}
    (_h : s.data[i]? = some slice) (hslice : Holds s.size loads (i + 1) slice'.parts) :
    Valid loads { s with data := s.data.set i slice' } where
  size := hv.size
  length := by
    dsimp only
    rw [List.length_set]
    exact hv.length
  header := hv.header
  slices j other hj := by
    dsimp only at hj
    rw [List.getElem?_set] at hj
    split_ifs at hj with hij hlt
    · obtain rfl := hij
      obtain rfl := Option.some.inj hj
      exact hslice
    · exact hv.slices j other hj
  headerSize := hv.headerSize
  full := hv.full
  small := hv.small
  good := hv.good
  loading := hv.loading
  unread := hv.unread

/-- A new reader holds nothing. -/
theorem Valid.new {useCache : Bool} (hsize : size < 2 ^ 32) (h : Slices.new size useCache = some s) :
    Valid loads s := by
  unfold Slices.new at h
  rw [Option.ite_none_left_eq_some, Option.ite_none_left_eq_some] at h
  obtain rfl := Option.some.inj h.2.2
  constructor
  case size => exact hsize
  case length =>
    dsimp only
    split_ifs
    · rfl
    · exact List.length_replicate
  case header => exact Holds.empty
  case slices =>
    intro i slice hslice
    have hmem := List.mem_of_getElem? hslice
    dsimp only at hmem
    split_ifs at hmem with hfull
    · exact absurd hmem List.not_mem_nil
    · obtain rfl := List.eq_of_mem_replicate hmem
      exact Holds.empty
  case headerSize => exact fun _ => Nat.zero_le _
  case loading =>
    intro hloading
    dsimp only [Slice.empty] at hloading ⊢
    exact ⟨if_pos hloading, rfl⟩
  case unread => exact fun _ _ => rfl
  all_goals cases useCache <;> exact fun hmode => nomatch hmode

/-! ## Loading parts -/

theorem Slice.addPart_eq {slice slice' : Slice} (h : slice.addPart offset bytes = some slice') :
    slice.parts.find? offset = none ∧ slice' = { slice with
      parts := slice.parts.emplace offset bytes
      changedSinceCache := slice.changedSinceCache || slice.loadedFromCache } := by
  unfold Slice.addPart at h
  split_ifs at h with hcontains
  exact ⟨FlatMap.contains_eq_false.mp (Bool.not_eq_true _ ▸ hcontains), (Option.some.inj h).symm⟩

/-- **A part is added to the slice it is in, and nothing else changes.** -/
theorem addPartTo_eq {i : ℕ} (h : s.addPartTo i offset bytes = some s') :
    ∃ slice slice', s.data[i]? = some slice ∧ slice.addPart offset bytes = some slice' ∧
      s' = { s with data := s.data.set i slice' } := by
  unfold Slices.addPartTo at h
  split at h
  · exact nomatch h
  · next slice hslice =>
    split at h
    · exact nomatch h
    · next slice' hslice' => exact ⟨slice, slice', hslice, hslice', (Option.some.inj h).symm⟩

theorem Valid.addPartTo {i : ℕ} (hv : Valid loads s) (h : s.addPartTo i offset bytes = some s')
    (hpart : PartOf s.size loads (i + 1) (offset, bytes)) : Valid loads s' := by
  obtain ⟨slice, slice', hslice, hslice', rfl⟩ := addPartTo_eq h
  obtain ⟨-, rfl⟩ := Slice.addPart_eq hslice'
  exact hv.setSlice hslice ((hv.slices i slice hslice).emplace hpart)

theorem computeIsGoodHeader_full (hfull : isFullInHeader size = true) :
    computeIsGoodHeader size parts = false := by
  rw [computeIsGoodHeader, if_pos hfull]

/-- **A part that was loaded is added.** -/
theorem Valid.processPart (hv : Valid loads s) (h : s.processPart offset bytes = some s')
    (hread : s.headerMode = .unknown → s.header.loadedFromCache = true)
    (hpart : PartOf s.size loads 0 (offset, bytes)) : Valid loads s' := by
  unfold Slices.processPart at h
  split_ifs at h with hfull
  · obtain ⟨header, hheader, rfl⟩ := Option.map_eq_some_iff.mp h
    obtain ⟨-, rfl⟩ := Slice.addPart_eq hheader
    exact { hv with
      header := hv.header.emplace hpart
      headerSize := fun hnot => absurd hfull (by simp [hnot])
      small := fun hmode => absurd hfull (by simp [(hv.small hmode).1])
      good := fun hmode => absurd (hv.good hmode) (by simp [computeIsGoodHeader_full hfull])
      unread := fun hmode hloaded => absurd (hread hmode) (by simp [show
        s.header.loadedFromCache = false from hloaded]) }
  · obtain ⟨slice, -, hslice, -⟩ := addPartTo_eq h
    exact hv.addPartTo h (hpart.toSlice hv.size (hv.index hslice).2)

/-! ## Reading from the cache -/

/-- What a step leaves of the header. -/
structure SameHeader (s s' : Slices) : Prop where
  header : s'.header = s.header
  mode : s'.headerMode = s.headerMode
  size : s'.size = s.size

theorem SameHeader.refl (s : Slices) : SameHeader s s := ⟨rfl, rfl, rfl⟩

theorem addPartTo_sameHeader {i : ℕ} (h : s.addPartTo i offset bytes = some s') :
    SameHeader s s' := by
  obtain ⟨_, _, -, -, rfl⟩ := addPartTo_eq h
  exact ⟨rfl, rfl, rfl⟩

/-- **Parts of the header are added to the slices they are in.** -/
theorem Valid.applyWhile {till : ℕ} {entries : List (ℕ × Bytes)} (hv : Valid loads s)
    (h : Slices.applyWhile till entries s = some s')
    (hentries : ∀ part ∈ entries, PartOf s.size loads 0 part) :
    Valid loads s' ∧ SameHeader s s' := by
  induction entries generalizing s with
  | nil =>
    obtain rfl := Option.some.inj h
    exact ⟨hv, SameHeader.refl s⟩
  | cons part entries ih =>
    rw [Slices.applyWhile] at h
    split_ifs at h with htill
    · obtain rfl := Option.some.inj h
      exact ⟨hv, SameHeader.refl s⟩
    · split at h
      · exact nomatch h
      · next s₁ hadd =>
        obtain ⟨slice, -, hslice, -⟩ := addPartTo_eq hadd
        have hsame := addPartTo_sameHeader hadd
        have hpart := (hentries part List.mem_cons_self).toSlice hv.size (hv.index hslice).2
        obtain ⟨hv', hsame'⟩ := ih (hv.addPartTo hadd hpart) h fun b hb => by
          rw [hsame.size]
          exact hentries b (List.mem_cons_of_mem _ hb)
        exact ⟨hv', ⟨hsame'.header.trans hsame.header, hsame'.mode.trans hsame.mode,
          hsame'.size.trans hsame.size⟩⟩

/-- What the parts of the header say that it is. -/
def headerModeOf (s : Slices) : HeaderMode :=
  if isFullInHeader s.size then .full
  else if computeIsGoodHeader s.size s.header.parts then .good
  else .small

theorem headerModeOf_ne_unknown (s : Slices) : headerModeOf s ≠ .unknown := by
  unfold headerModeOf
  split_ifs <;> exact HeaderMode.noConfusion

theorem Valid.withMode (hv : Valid loads s) (hread : s.header.loadingFromCache = false) :
    Valid loads { s with headerMode := headerModeOf s } where
  size := hv.size
  length := hv.length
  header := hv.header
  slices := hv.slices
  headerSize := hv.headerSize
  full hmode := by
    dsimp only [headerModeOf] at hmode
    split_ifs at hmode with hfull
    exact hfull
  small hmode := by
    dsimp only [headerModeOf] at hmode
    split_ifs at hmode with hfull hgood
    exact ⟨Bool.not_eq_true _ ▸ hfull, Bool.not_eq_true _ ▸ hgood⟩
  good hmode := by
    dsimp only [headerModeOf] at hmode
    split_ifs at hmode with hfull hgood
    exact hgood
  loading hloading := absurd hloading (by simp [hread])
  unread hmode := absurd hmode (headerModeOf_ne_unknown s)

/-- Flags of the slices do not matter. -/
theorem Valid.mapFlags (hv : Valid loads s) {f : Slice → Slice}
    (hf : ∀ slice, (f slice).parts = slice.parts) :
    Valid loads { s with data := s.data.map f } :=
  { hv with
    length := by
      dsimp only
      rw [List.length_map]
      exact hv.length
    slices := fun i slice hslice => by
      dsimp only at hslice
      rw [List.getElem?_map] at hslice
      obtain ⟨slice', hslice', rfl⟩ := Option.map_eq_some_iff.mp hslice
      rw [hf]
      exact hv.slices i slice' hslice' }

theorem headerDone_eq (s : Slices) (fromCache : Bool) : s.headerDone fromCache =
    if s.headerMode ≠ .unknown then some s
    else if fromCache then some { s with headerMode := headerModeOf s }
    else if s.data.any fun slice => slice.loadingFromCache || slice.loadedFromCache then none
    else some { s with
      headerMode := headerModeOf s
      data := s.data.map fun slice => { slice with loadedFromCache := true } } := rfl

/-- **What the header is, is said by its parts**, once. -/
theorem Valid.headerDone {fromCache : Bool} (hv : Valid loads s)
    (hread : s.header.loadingFromCache = false) (h : s.headerDone fromCache = some s') :
    Valid loads s' ∧ s'.header = s.header ∧ s'.size = s.size ∧
      s'.headerMode = if s.headerMode = .unknown then headerModeOf s else s.headerMode := by
  rw [headerDone_eq] at h
  split_ifs at h with hmode hcache hflags
  · obtain rfl := Option.some.inj h
    exact ⟨hv, rfl, rfl, (if_neg hmode).symm⟩
  · obtain rfl := Option.some.inj h
    exact ⟨hv.withMode hread, rfl, rfl, (if_pos (not_not.mp hmode)).symm⟩
  · obtain rfl := Option.some.inj h
    exact ⟨(hv.withMode hread).mapFlags (f := fun slice => { slice with loadedFromCache := true })
      fun _ => rfl, rfl, rfl, (if_pos (not_not.mp hmode)).symm⟩

theorem Slice.processCacheData_eq {slice slice' : Slice} {data : PartsMap}
    (h : slice.processCacheData data = some slice') :
    slice.loadingFromCache = true ∧ slice.loadedFromCache = false ∧ slice' = { slice with
      parts := data.entries.foldl (fun parts part => parts.emplace part.1 part.2) slice.parts
      loadedFromCache := true
      loadingFromCache := false } := by
  unfold Slice.processCacheData at h
  split_ifs at h with hflags hempty
  · obtain rfl := Option.some.inj h
    have hparts : slice.parts = .empty := FlatMap.ext (FlatMap.isEmpty_iff.mp hempty)
    rw [hparts, foldl_emplace_entries]
    exact ⟨hflags.1, Bool.not_eq_true _ ▸ hflags.2, rfl⟩
  · obtain rfl := Option.some.inj h
    exact ⟨hflags.1, Bool.not_eq_true _ ▸ hflags.2, rfl⟩

/-- **What a slice has in the cache is added to it.** -/
theorem Valid.processCacheResult_slice (hv : Valid loads s) (hn : n ≠ 0)
    (hresult : Holds s.size loads n result) (h : s.processCacheResult n result = some s') :
    Valid loads s' ∧ SameHeader s s' := by
  obtain ⟨i, rfl⟩ := Nat.exists_eq_succ_of_ne_zero hn
  rw [Slices.processCacheResult, if_neg hn, Nat.succ_sub_one] at h
  split at h
  · exact nomatch h
  · next slice hslice =>
    split_ifs at h with hloading
    · split at h
      · exact nomatch h
      · next slice' hslice' =>
        obtain rfl := Option.some.inj h
        obtain ⟨-, -, rfl⟩ := Slice.processCacheData_eq hslice'
        exact ⟨hv.setSlice hslice ((hv.slices i slice hslice).foldl_emplace hresult), rfl, rfl, rfl⟩
    · obtain rfl := Option.some.inj h
      exact ⟨hv, SameHeader.refl s⟩

theorem headerModeOf_congr (hsize : s'.size = s.size) (hparts : s'.header.parts = s.header.parts) :
    headerModeOf s' = headerModeOf s := by
  rw [headerModeOf, headerModeOf, hsize, hparts]

theorem Valid.applyHeaderCacheData (hv : Valid loads s)
    (hread : s.header.loadingFromCache = false) (h : s.applyHeaderCacheData = some s') :
    Valid loads s' ∧ s'.header = s.header ∧ s'.size = s.size ∧ s'.headerMode =
      if s.headerMode = .unknown ∧ s.header.parts.isEmpty = false then headerModeOf s
      else s.headerMode := by
  unfold Slices.applyHeaderCacheData at h
  split_ifs at h with hempty hgood hmode hfull
  · obtain rfl := Option.some.inj h
    exact ⟨hv, rfl, rfl, (if_neg (by simp [hempty])).symm⟩
  · obtain ⟨hv', hsame⟩ := hv.applyWhile h hv.header
    exact ⟨hv', hsame.header, hsame.size, hsame.mode.trans (if_neg (by simp [hgood])).symm⟩
  · obtain rfl := Option.some.inj h
    exact ⟨hv, rfl, rfl, (if_neg fun hunknown => hmode hunknown.1).symm⟩
  · obtain ⟨hv', hheader, hsize, hdone⟩ := hv.headerDone hread h
    rw [if_pos (not_not.mp hmode)] at hdone
    exact ⟨hv', hheader, hsize, hdone.trans
      (if_pos ⟨not_not.mp hmode, Bool.not_eq_true _ ▸ hempty⟩).symm⟩
  · split at h
    · exact nomatch h
    · next s₁ happly =>
      obtain ⟨hv₁, hsame⟩ := hv.applyWhile happly hv.header
      obtain ⟨hv', hheader, hsize, hdone⟩ := hv₁.headerDone (hsame.header ▸ hread) h
      rw [if_pos (hsame.mode.trans (not_not.mp hmode)),
        headerModeOf_congr hsame.size (congrArg Slice.parts hsame.header)] at hdone
      exact ⟨hv', hheader.trans hsame.header, hsize.trans hsame.size, hdone.trans
        (if_pos ⟨not_not.mp hmode, Bool.not_eq_true _ ▸ hempty⟩).symm⟩

/-- Parts that are there are not added again. -/
theorem foldl_emplace_self {entries : List (ℕ × Bytes)}
    (h : ∀ part ∈ entries, part ∈ parts.entries) :
    entries.foldl (fun parts part => parts.emplace part.1 part.2) parts = parts := by
  induction entries with
  | nil => rfl
  | cons part entries ih =>
    rw [List.foldl_cons, FlatMap.emplace_of_contains
      (FlatMap.find?_eq_some.mpr (h part List.mem_cons_self))]
    exact ih fun b hb => h b (List.mem_cons_of_mem _ hb)

/-- **What comes after the header was read**: it is applied, and the first slice of a good one waits
for what comes with it. -/
theorem Valid.processCacheHeader {header header' : Slice} (hloading : header.loadingFromCache = true)
    (hdata : header.processCacheData result = some header')
    (hv : Valid loads { s with header := header' })
    (h : s.processCacheHeader header result = some s') :
    Valid loads s' ∧ s'.header = header' ∧ s'.size = s.size ∧ s'.headerMode =
      if s.headerMode = .unknown ∧ header'.parts.isEmpty = false
      then headerModeOf { s with header := header' } else s.headerMode := by
  obtain ⟨-, -, hheader'⟩ := Slice.processCacheData_eq hdata
  have hread : header'.loadingFromCache = false := by rw [hheader']
  unfold Slices.processCacheHeader at h
  rw [if_neg (not_not.mpr hloading), hdata] at h
  dsimp only at h
  split at h
  · exact nomatch h
  · next s₁ happly =>
    obtain ⟨hv₁, hsame, hsize, hmode⟩ := hv.applyHeaderCacheData hread happly
    split_ifs at h with hgood
    · split at h
      · exact nomatch h
      · next first hfirst =>
        obtain rfl := Option.some.inj h
        exact ⟨hv₁.setSlice hfirst (hv₁.slices 0 first hfirst), hsame, hsize, hmode⟩
    · obtain rfl := Option.some.inj h
      exact ⟨hv₁, hsame, hsize, hmode⟩

/-- What a result for the header leaves: the parts of it and what it is are as before, or they were
not known and are what was read. -/
def HeaderRead (result : PartsMap) (s s' : Slices) : Prop :=
  s'.headerMode = s.headerMode ∧ s'.header.parts = s.header.parts ∧
      (s.headerMode = .unknown → s'.header = s.header) ∨
    s.headerMode = .unknown ∧ s.header.loadedFromCache = false ∧ s'.header.parts = result ∧
      s'.header.loadedFromCache = true ∧
      s'.headerMode = if result.isEmpty then .unknown else headerModeOf s'

/-- **What the header has in the cache is added to it.** -/
theorem Valid.processCacheResult_header (hv : Valid loads s)
    (hresult : Holds s.size loads 0 result)
    (hcount : isFullInHeader s.size = false → result.size ≤ kMaxPartsInHeader)
    (hsame : s.headerMode = .good → result = s.header.parts ∨ result = .empty)
    (h : s.processCacheResult 0 result = some s') :
    Valid loads s' ∧ s'.size = s.size ∧ HeaderRead result s s' := by
  rw [Slices.processCacheResult, if_pos rfl] at h
  split_ifs at h with hgood
  · have hmode : s.headerMode = .good := of_decide_eq_true hgood
    have hne : ¬s.headerMode = .unknown := by simp [hmode]
    split at h
    · exact nomatch h
    · next first hfirst =>
      split_ifs at h with hloading
      · obtain ⟨header', hdata⟩ : ∃ header', Slice.processCacheData
            { s.header with loadingFromCache := true, loadedFromCache := false } result
              = some header' := by
          rw [Slice.processCacheData, if_pos (by simp)]
          exact ⟨_, rfl⟩
        have hheader' := (Slice.processCacheData_eq hdata).2.2
        have hparts : header'.parts = s.header.parts := by
          rw [hheader']
          rcases hsame hmode with heq | heq
          · exact foldl_emplace_self fun part hpart => heq ▸ hpart
          · rw [heq]
            rfl
        have hv' : Valid loads { s with header := header' } :=
          { hv with
            header := hparts ▸ hv.header
            headerSize := hparts ▸ hv.headerSize
            small := hparts ▸ hv.small
            good := hparts ▸ hv.good
            loading := fun hloading => absurd hloading (by simp [hheader'])
            unread := fun hmode => absurd hmode hne }
        obtain ⟨hv₁, hheader, hsize, hdone⟩ := Valid.processCacheHeader rfl hdata hv' h
        rw [if_neg fun hunknown => hne hunknown.1] at hdone
        exact ⟨hv₁, hsize, Or.inl ⟨hdone, (congrArg Slice.parts hheader).trans hparts,
          fun hmode => absurd hmode hne⟩⟩
      · obtain rfl := Option.some.inj h
        exact ⟨hv, rfl, Or.inl ⟨rfl, rfl, fun _ => rfl⟩⟩
  · by_cases hloading : s.header.loadingFromCache = true
    · obtain ⟨hmode, hunread⟩ := hv.loading hloading
      have hempty := hv.unread hmode hunread
      obtain ⟨header', hdata⟩ : ∃ header', s.header.processCacheData result = some header' := by
        rw [Slice.processCacheData, if_pos ⟨hloading, by simp [hunread]⟩]
        exact ⟨_, rfl⟩
      have hheader' := (Slice.processCacheData_eq hdata).2.2
      have hparts : header'.parts = result := by
        rw [hheader', hempty]
        exact foldl_emplace_entries result
      have hv' : Valid loads { s with header := header' } :=
        { hv with
          header := hparts ▸ hresult
          headerSize := hparts ▸ hcount
          small := fun hsmall => absurd (hmode.symm.trans hsmall) (by decide)
          good := fun hgood' => absurd (hmode.symm.trans hgood') (by decide)
          loading := fun hloading => absurd hloading (by simp [hheader'])
          unread := fun _ hloaded => absurd hloaded (by simp [hheader']) }
      obtain ⟨hv₁, hheader, hsize, hdone⟩ := Valid.processCacheHeader hloading hdata hv' h
      refine ⟨hv₁, hsize, Or.inr ⟨hmode, hunread, (congrArg Slice.parts hheader).trans hparts, ?_, ?_⟩⟩
      · rw [hheader, hheader']
      · rw [hdone, hparts, headerModeOf_congr (s := { s with header := header' }) hsize
          (congrArg Slice.parts hheader), hmode]
        cases result.isEmpty <;> simp
    · rw [Slices.processCacheHeader, if_pos hloading] at h
      obtain rfl := Option.some.inj h
      exact ⟨hv, rfl, Or.inl ⟨rfl, rfl, fun _ => rfl⟩⟩

/-! ## Putting to the cache -/

/-- The parts of the first slice that are not in the header. -/
def noHeaderParts (s : Slices) (first : Slice) : PartsMap :=
  s.header.parts.keys.foldl FlatMap.erase first.parts

/-- The slice with a number; the one with number 0 is the header. -/
def sliceAt (s : Slices) (sliceNumber : ℕ) : Option Slice :=
  if sliceNumber = 0 then some s.header else s.data[sliceNumber - 1]?

/-- **What an entry of the cache should give back.** -/
def cacheEntry (s : Slices) (sliceNumber : ℕ) : ParsedCacheEntry :=
  if sliceNumber = 0 ∧ s.isGoodHeader then
    ⟨s.header.parts, some (noHeaderParts s (s.data.getD 0 .empty))⟩
  else ⟨((sliceAt s sliceNumber).getD .empty).parts, none⟩

theorem kInSlice_eq : kInSlice = kPartsInSlice * kPartSize := rfl

theorem kMaxOnlyInHeader_div : kMaxOnlyInHeader / kPartSize = 80 := rfl

theorem Valid.sliceAt (hv : Valid loads s) {slice : Slice} (h : sliceAt s n = some slice) :
    Holds s.size loads n slice.parts ∧ slice.parts.size ≤ kMaxOnlyInHeader / kPartSize ∧
      (n ≠ 0 → maxSliceSize n s.size ≤ kInSlice) := by
  rw [kMaxOnlyInHeader_div]
  unfold Streaming.sliceAt at h
  split_ifs at h with hn
  · obtain rfl := hn
    obtain rfl := Option.some.inj h
    refine ⟨hv.header, ?_, fun hne => absurd rfl hne⟩
    cases hfull : isFullInHeader s.size with
    | true =>
      exact hv.header.wellFormed.size_le (of_decide_eq_true hfull)
    | false => exact (hv.headerSize hfull).trans (by decide)
  · obtain ⟨i, rfl⟩ := Nat.exists_eq_succ_of_ne_zero hn
    have hholds := hv.slices i slice h
    have hmax := (maxSliceSize_eq (n := i + 1) hv.size (Nat.succ_pos i) (hv.index h).2).2
    have hle : maxSliceSize (i + 1) s.size ≤ kInSlice := hmax ▸ Nat.min_le_left _ _
    exact ⟨hholds, (hholds.wellFormed.size_le hle).trans (by decide), fun _ => hle⟩

/-- **Parts of the first slice alone are a good header**, of a file that is not all in the header. -/
theorem computeIsGoodHeader_of_lt (hfull : isFullInHeader size = false)
    (h : ∀ part ∈ parts.entries, part.1 < kInSlice) : computeIsGoodHeader size parts = true := by
  have hnone : parts.keys.filter (kInSlice ≤ ·) = [] := by
    rw [List.filter_eq_nil_iff]
    intro k hk
    obtain ⟨v, hv⟩ := FlatMap.mem_keys.mp hk
    have hlt := h (k, v) (FlatMap.find?_eq_some.mp hv)
    rw [decide_eq_true_iff, Nat.not_le]
    exact hlt
  rw [computeIsGoodHeader, if_neg (by simp [hfull]), hnone]
  rfl

/-- What is left once an entry was put to the cache. -/
def unloaded (s : Slices) (sliceNumber : ℕ) : Slices :=
  if sliceNumber = 0 then { s with header := { s.header with changedSinceCache := false } }
  else { s with data := s.data.set (sliceNumber - 1) .empty }

/-- The data of the header with the first slice. -/
def headerData (s : Slices) (first : Slice) : Bytes :=
  padded (toInt (maxSliceSize 0 s.size)) 3
    (serializeComplexPartsMap s.header.parts ++ serializeComplexPartsMap (noHeaderParts s first))

/-- The data of any other slice. -/
def sliceData (size sliceNumber : ℕ) (parts : PartsMap) (last : ℕ × Bytes) : Bytes :=
  if last.1 < findNotLoadedStart parts.entries 0 then parts.entries.flatMap Prod.snd
  else padded (toInt (maxSliceSize sliceNumber size)) 3 (serializeComplexPartsMap parts)

/-- **What is put to the cache**: the header with the first slice, or one slice. -/
theorem serializeAndUnloadSlice_eq {slice : SerializedSlice}
    (h : s.serializeAndUnloadSlice n = some (s', slice)) :
    s.headerMode ≠ .unknown ∧ s.headerMode ≠ .noCache ∧
      ((s.headerMode = .good ∧ slice.number = 0 ∧ s.header.parts.entries ≠ [] ∧
        ∃ first, s.data[0]? = some first ∧ first.loadedFromCache = true ∧ slice.data = headerData s first ∧
        s' = unloaded { s with data := s.data.set 0 .empty } 0) ∨
      (¬(s.headerMode = .good ∧ slice.number = 0) ∧ ∃ kept, sliceAt s slice.number = some kept ∧
        ∃ last ∈ kept.parts.entries.getLast?,
          slice.data = sliceData s.size slice.number kept.parts last ∧
          s' = unloaded s slice.number)) := by
  unfold Slices.serializeAndUnloadSlice at h
  rw [Option.ite_none_left_eq_some] at h
  obtain ⟨hmode, h⟩ := h
  refine ⟨fun hunknown => hmode (Or.inl hunknown), fun hcache => hmode (Or.inr (Or.inl hcache)), ?_⟩
  dsimp only at h
  generalize (if s.isGoodHeader = true ∧ n = 1 then 0 else n) = number at h
  have hgood : s.isGoodHeader = true ↔ s.headerMode = .good := decide_eq_true_iff
  split at h
  · exact nomatch h
  · next kept hkept =>
    split at h
    · exact nomatch h
    · next last hlast =>
      by_cases hheader : s.isGoodHeader = true ∧ number = 0
      · obtain ⟨hmodeGood, rfl⟩ := hheader
        obtain rfl := Option.some.inj hkept
        simp only [hmodeGood, and_self, if_true, Nat.not_lt_zero, if_false,
          Slices.serializeAndUnloadFirstSliceNoHeader] at h
        cases hfirst : s.data[0]? with
        | none => simp [hfirst] at h
        | some first =>
          cases hloaded : first.loadedFromCache with
          | false => simp [hfirst, hloaded] at h
          | true =>
            simp only [hfirst, hloaded, not_true_eq_false, if_false, Option.map_some,
              Option.some.injEq, Prod.mk.injEq] at h
            obtain ⟨rfl, rfl⟩ := h
            have hne : s.header.parts.entries ≠ [] := fun hnil => absurd hlast (by simp [hnil])
            refine Or.inl ⟨hgood.mp hmodeGood, rfl, hne, first, rfl, hloaded, ?_, rfl⟩
            dsimp only [headerData, noHeaderParts]
      · rw [if_neg hheader, if_neg hheader] at h
        have hdata : (if last.1 < findNotLoadedStart kept.parts.entries 0
            then some (s, kept.parts.entries.flatMap Prod.snd)
            else some (s, padded (toInt (maxSliceSize number s.size)) 3
              (serializeComplexPartsMap kept.parts)))
              = some (s, sliceData s.size number kept.parts last) := by
          unfold sliceData
          split_ifs <;> rfl
        rw [hdata] at h
        obtain ⟨rfl, rfl⟩ := Prod.mk.inj (Option.some.inj h)
        exact Or.inr ⟨fun hnot => hheader ⟨hgood.mpr hnot.1, hnot.2⟩, kept, hkept, last, hlast, rfl,
          rfl⟩

/-- The parts of a slice with their offsets take less than 11 MiB. -/
theorem length_serialize_lt {slice : ℕ} (h : WellFormed slice parts)
    (hcount : parts.size ≤ kMaxOnlyInHeader / kPartSize) :
    (serializeComplexPartsMap parts).length < 11 * 2 ^ 20 := by
  have hsum := h.sum_length_le
  rw [length_serializeComplexPartsMap]
  rw [kMaxOnlyInHeader_div] at hcount
  have hpart : kPartSize = 131072 := rfl
  rw [hpart] at hsum
  omega

/-- **A header that is no good one has a gap**: it has parts outside of the first slice, and not the
whole of that. -/
theorem Valid.small_gap (hv : Valid loads s) (hmode : s.headerMode = .small) {last : ℕ × Bytes}
    (hlast : last ∈ s.header.parts.entries.getLast?) :
    ¬last.1 < findNotLoadedStart s.header.parts.entries 0 := by
  intro hlt
  obtain ⟨hfull, hgood⟩ := hv.small hmode
  have hconsecutive := consecutive_of_findNotLoadedStart s.header.parts.sorted
    (fun part hpart => ⟨(hv.header part hpart).1, (hv.header part hpart).2.1,
      (hv.header part hpart).2.2.1⟩) (Nat.dvd_zero _) (fun _ _ => Nat.zero_le _)
    (fun other hother => by rwa [← Option.mem_unique hlast hother])
  have hwhole : computeIsGoodHeader s.size s.header.parts = true :=
    computeIsGoodHeader_of_lt hfull fun part hpart => by
      have hpos := hconsecutive.lt part hpart
      rw [Nat.zero_add] at hpos
      exact hpos.trans_le (Nat.mul_le_mul_right kPartSize (hv.headerSize hfull))
  exact absurd hwhole (by simp [hgood])

/-- **A slice that was put to the cache is read back.** -/
theorem Valid.parseCachedMap_sliceData (hv : Valid loads s) {kept : Slice} {last : ℕ × Bytes}
    (hkept : Streaming.sliceAt s n = some kept) (hlast : last ∈ kept.parts.entries.getLast?)
    (hunknown : s.headerMode ≠ .unknown) (hcache : s.headerMode ≠ .noCache)
    (hgood : ¬(s.headerMode = .good ∧ n = 0)) :
    (parseCachedMap (sliceData s.size n kept.parts last) (maxSliceSize n s.size)).1 = kept.parts := by
  obtain ⟨hholds, hcount, hmax⟩ := hv.sliceAt hkept
  have hsize : maxSliceSize n s.size < 2 ^ 32 := by
    by_cases hn : n = 0
    · rw [hn]
      exact hv.size
    · exact (hmax hn).trans_lt (by decide)
  unfold sliceData
  split_ifs with hcontiguous
  · have hsmall : maxSliceSize n s.size < 2 ^ 31 := by
      by_cases hn : n = 0
      · obtain rfl := hn
        obtain rfl := Option.some.inj hkept
        cases hmode : s.headerMode with
        | unknown => exact absurd hmode hunknown
        | noCache => exact absurd hmode hcache
        | good => exact absurd ⟨hmode, rfl⟩ hgood
        | small => exact absurd hcontiguous (hv.small_gap hmode hlast)
        | full => exact (of_decide_eq_true (hv.full hmode)).trans_lt (by decide)
      · exact (hmax hn).trans_lt (by decide)
    rw [parseCachedMap_contiguous hsmall hholds.wellFormed
      (fun hnil => absurd hlast (by simp [hnil]))
      (fun other hother => by rwa [← Option.mem_unique hlast hother])]
  · have hlength := length_serialize_lt hholds.wellFormed hcount
    obtain ⟨zeros, -, hpadded, hnot⟩ := padded_eq (serializeComplexPartsMap kept.parts)
      (toInt (maxSliceSize n s.size)) (by omega)
    rw [hpadded, parseCachedMap_complex hsize hholds.wellFormed hcount hnot]

/-- **The header with the first slice is read back.** -/
theorem Valid.parseCachedMap_headerData (hv : Valid loads s) {first : Slice} (hfirst : s.data[0]? = some first) :
    ∃ rest, parseCachedMap (headerData s first) s.size = (s.header.parts, rest) ∧
      (parseCachedMap rest (maxSliceSize 1 s.size)).1 = noHeaderParts s first := by
  obtain ⟨hheader, hcount, -⟩ := hv.sliceAt (show Streaming.sliceAt s 0 = some s.header from rfl)
  obtain ⟨hfull, hindex⟩ := hv.index hfirst
  have hlarge : kMaxOnlyInHeader < s.size := Nat.lt_of_not_le (of_decide_eq_false hfull)
  have hwhole : maxSliceSize 1 s.size = kInSlice := by
    rw [(maxSliceSize_eq (n := 1) hv.size Nat.one_pos hindex).2]
    refine Nat.min_eq_left ?_
    have hle : kInSlice ≤ kMaxOnlyInHeader := by decide
    exact hle.trans hlarge.le
  have hrest : WellFormed kInSlice (noHeaderParts s first) :=
    hwhole ▸ ((hv.slices 0 first hfirst).foldl_erase s.header.parts.keys).wellFormed
  have hrestCount : (noHeaderParts s first).size ≤ kMaxOnlyInHeader / kPartSize :=
    (hrest.size_le (Nat.le_refl _)).trans (by decide)
  have hheaderLength := length_serialize_lt hheader.wellFormed hcount
  have hrestLength := length_serialize_lt hrest hrestCount
  obtain ⟨zeros, hzeros, hpadded, hnot⟩ := padded_eq
    (serializeComplexPartsMap s.header.parts ++ serializeComplexPartsMap (noHeaderParts s first))
    (toInt (maxSliceSize 0 s.size)) (by rw [List.length_append]; omega)
  rw [List.append_assoc] at hpadded hnot
  refine ⟨serializeComplexPartsMap (noHeaderParts s first) ++ List.replicate zeros 0, ?_, ?_⟩
  · rw [headerData, hpadded]
    exact parseCachedMap_complex hv.size hheader.wellFormed hcount hnot
  · rw [hwhole, parseCachedMap_complex (by decide) hrest hrestCount
      (isContiguousSerialization_whole hrest hzeros)]

/-- **What is put to the cache is read back.** -/
theorem Valid.parseCacheEntry_serialize (hv : Valid loads s) {slice : SerializedSlice}
    (h : s.serializeAndUnloadSlice n = some (s', slice)) :
    parseCacheEntry slice.data slice.number s.size = cacheEntry s slice.number := by
  obtain ⟨hunknown, hcache, hheader | hslice⟩ := serializeAndUnloadSlice_eq h
  · obtain ⟨hmode, hnumber, -, first, hfirst, -, hdata, -⟩ := hheader
    obtain ⟨rest, hparse, hincluded⟩ := hv.parseCachedMap_headerData hfirst
    have hgood : s.isGoodHeader = true := decide_eq_true hmode
    have hentry : cacheEntry s 0 = ⟨s.header.parts, some (noHeaderParts s first)⟩ := by
      rw [cacheEntry, if_pos ⟨rfl, hgood⟩, List.getD_eq_getElem?_getD, hfirst, Option.getD_some]
    rw [hnumber, hdata, hentry, parseCacheEntry, show maxSliceSize 0 s.size = s.size from rfl, hparse,
      if_pos ⟨rfl, hv.good hmode⟩, hincluded]
  · obtain ⟨hgood, kept, hkept, last, hlast, hdata, -⟩ := hslice
    have hparse := hv.parseCachedMap_sliceData hkept hlast hunknown hcache hgood
    have hplain : ¬(slice.number = 0 ∧ s.isGoodHeader = true) := fun hnot =>
      hgood ⟨of_decide_eq_true hnot.2, hnot.1⟩
    have hnot : ¬(slice.number = 0 ∧ computeIsGoodHeader s.size kept.parts = true) := by
      rintro ⟨hnumber, hcompute⟩
      rw [hnumber] at hkept hgood
      obtain rfl := Option.some.inj hkept
      cases hmode : s.headerMode with
      | unknown => exact hunknown hmode
      | noCache => exact hcache hmode
      | good => exact hgood ⟨hmode, rfl⟩
      | small => exact absurd hcompute (by simp [(hv.small hmode).2])
      | full => exact absurd hcompute (by simp [computeIsGoodHeader_full (hv.full hmode)])
    rw [hdata, parseCacheEntry, hparse, if_neg hnot, cacheEntry, if_neg hplain, hkept,
      Option.getD_some]

end Yunogram.Media.Streaming
