import Yunogram.Media.StreamingFill

/-!
# Media/StreamingRuns — buffers filled by a reader, whatever happened to it

A reader gives to its slices what was read from the cache, the first slice with the header that it
came with, and the parts that were loaded, each of which is new to them.  `SliceOk` is what this
keeps of a slice: while it is not read, it has none of the parts that are added to it when the
header is read.

The result is `buffers_filled`: a buffer that was filled has the bytes of the file, what is missing
is waited for, and no part is added where it is. -/

namespace Yunogram.Media.Streaming

open Machinery Slices

variable {size n offset count till : ℕ} {parts result : PartsMap} {bytes file : Bytes}
  {s s' : Slices} {entries : List (ℕ × Bytes)} {loads : ℕ → Bytes → Prop} {slice slice' : Slice} {i : ℕ}

/-! ## What a slice keeps -/

/-- **What is always so of one slice**: nothing is read of it before it is known what the header is;
it waits only for what it was not given; and the parts of a good header are not in the first one
before it was read. -/
structure SliceOk (s : Slices) (i : ℕ) (slice : Slice) : Prop where
  unknown : s.headerMode = .unknown → slice.loadingFromCache = false ∧ slice.loadedFromCache = false ∧
    (s.header.loadedFromCache = false → slice.parts = .empty)
  loading : slice.loadingFromCache = true → slice.loadedFromCache = false
  first : s.headerMode = .good → i = 0 → slice.loadedFromCache = false →
    ∀ part ∈ s.header.parts.entries, part.1 < kInSlice → slice.parts.find? part.1 = none

/-- It is so of all slices. -/
def AllOk (s : Slices) : Prop := ∀ i slice, s.data[i]? = some slice → SliceOk s i slice

theorem SliceOk.empty (s : Slices) (i : ℕ) : SliceOk s i .empty :=
  ⟨fun _ => ⟨rfl, rfl, fun _ => rfl⟩, fun _ => rfl, fun _ _ _ _ _ _ => rfl⟩

theorem SliceOk.keeps (h : SliceOk s i slice) (hkeeps : KeepsHeader s s') : SliceOk s' i slice where
  unknown hmode := by
    have hunknown := hkeeps.mode ▸ hmode
    rw [hkeeps.loaded hunknown]
    exact h.unknown hunknown
  loading := h.loading
  first hmode hi hloaded := by
    have hgood := hkeeps.mode ▸ hmode
    rw [hkeeps.parts hgood]
    exact h.first hgood hi hloaded

/-- **What fills and what is unloaded do to the slices**: they are emptied, or wait for the cache.
-/
def Relaxes (s s' : Slices) : Prop :=
  ∀ (i : ℕ) (slice' : Slice), s'.data[i]? = some slice' → slice' = .empty ∨
    ∃ slice, s.data[i]? = some slice ∧
    (slice' = slice ∨ slice' = { slice with loadingFromCache := true } ∧
      s.headerMode ≠ .unknown ∧ slice.loadedFromCache = false)

theorem AllOk.relaxes (h : AllOk s) (hkeeps : KeepsHeader s s') (hrelaxes : Relaxes s s') :
    AllOk s' := by
  intro i slice' hslice'
  rcases hrelaxes i slice' hslice' with rfl | ⟨slice, hslice, rfl | ⟨rfl, hmode, hloaded⟩⟩
  · exact SliceOk.empty s' i
  · exact (h i slice' hslice).keeps hkeeps
  · have hok := (h i slice hslice).keeps hkeeps
    exact ⟨fun hunknown => absurd (hkeeps.mode ▸ hunknown) hmode, fun _ => hloaded, hok.first⟩

/-- What is unloaded is emptied. -/
def Drops (s s' : Slices) : Prop :=
  ∀ (i : ℕ) (slice' : Slice), s'.data[i]? = some slice' → slice' = .empty ∨ s.data[i]? = some slice'

theorem Drops.relaxes (h : Drops s s') : Relaxes s s' := fun i _ hslice' =>
  (h i _ hslice').imp_right fun hsame => ⟨_, hsame, Or.inl rfl⟩

theorem Drops.of_data_left {s₁ : Slices} (h : Drops s₁ s') (hdata : s₁.data = s.data) :
    Drops s s' := by
  intro i slice' hslice'
  have hi := h i slice' hslice'
  rwa [hdata] at hi

theorem Drops.of_data (h : s'.data = s.data) : Drops s s' := fun _ _ hslice' =>
  Or.inr (h ▸ hslice')

theorem Drops.set_empty (s : Slices) (i : ℕ) : Drops s { s with data := s.data.set i .empty } := by
  intro j slice' hslice'
  dsimp only at hslice'
  rw [List.getElem?_set] at hslice'
  split_ifs at hslice' with hij hlt
  · exact Or.inl (Option.some.inj hslice').symm
  · exact Or.inr hslice'

theorem Drops.unloaded (s : Slices) (n : ℕ) : Drops s (unloaded s n) := by
  unfold Streaming.unloaded
  split_ifs
  · exact Drops.of_data rfl
  · exact Drops.set_empty s _

theorem serializeAndUnloadSlice_drops {slice : SerializedSlice}
    (h : s.serializeAndUnloadSlice n = some (s', slice)) : Drops s s' := by
  obtain ⟨-, -, hheader | hslice⟩ := serializeAndUnloadSlice_eq h
  · obtain ⟨-, -, -, first, -, -, -, rfl⟩ := hheader
    exact Drops.set_empty s 0
  · obtain ⟨-, _, -, _, -, -, rfl⟩ := hslice
    exact Drops.unloaded s slice.number

theorem serializeAndUnloadUnused_drops {toCache : Option SerializedSlice}
    (h : s.serializeAndUnloadUnused = some (s', toCache)) : Drops s s' := by
  unfold serializeAndUnloadUnused at h
  split_ifs at h
  · obtain ⟨rfl, -⟩ := Prod.mk.inj (Option.some.inj h)
    exact Drops.of_data rfl
  · split at h
    · obtain ⟨rfl, -⟩ := Prod.mk.inj (Option.some.inj h)
      exact Drops.of_data rfl
    · next purgeSlice usedSlices _ =>
      dsimp only at h
      split at h
      · exact nomatch h
      · split_ifs at h
        · obtain ⟨rfl, -⟩ := Prod.mk.inj (Option.some.inj h)
          exact (Drops.set_empty { s with usedSlices } purgeSlice).of_data_left rfl
        · obtain ⟨⟨s₁, slice⟩, hserialize, heq⟩ := Option.map_eq_some_iff.mp h
          obtain ⟨rfl, -⟩ := Prod.mk.inj heq
          exact (serializeAndUnloadSlice_drops hserialize).of_data_left rfl
        · obtain ⟨rfl, -⟩ := Prod.mk.inj (Option.some.inj h)
          exact Drops.of_data rfl

theorem unloadToCache_drops {toCache : Option SerializedSlice}
    (h : s.unloadToCache = some (s', toCache)) : Drops s s' := by
  unfold unloadToCache at h
  split_ifs at h
  · obtain ⟨rfl, -⟩ := Prod.mk.inj (Option.some.inj h)
    exact Drops.of_data rfl
  · obtain ⟨⟨s₁, slice⟩, hserialize, heq⟩ := Option.map_eq_some_iff.mp h
    obtain ⟨rfl, -⟩ := Prod.mk.inj heq
    exact serializeAndUnloadSlice_drops hserialize
  · split at h
    · obtain ⟨rfl, -⟩ := Prod.mk.inj (Option.some.inj h)
      exact Drops.of_data rfl
    · obtain ⟨⟨s₁, slice⟩, hserialize, heq⟩ := Option.map_eq_some_iff.mp h
      obtain ⟨rfl, -⟩ := Prod.mk.inj heq
      exact serializeAndUnloadSlice_drops hserialize

/-- A slice that is not loaded may wait for the cache. -/
theorem handleReadFromCache_relaxes (s : Slices) (i : ℕ) (result : FillResult) :
    Relaxes s (s.handleReadFromCache i result).1 := by
  unfold handleReadFromCache
  split_ifs with hcache
  · split
    · exact (Drops.of_data rfl).relaxes
    · next slice hslice =>
      split_ifs
      · exact (Drops.of_data rfl).relaxes
      · intro j slice' hslice'
        dsimp only at hslice'
        rw [List.getElem?_set] at hslice'
        split_ifs at hslice' with hij hlt
        · obtain rfl := hij
          obtain rfl := Option.some.inj hslice'
          refine Or.inr ⟨slice, hslice, Or.inr ⟨rfl, ?_⟩⟩
          unfold cacheNotLoaded at hcache
          rw [hslice, Option.any_some, Bool.and_eq_true, Bool.and_eq_true, decide_eq_true_eq,
            decide_eq_true_eq, Bool.not_eq_true'] at hcache
          exact ⟨hcache.1.2, hcache.2⟩
        · exact Or.inr ⟨slice', hslice', Or.inl rfl⟩
  · exact (Drops.of_data rfl).relaxes

/-- **A fill keeps what is so of the slices.** -/
theorem AllOk.fill {filled : FillResult} (h : AllOk s) (hv : Valid loads s)
    (hfill : s.fill offset count = some (s', filled)) : AllOk s' := by
  obtain ⟨-, -, ⟨-, -, rfl⟩ | ⟨-, -, rfl⟩ | ⟨-, -, hdone | ⟨-, hawaits⟩⟩⟩ := fill_cases hfill
  · exact h
  · exact h
  · obtain ⟨-, -, -, s₁, hdata, hunload⟩ := hdone
    obtain ⟨-, hkeeps, -⟩ := hv.fill hfill
    exact h.relaxes hkeeps ((serializeAndUnloadUnused_drops hunload).of_data_left hdata).relaxes
  · have hs' : s' = (s.awaits offset count).1 := congrArg Prod.fst hawaits
    obtain ⟨hv₁, hkeeps₁, -⟩ := hv.handleReadFromCache (offset / kInSlice)
      ⟨[], s.asked offset count, none, .waitingRemote, []⟩
    have hok₁ := h.relaxes hkeeps₁ (handleReadFromCache_relaxes s (offset / kInSlice)
      ⟨[], s.asked offset count, none, .waitingRemote, []⟩)
    rw [hs', awaits]
    split_ifs
    · exact hok₁.relaxes (hv₁.handleReadFromCache _ _).2.1 (handleReadFromCache_relaxes _ _ _)
    · exact hok₁

/-! ## What is added to a slice -/

/-- A slice that takes the place of another. -/
theorem AllOk.set (h : AllOk s) (hslice : SliceOk s i slice) :
    AllOk { s with data := s.data.set i slice } := by
  intro j slice' hslice'
  dsimp only at hslice'
  rw [List.getElem?_set] at hslice'
  split_ifs at hslice' with hij hlt
  · obtain rfl := hij
    obtain rfl := Option.some.inj hslice'
    exact ⟨hslice.unknown, hslice.loading, hslice.first⟩
  · have hok := h j slice' hslice'
    exact ⟨hok.unknown, hok.loading, hok.first⟩

/-- **A part is added to a slice that has it not.** -/
theorem addPartTo_isSome (hi : i < s.data.length)
    (hnew : (s.data.getD i .empty).parts.contains offset = false) (bytes : Bytes) :
    ∃ s', s.addPartTo i offset bytes = some s' := by
  have hslice : s.data[i]? = some s.data[i] := List.getElem?_eq_getElem hi
  rw [List.getD_eq_getElem?_getD, hslice, Option.getD_some] at hnew
  unfold addPartTo
  rw [hslice]
  dsimp only
  rw [Slice.addPart, if_neg (by simp [hnew])]
  exact ⟨_, rfl⟩

/-- Parts before a slice are new to the slices they are in. -/
def NewTo (s : Slices) (till : ℕ) (entries : List (ℕ × Bytes)) : Prop :=
  ∀ part ∈ entries, part.1 / kInSlice < till →
    (s.data.getD (part.1 / kInSlice) .empty).parts.contains
      (part.1 - part.1 / kInSlice * kInSlice) = false

theorem getD_set (l : List Slice) (j : ℕ) : (l.set i slice).getD j .empty
    = if i = j ∧ i < l.length then slice else l.getD j .empty := by
  rw [List.getD_eq_getElem?_getD, List.getElem?_set, List.getD_eq_getElem?_getD]
  by_cases hij : i = j
  · obtain rfl := hij
    by_cases hlt : i < l.length
    · rw [if_pos rfl, if_pos hlt, if_pos ⟨rfl, hlt⟩, Option.getD_some]
    · rw [if_pos rfl, if_neg hlt, if_neg fun h => hlt h.2,
        List.getElem?_eq_none_iff.mpr (Nat.le_of_not_lt hlt)]
  · rw [if_neg hij, if_neg fun h => hij h.1]

/-- What is added to slices leaves of them. -/
structure SameFlags (s s' : Slices) : Prop where
  length : s'.data.length = s.data.length
  flags : ∀ (i : ℕ) (slice' : Slice), s'.data[i]? = some slice' → ∃ slice, s.data[i]? = some slice ∧
    slice'.loadingFromCache = slice.loadingFromCache ∧ slice'.loadedFromCache = slice.loadedFromCache

theorem SameFlags.of_data (h : s'.data = s.data) : SameFlags s s' :=
  ⟨congrArg List.length h, fun _ _ hi => ⟨_, h ▸ hi, rfl, rfl⟩⟩

theorem SameFlags.exists (h : SameFlags s s') (hi : i < s.data.length) :
    ∃ slice, s'.data[i]? = some slice :=
  ⟨_, List.getElem?_eq_getElem (h.length.symm ▸ hi)⟩

/-- **Parts of the header that are new to the slices are added to them**, each to its own, and what
is known of the slices stays. -/
theorem applyWhile_isSome (htill : till ≤ s.data.length)
    (hsorted : entries.Pairwise fun a b => a.1 < b.1) (hnew : NewTo s till entries) :
    ∃ s', applyWhile till entries s = some s' ∧ SameHeader s s' ∧ SameFlags s s' := by
  induction entries generalizing s with
  | nil => exact ⟨s, rfl, SameHeader.refl s, SameFlags.of_data rfl⟩
  | cons part entries ih =>
    obtain ⟨hpart, hsorted⟩ := List.pairwise_cons.mp hsorted
    rw [applyWhile]
    split_ifs with hend
    · exact ⟨s, rfl, SameHeader.refl s, SameFlags.of_data rfl⟩
    · have hi : part.1 / kInSlice < s.data.length := (Nat.lt_of_not_le hend).trans_le htill
      obtain ⟨s₁, hadd⟩ := addPartTo_isSome hi
        (hnew part List.mem_cons_self (Nat.lt_of_not_le hend)) part.2
      rw [hadd]
      obtain ⟨slice, slice₁, hslice, hslice₁, hs₁⟩ := addPartTo_eq hadd
      obtain ⟨hnone, rfl⟩ := Slice.addPart_eq hslice₁
      have hgetD : s.data.getD (part.1 / kInSlice) .empty = slice := by
        rw [List.getD_eq_getElem?_getD, hslice, Option.getD_some]
      have hdata : s₁.data = _ := congrArg Slices.data hs₁
      have hlength : s₁.data.length = s.data.length := by rw [hdata, List.length_set]
      have hnew₁ : NewTo s₁ till entries := fun b hb hbtill => by
        have hnewb := hnew b (List.mem_cons_of_mem _ hb) hbtill
        rw [hdata, getD_set]
        split_ifs with hsame
        · rw [← hsame.1, hgetD, FlatMap.contains_eq_false] at hnewb
          rw [← hsame.1, FlatMap.contains_eq_false, FlatMap.find?_emplace_of_none hnone, if_neg]
          · exact hnewb
          · have hlt := hpart b hb
            have hle : part.1 / kInSlice * kInSlice ≤ part.1 := Nat.div_mul_le_self _ _
            generalize part.1 / kInSlice * kInSlice = start at *
            omega
        · exact hnewb
      have hsame := addPartTo_sameHeader hadd
      obtain ⟨s', happly, hsame', hlength', hflags⟩ := ih (hlength ▸ htill) hsorted hnew₁
      refine ⟨s', happly, ⟨hsame'.header.trans hsame.header, hsame'.mode.trans hsame.mode,
        hsame'.size.trans hsame.size⟩, hlength'.trans hlength, fun i slice' hslice' => ?_⟩
      obtain ⟨other, hother, hloading, hloaded⟩ := hflags i slice' hslice'
      rw [hdata, List.getElem?_set] at hother
      split_ifs at hother with hij
      · obtain rfl := Option.some.inj hother
        exact ⟨slice, hij ▸ hslice, hloading, hloaded⟩
      · exact ⟨other, hother, hloading, hloaded⟩

/-! ## What comes from the cache -/

/-- What a slice has in the cache is added to it, if it waits. -/
theorem processCacheData_isSome (hloading : slice.loadingFromCache = true)
    (hunread : slice.loadedFromCache = false) (result : PartsMap) :
    ∃ slice', slice.processCacheData result = some slice' ∧ slice'.loadingFromCache = false ∧
      slice'.loadedFromCache = true ∧ slice'.parts
        = result.entries.foldl (fun parts part => parts.emplace part.1 part.2) slice.parts := by
  obtain ⟨slice', hdata⟩ : ∃ slice', slice.processCacheData result = some slice' := by
    rw [Slice.processCacheData, if_pos ⟨hloading, by simp [hunread]⟩]
    exact ⟨_, rfl⟩
  obtain ⟨-, -, heq⟩ := Slice.processCacheData_eq hdata
  exact ⟨slice', hdata, by rw [heq], by rw [heq], by rw [heq]⟩

theorem SliceOk.of_loaded (hloading : slice.loadingFromCache = false)
    (hloaded : slice.loadedFromCache = true) (hmode : s.headerMode ≠ .unknown) : SliceOk s i slice :=
  ⟨fun hunknown => absurd hunknown hmode, fun hnot => absurd (hloading.symm.trans hnot) (by decide),
    fun _ _ hnot => absurd (hloaded.symm.trans hnot) (by decide)⟩

/-- **What comes for a slice is added to it**, if it waits. -/
theorem AllOk.processCacheResult_slice (h : AllOk s) (hn : n ≠ 0) (hlength : n ≤ s.data.length)
    (result : PartsMap) : ∃ s', s.processCacheResult n result = some s' ∧ AllOk s' := by
  obtain ⟨i, rfl⟩ := Nat.exists_eq_succ_of_ne_zero hn
  have hslice : s.data[i]? = some s.data[i] := List.getElem?_eq_getElem hlength
  have hok := h i _ hslice
  rw [processCacheResult, if_neg hn, Nat.succ_sub_one, hslice]
  dsimp only
  by_cases hloading : s.data[i].loadingFromCache = true
  · obtain ⟨slice', hdata, hloading', hloaded', -⟩ :=
      processCacheData_isSome hloading (hok.loading hloading) result
    rw [if_neg (not_not.mpr hloading), hdata]
    refine ⟨_, rfl, h.set (SliceOk.of_loaded hloading' hloaded' fun hmode => ?_)⟩
    exact absurd (hloading.symm.trans (hok.unknown hmode).1) (by decide)
  · rw [if_pos hloading]
    exact ⟨s, rfl, h⟩

/-- What the header is, is said by its parts. -/
theorem headerDone_true (s : Slices) (hmode : s.headerMode = .unknown) :
    s.headerDone true = some { s with headerMode := headerModeOf s } := by
  rw [headerDone_eq, if_neg (not_not.mpr hmode), if_pos rfl]

/-- Slices that may wait for the first of them, which comes with the header. -/
def WaitsForFirst (s : Slices) : Prop :=
  ∀ (i : ℕ) (slice : Slice), s.data[i]? = some slice → SliceOk s i slice ∨
    i = 0 ∧ s.headerMode = .good ∧ slice.loadingFromCache = true ∧ slice.loadedFromCache = false

/-- **The first slice is read with the header.** -/
theorem WaitsForFirst.processCacheResult (h : WaitsForFirst s) (hlength : 1 ≤ s.data.length)
    (result : PartsMap) : ∃ s', s.processCacheResult 1 result = some s' ∧ AllOk s' := by
  have hslice : s.data[0]? = some s.data[0] := List.getElem?_eq_getElem hlength
  rcases h 0 _ hslice with hok | ⟨-, hmode, hloading, hunread⟩
  · refine AllOk.processCacheResult_slice (fun i slice hi => ?_) Nat.one_ne_zero hlength result
    rcases h i slice hi with hi' | ⟨rfl, -⟩
    · exact hi'
    · rw [hslice] at hi
      exact Option.some.inj hi ▸ hok
  · have hne : s.headerMode ≠ .unknown := by simp [hmode]
    obtain ⟨slice', hdata, hloading', hloaded', -⟩ := processCacheData_isSome hloading hunread result
    rw [Slices.processCacheResult, if_neg Nat.one_ne_zero, Nat.sub_self, hslice]
    dsimp only
    rw [if_neg (not_not.mpr hloading), hdata]
    refine ⟨_, rfl, fun i slice hi => ?_⟩
    dsimp only at hi
    rw [List.getElem?_set] at hi
    by_cases hzero : 0 = i
    · rw [if_pos hzero, if_pos (Nat.lt_of_succ_le hlength)] at hi
      exact Option.some.inj hi ▸ SliceOk.of_loaded hloading' hloaded' hne
    · rw [if_neg hzero] at hi
      rcases h i slice hi with hok | ⟨rfl, -⟩
      · exact ⟨hok.unknown, hok.loading, hok.first⟩
      · exact absurd rfl hzero

/-- **What comes for the header is applied to the slices**, and the first one of a good header waits
for the rest of it. -/
theorem processCacheHeader_waits {header header' : Slice} (hloading : header.loadingFromCache = true)
    (hdata : header.processCacheData result = some header') {s₁ : Slices}
    (happly : applyHeaderCacheData { s with header := header' } = some s₁)
    (hfirst : s₁.headerMode = .good → ∃ first, s₁.data[0]? = some first ∧
      first.loadedFromCache = false)
    (hok : ∀ (i : ℕ) (slice : Slice), s₁.data[i]? = some slice → i ≠ 0 ∨ s₁.headerMode ≠ .good →
      SliceOk s₁ i slice) :
    ∃ s', s.processCacheHeader header result = some s' ∧ s'.data.length = s₁.data.length ∧
      WaitsForFirst s' ∧ (s₁.headerMode ≠ .good → AllOk s') := by
  rw [processCacheHeader, if_neg (not_not.mpr hloading), hdata]
  dsimp only
  rw [happly]
  dsimp only
  by_cases hgood : s₁.headerMode = .good
  · obtain ⟨first, hslice, hunread⟩ := hfirst hgood
    have hisGood : s₁.isGoodHeader = true := decide_eq_true hgood
    rw [if_pos hisGood, hslice]
    refine ⟨_, rfl, List.length_set, fun i slice hi => ?_, fun hnot => absurd hgood hnot⟩
    dsimp only at hi
    rw [List.getElem?_set] at hi
    by_cases hzero : 0 = i
    · rw [if_pos hzero, if_pos (List.getElem?_eq_some_iff.mp hslice).1] at hi
      obtain rfl := Option.some.inj hi
      exact Or.inr ⟨hzero.symm, hgood, rfl, hunread⟩
    · rw [if_neg hzero] at hi
      have hslice := hok i slice hi (Or.inl fun h => hzero h.symm)
      exact Or.inl ⟨hslice.unknown, hslice.loading, hslice.first⟩
  · have hnotGood : ¬s₁.isGoodHeader = true := fun h => hgood (of_decide_eq_true h)
    rw [if_neg hnotGood]
    have hall : AllOk s₁ := fun i slice hi => hok i slice hi (Or.inr hgood)
    exact ⟨s₁, rfl, rfl, fun i slice hi => Or.inl (hall i slice hi), fun _ => hall⟩

/-- What the slices have of the header's parts that are before one of them, none. -/
theorem AllOk.newTo_one (h : AllOk s) (hmode : s.headerMode = .good) (hlength : 1 ≤ s.data.length)
    (hloading : s.data[0].loadingFromCache = true) : NewTo s 1 s.header.parts.entries := by
  intro part hpart hindex
  have hslice : s.data[0]? = some s.data[0] := List.getElem?_eq_getElem hlength
  have hzero : part.1 / kInSlice = 0 := Nat.lt_one_iff.mp hindex
  have hlt : part.1 < kInSlice := (Nat.div_eq_zero_iff_lt (by decide)).mp hzero
  have hok := h 0 _ hslice
  rw [hzero, Nat.zero_mul, Nat.sub_zero, List.getD_eq_getElem?_getD, hslice, Option.getD_some,
    FlatMap.contains_eq_false]
  exact hok.first hmode rfl (hok.loading hloading) part hpart hlt

/-- **What comes for the header of a good mode** is added to the first slice, which waits for the
rest of it. -/
theorem AllOk.processCacheResult_good (h : AllOk s) (hmode : s.headerMode = .good)
    (hlength : 1 ≤ s.data.length) (hsame : result = s.header.parts ∨ result = .empty) :
    ∃ s', s.processCacheResult 0 result = some s' ∧ s'.data.length = s.data.length ∧
      WaitsForFirst s' := by
  have hslice : s.data[0]? = some s.data[0] := List.getElem?_eq_getElem hlength
  have hgood : s.isGoodHeader = true := decide_eq_true hmode
  rw [Slices.processCacheResult, if_pos rfl, if_pos hgood, hslice]
  dsimp only
  by_cases hloading : s.data[0].loadingFromCache = true
  · have hunread := (h 0 _ hslice).loading hloading
    rw [if_neg (not_not.mpr hloading)]
    obtain ⟨header', hdata, -, -, hparts⟩ := processCacheData_isSome
      (show ({ s.header with loadingFromCache := true, loadedFromCache := false } :
        Slice).loadingFromCache = true from rfl) rfl result
    have hparts : header'.parts = s.header.parts := by
      rw [hparts]
      rcases hsame with heq | heq
      · exact foldl_emplace_self fun part hpart => heq ▸ hpart
      · rw [heq]
        rfl
    obtain ⟨s₁, happly, hsame₁, hflags⟩ : ∃ s₁, applyHeaderCacheData { s with header := header' }
        = some s₁ ∧ SameHeader { s with header := header' } s₁ ∧ SameFlags s s₁ := by
      unfold applyHeaderCacheData
      split_ifs with hempty
      · exact ⟨_, rfl, SameHeader.refl _, SameFlags.of_data rfl⟩
      · obtain ⟨s₁, happly, hsame₁, hflags⟩ := applyWhile_isSome (s := { s with header := header' })
          hlength header'.parts.sorted (hparts ▸ h.newTo_one hmode hlength hloading)
        exact ⟨s₁, happly, hsame₁, hflags.length, hflags.flags⟩
    have hmode₁ : s₁.headerMode = .good := hsame₁.mode.trans hmode
    obtain ⟨s', hs', hlength', hwaits, -⟩ := processCacheHeader_waits rfl hdata happly
      (fun _ => by
        obtain ⟨slice₁, hslice₁⟩ := hflags.exists hlength
        obtain ⟨slice, hs, -, hloaded⟩ := hflags.flags 0 _ hslice₁
        rw [hslice] at hs
        rw [← Option.some.inj hs, hunread] at hloaded
        exact ⟨_, hslice₁, hloaded⟩)
      (fun i slice' hi hne => by
        obtain ⟨slice, hs, hloading', hloaded'⟩ := hflags.flags i slice' hi
        have hok := h i slice hs
        refine ⟨fun hunknown => absurd (hmode₁.symm.trans hunknown) (by decide), ?_, fun _ hzero => ?_⟩
        · rw [hloading', hloaded']
          exact hok.loading
        · exact absurd hmode₁ (hne.resolve_left (not_not.mpr hzero)))
    exact ⟨s', hs', hlength'.trans hflags.length, hwaits⟩
  · rw [if_pos hloading]
    exact ⟨s, rfl, rfl, fun i slice hi => Or.inl (h i slice hi)⟩

/-- **What comes for the header that was not read** is added to the slices, which have nothing yet.
-/
theorem AllOk.processCacheResult_unknown (h : AllOk s) (hv : Valid loads s)
    (hmode : s.headerMode ≠ .good) (hresult : computeIsGoodHeader s.size result = true →
      isFullInHeader s.size = false → 1 ≤ s.data.length) :
    ∃ s', s.processCacheResult 0 result = some s' ∧ s'.data.length = s.data.length ∧
      WaitsForFirst s' ∧ (computeIsGoodHeader s.size result = false → AllOk s') := by
  have hnotGood : ¬s.isGoodHeader = true := fun h => hmode (of_decide_eq_true h)
  rw [Slices.processCacheResult, if_pos rfl, if_neg hnotGood]
  by_cases hloading : s.header.loadingFromCache = true
  · obtain ⟨hunknown, hunread⟩ := hv.loading hloading
    have hempty := hv.unread hunknown hunread
    obtain ⟨header', hdata, hloading', hloaded', hparts⟩ :=
      processCacheData_isSome hloading hunread result
    rw [hempty, foldl_emplace_entries] at hparts
    have hflagsOk : ∀ (i : ℕ) (slice : Slice), s.data[i]? = some slice →
        slice.loadingFromCache = false ∧ slice.loadedFromCache = false ∧ slice.parts = .empty := by
      intro i slice hi
      obtain ⟨hloading, hloaded, hnone⟩ := (h i slice hi).unknown hunknown
      exact ⟨hloading, hloaded, hnone hunread⟩
    obtain ⟨s₁, happly, hmode₁, hheader₁, hflags⟩ : ∃ s₁,
        applyHeaderCacheData { s with header := header' } = some s₁ ∧
          (s₁.headerMode = if result.isEmpty then .unknown
            else headerModeOf { s with header := header' }) ∧
          s₁.header = header' ∧ SameFlags s s₁ := by
      unfold applyHeaderCacheData
      dsimp only
      rw [hparts]
      split_ifs with hnone hnot hfull
      · exact ⟨_, rfl, hunknown, rfl, SameFlags.of_data rfl⟩
      · exact absurd hunknown hnot
      · have hdone := headerDone_true { s with header := header' } hunknown
        exact ⟨_, hdone, rfl, rfl, SameFlags.of_data rfl⟩
      · obtain ⟨s₂, hs₂, hsame, hflags⟩ := applyWhile_isSome (s := { s with header := header' })
          (Nat.le_refl _) result.sorted fun part _ _ => by
            dsimp only
            rw [List.getD_eq_getElem?_getD]
            cases hslice : s.data[part.1 / kInSlice]? with
            | none => rfl
            | some slice =>
              rw [Option.getD_some, (hflagsOk _ slice hslice).2.2]
              rfl
        dsimp only at hs₂
        rw [hs₂]
        dsimp only
        rw [headerDone_true _ (hsame.mode.trans hunknown)]
        refine ⟨_, rfl, ?_, hsame.header, hflags.length, hflags.flags⟩
        exact headerModeOf_congr hsame.size (congrArg Slice.parts hsame.header)
    have hcompute : s₁.headerMode = .good → computeIsGoodHeader s.size result = true := fun hgood => by
      rw [hmode₁] at hgood
      unfold headerModeOf at hgood
      dsimp only at hgood
      rw [hparts] at hgood
      split_ifs at hgood with _ _ hcompute
      exact hcompute
    obtain ⟨s', hs', hlength', hwaits, hall⟩ := processCacheHeader_waits hloading hdata happly
      (fun hgood => by
        have hfull : isFullInHeader s.size = false := by
          by_contra hfull
          have hnot : computeIsGoodHeader s.size result = false :=
            computeIsGoodHeader_full (Bool.not_eq_false _ ▸ hfull)
          exact absurd ((hcompute hgood).symm.trans hnot) (by decide)
        obtain ⟨slice₁, hslice₁⟩ := hflags.exists (hresult (hcompute hgood) hfull)
        obtain ⟨slice, hs, -, hloaded⟩ := hflags.flags 0 _ hslice₁
        exact ⟨_, hslice₁, hloaded.trans (hflagsOk 0 slice hs).2.1⟩)
      (fun i slice' hi hne => by
        obtain ⟨slice, hs, hloading₁, hloaded₁⟩ := hflags.flags i slice' hi
        obtain ⟨hnotLoading, hnotLoaded, -⟩ := hflagsOk i slice hs
        rw [hnotLoading] at hloading₁
        rw [hnotLoaded] at hloaded₁
        refine ⟨fun _ => ⟨hloading₁, hloaded₁, fun hnot => ?_⟩, fun _ => hloaded₁, fun hgood hzero => ?_⟩
        · rw [hheader₁, hloaded'] at hnot
          exact absurd hnot (by decide)
        · exact absurd hgood (hne.resolve_left (not_not.mpr hzero)))
    refine ⟨s', hs', hlength'.trans hflags.length, hwaits, fun hnot => hall fun hgood => ?_⟩
    exact absurd (hnot.symm.trans (hcompute hgood)) (by decide)
  · rw [processCacheHeader, if_pos hloading]
    exact ⟨s, rfl, rfl, fun i slice hi => Or.inl (h i slice hi), fun _ => h⟩

/-! ## Parts that are loaded -/

/-- The part that starts at an offset is new: it is not where it is added, nor in a good header. -/
def Slices.IsNew (s : Slices) (offset : ℕ) : Prop :=
  s.missing offset = true ∧
    (s.headerMode = .good → offset < kInSlice → s.header.parts.find? offset = none)

/-- **A part that is new is added.** -/
theorem processPart_isSome (hnew : s.IsNew offset)
    (hslice : isFullInHeader s.size = true ∨ offset / kInSlice < s.data.length) (bytes : Bytes) :
    ∃ s', s.processPart offset bytes = some s' := by
  have hmissing := hnew.1
  unfold missing at hmissing
  unfold processPart
  split_ifs with hfull
  · rw [if_pos hfull, Bool.not_eq_true'] at hmissing
    rw [Slice.addPart, if_neg (by simp [hmissing])]
    exact ⟨_, rfl⟩
  · rw [if_neg hfull, Bool.not_eq_true', Nat.mod_eq_sub_div_mul] at hmissing
    exact addPartTo_isSome (hslice.resolve_left hfull) hmissing bytes

theorem AllOk.processPart (h : AllOk s) (hv : Valid loads s) (hnew : s.IsNew offset)
    (hread : s.headerMode = .unknown → s.header.loadedFromCache = true)
    (hpart : s.processPart offset bytes = some s') : AllOk s' := by
  unfold Slices.processPart at hpart
  split_ifs at hpart with hfull
  · obtain ⟨header, -, rfl⟩ := Option.map_eq_some_iff.mp hpart
    intro i slice hi
    exact absurd hfull (by simp [(hv.index hi).1])
  · obtain ⟨slice, slice', hslice, hadd, rfl⟩ := addPartTo_eq hpart
    obtain ⟨-, rfl⟩ := Slice.addPart_eq hadd
    have hok := h _ slice hslice
    refine h.set ⟨fun hmode => ?_, hok.loading, fun hgood hzero hloaded part hmem hlt => ?_⟩
    · obtain ⟨hloading, hloaded, -⟩ := hok.unknown hmode
      exact ⟨hloading, hloaded, fun hunread =>
        absurd ((hread hmode).symm.trans hunread) (by decide)⟩
    · have hinfirst : offset < kInSlice := (Nat.div_eq_zero_iff_lt (by decide)).mp hzero
      have hnone := hok.first hgood hzero hloaded part hmem hlt
      dsimp only
      rw [FlatMap.find?_emplace, hzero, Nat.zero_mul, Nat.sub_zero]
      split_ifs with heq
      · have hfound := FlatMap.find?_eq_some.mpr hmem
        rw [heq, hnew.2 hgood hinfirst] at hfound
        exact nomatch hfound
      · exact hnone

/-- **What the header is, is known of all slices.** -/
theorem AllOk.headerDone (h : AllOk s) (hdone : s.headerDone false = some s') : AllOk s' := by
  rw [headerDone_eq, if_neg Bool.false_ne_true] at hdone
  split_ifs at hdone with hmode hflags
  · obtain rfl := Option.some.inj hdone
    exact h
  · obtain rfl := Option.some.inj hdone
    intro i slice' hi
    dsimp only at hi
    rw [List.getElem?_map] at hi
    obtain ⟨slice, hslice, rfl⟩ := Option.map_eq_some_iff.mp hi
    obtain ⟨hloading, -, -⟩ := (h i slice hslice).unknown (not_not.mp hmode)
    exact SliceOk.of_loaded hloading rfl (headerModeOf_ne_unknown s)

theorem AllOk.new {useCache : Bool} (h : Slices.new size useCache = some s) : AllOk s := by
  unfold Slices.new at h
  rw [Option.ite_none_left_eq_some, Option.ite_none_left_eq_some] at h
  obtain rfl := Option.some.inj h.2.2
  intro i slice hi
  have hmem := List.mem_of_getElem? hi
  dsimp only at hmem
  split_ifs at hmem
  · exact absurd hmem List.not_mem_nil
  · rw [List.eq_of_mem_replicate hmem]
    exact SliceOk.empty _ i

namespace Reader

/-! ## Runs of a reader -/

/-- **A step of a reader as it takes them.**  What was read for a slice is given to it, and a good
header together with the first slice that it came with; a part that was loaded is new. -/
inductive Served (file : Bytes) : Reader → Reader → Prop
  | evict (r : Reader) (n : ℕ) : Served file r { r with cache := r.cache.erase n }
  | read (r : Reader) {n : ℕ} (hn : n ≠ 0) (hmode : r.slices.headerMode ≠ .unknown)
      (hcache : r.slices.headerMode ≠ .noCache) : Served file r (r.readFromCache n)
  | result (r : Reader) (n : ℕ) (parts : PartsMap) {slices : Slices} (hmem : (n, parts) ∈ r.results)
      (hheader : n = 0 → computeIsGoodHeader r.slices.size parts = false)
      (h : r.slices.processCacheResult n parts = some slices) : Served file r { r with slices }
  | header (r : Reader) (parts included : PartsMap) {slices slices' : Slices}
      (hmem : (0, parts) ∈ r.results) (hincluded : (1, included) ∈ r.results)
      (h : r.slices.processCacheResult 0 parts = some slices)
      (h' : slices.processCacheResult 1 included = some slices') :
      Served file r { r with slices := slices' }
  | part (r : Reader) (offset : ℕ) (bytes : Bytes) {slices : Slices} (hread : r.HeaderKnown)
      (hoffset : kPartSize ∣ offset ∧ offset < r.slices.size)
      (hbytes : bytes.length = min kPartSize (r.slices.size - offset))
      (hfile : fileLoads file offset bytes) (hnew : r.slices.IsNew offset)
      (h : r.slices.processPart offset bytes = some slices) : Served file r { r with slices }
  | fill (r : Reader) (offset count : ℕ) {slices : Slices} (filled : Slices.FillResult)
      (h : r.slices.fill offset count = some (slices, filled)) :
      Served file r
        ((filled.sliceNumbersFromCache.foldl readFromCache { r with slices }).putToCache
          filled.toCache)
  | headerDone (r : Reader) {slices : Slices} (hread : r.HeaderKnown)
      (h : r.slices.headerDone false = some slices) : Served file r { r with slices }
  | unloadToCache (r : Reader) {slices : Slices} {toCache : Option SerializedSlice}
      (h : r.slices.unloadToCache = some (slices, toCache)) :
      Served file r ({ r with slices }.putToCache toCache)
  | reopen (r : Reader) {useCache : Bool} {r' : Reader}
      (h : new r.slices.size useCache r.cache = some r') : Served file r r'

/-- A reader of a file, after any steps of it and of those before. -/
def Reads (file : Bytes) (r : Reader) : Prop :=
  file.length < 2 ^ 32 ∧ ∃ useCache first, new file.length useCache .empty = some first ∧
    Relation.ReflTransGen (Served file) first r

variable {r r' : Reader}

/-- Those are steps of any reader. -/
theorem Served.steps (h : Served file r r') : Relation.ReflTransGen (Step (fileLoads file)) r r' := by
  cases h with
  | evict n => exact .single (.evict r n)
  | read hn hmode hcache => exact .single (.read r hn hmode hcache)
  | result n parts hmem _ h => exact .single (.result r n parts hmem h)
  | header parts included hmem hincluded h h' =>
    exact .tail (.single (.result r 0 parts hmem h)) (.result _ 1 included hincluded h')
  | part offset bytes hread hoffset hbytes hfile _ h =>
    exact .single (.part r offset bytes hread hoffset hbytes hfile h)
  | fill offset count filled h => exact .single (.fill r offset count filled h)
  | headerDone hread h => exact .single (.headerDone r hread h)
  | unloadToCache h => exact .single (.unloadToCache r h)
  | reopen h => exact .single (.reopen r h)

theorem Reads.reachable (h : Reads file r) : Reachable (fileLoads file) r := by
  obtain ⟨hsize, useCache, first, hnew, hsteps⟩ := h
  refine ⟨file.length, hsize, useCache, first, hnew, ?_⟩
  induction hsteps with
  | refl => exact .refl
  | tail _ hstep ih => exact ih.trans hstep.steps

theorem readFromCache_slices (l : List ℕ) (r : Reader) :
    (l.foldl readFromCache r).slices = r.slices := by
  induction l generalizing r with
  | nil => rfl
  | cons n l ih => exact ih (r.readFromCache n)

theorem putToCache_slices (r : Reader) (toCache : Option SerializedSlice) :
    (r.putToCache toCache).slices = r.slices := by
  cases toCache <;> rfl

/-- **What comes for the header and the first slice is always taken.** -/
theorem header_isSome (hi : Inv (fileLoads file) r) (hok : AllOk r.slices)
    (hmem : (0, parts) ∈ r.results) (hlength : 1 ≤ r.slices.data.length) (included : PartsMap) :
    ∃ s s', r.slices.processCacheResult 0 parts = some s ∧
      s.processCacheResult 1 included = some s' ∧ AllOk s' := by
  obtain ⟨s, hs, hlength', hwaits⟩ : ∃ s, r.slices.processCacheResult 0 parts = some s ∧
      s.data.length = r.slices.data.length ∧ WaitsForFirst s := by
    by_cases hmode : r.slices.headerMode = .good
    · exact hok.processCacheResult_good hmode hlength ((hi.good hmode).2 parts hmem)
    · obtain ⟨s, hs, hlength', hwaits, -⟩ :=
        hok.processCacheResult_unknown hi.valid hmode fun _ _ => hlength
      exact ⟨s, hs, hlength', hwaits⟩
  obtain ⟨s', hs', hok'⟩ := hwaits.processCacheResult (hlength' ▸ hlength) included
  exact ⟨s, s', hs, hs', hok'⟩

/-- **What comes for any slice is always taken**, and for a header that is not good. -/
theorem result_isSome (hi : Inv (fileLoads file) r) (hok : AllOk r.slices) (hmem : (n, parts) ∈ r.results)
    (hheader : n = 0 → computeIsGoodHeader r.slices.size parts = false)
    (hlength : n ≤ r.slices.data.length) :
    ∃ s, r.slices.processCacheResult n parts = some s ∧ AllOk s := by
  by_cases hn : n = 0
  · obtain rfl := hn
    have hmode : r.slices.headerMode ≠ .good := fun hmode => by
      have hgood := hi.valid.good hmode
      have hnot := hheader rfl
      rcases (hi.good hmode).2 parts hmem with rfl | rfl
      · exact absurd (hgood.symm.trans hnot) (by decide)
      · have hfull : isFullInHeader r.slices.size = false := by
          by_contra hfull
          exact absurd (hgood.symm.trans (computeIsGoodHeader_full (Bool.not_eq_false _ ▸ hfull)))
            (by decide)
        have hempty : computeIsGoodHeader r.slices.size .empty = true :=
          computeIsGoodHeader_of_lt hfull fun part hpart => absurd hpart List.not_mem_nil
        exact absurd (hempty.symm.trans hnot) (by decide)
    obtain ⟨s, hs, -, -, hall⟩ := hok.processCacheResult_unknown hi.valid hmode
      fun hgood => absurd (hgood.symm.trans (hheader rfl)) (by decide)
    exact ⟨s, hs, hall (hheader rfl)⟩
  · exact hok.processCacheResult_slice hn hlength parts

/-- **Every step keeps what is so of the slices.** -/
theorem Served.allOk (h : Served file r r') (hi : Inv (fileLoads file) r) (hok : AllOk r.slices) :
    AllOk r'.slices := by
  cases h with
  | evict n => exact hok
  | read hn hmode hcache => exact hok
  | result n parts hmem hheader h =>
    have hlength : n ≤ r.slices.data.length := by
      by_contra hlength
      have hne : n ≠ 0 := by omega
      rw [processCacheResult, if_neg hne, List.getElem?_eq_none (by omega)] at h
      cases h
    obtain ⟨s, hs, hok'⟩ := result_isSome hi hok hmem hheader hlength
    rw [hs] at h
    exact Option.some.inj h ▸ hok'
  | @header parts included slices slices' hmem hincluded h h' =>
    obtain ⟨hholds, hcount⟩ := hi.results 0 parts hmem
    obtain ⟨hv, hsize, -⟩ := hi.valid.processCacheResult_header hholds (hcount rfl)
      (fun hgood => (hi.good hgood).2 parts hmem) h
    have hlength : 1 ≤ slices.data.length := by
      by_contra hlength
      rw [processCacheResult, if_neg Nat.one_ne_zero, List.getElem?_eq_none (by omega)] at h'
      cases h'
    have hsame : slices.data.length = r.slices.data.length := by
      rw [hv.length, hsize, hi.valid.length]
    obtain ⟨s, s', hs, hs', hok'⟩ := header_isSome hi hok hmem (hsame ▸ hlength) included
    rw [h] at hs
    rw [← Option.some.inj hs, h'] at hs'
    exact Option.some.inj hs' ▸ hok'
  | part offset bytes hread hoffset hbytes hfile hnew h =>
    exact hok.processPart hi.valid hnew
      (fun hmode => hread.resolve_left (by simp [hmode])) h
  | fill offset count filled h =>
    rw [putToCache_slices, readFromCache_slices]
    exact hok.fill hi.valid h
  | headerDone hread h => exact hok.headerDone h
  | unloadToCache h =>
    rw [putToCache_slices]
    exact hok.relaxes (hi.valid.unloadToCache h).2.1 (unloadToCache_drops h).relaxes
  | reopen h =>
    obtain ⟨slices, hslices, rfl⟩ := Option.map_eq_some_iff.mp h
    exact AllOk.new hslices

/-- **Every reader of a file keeps it.** -/
theorem Reads.allOk (h : Reads file r) : AllOk r.slices := by
  obtain ⟨hsize, useCache, first, hnew, hsteps⟩ := h
  induction hsteps with
  | refl =>
    obtain ⟨slices, hslices, rfl⟩ := Option.map_eq_some_iff.mp hnew
    exact AllOk.new hslices
  | tail hsteps hstep ih =>
    have hreads : Reads file _ := ⟨hsize, useCache, first, hnew, hsteps⟩
    exact hstep.allOk hreads.reachable.inv ih

/-- What a part of a range that is missing waits for, when a fill is not ready: the header, or the
slice that it is in, is read from the cache; or it is asked for, unless `kLoadFromRemoteMax` parts
before it are. -/
def Awaited (s s' : Slices) (filled : FillResult) (o : ℕ) : Prop :=
  s.AwaitsHeader ∨
    filled.state = .waitingCache ∧ s.cacheNotLoaded (o / kInSlice) = true ∧ s'.reads (o / kInSlice) ∨
    AskedFor o filled.offsetsFromLoader

/-- Slices of a file that is all in the header, and is not in the cache. -/
def sampleHeader (size : ℕ) (parts : PartsMap) : Slices :=
  ⟨[], ⟨parts, false, false, false⟩, [], size, .noCache⟩

/-- A reader of such a file. -/
def headerReader (size : ℕ) (parts : PartsMap) : Reader := ⟨sampleHeader size parts, .empty, []⟩

theorem headerReader_reads : Reads [1, 2, 3] (headerReader 3 (FlatMap.empty.emplace 0 [1, 2, 3])) := by
  refine ⟨by decide, false, headerReader 3 .empty, rfl, .single ?_⟩
  exact .part (headerReader 3 .empty) 0 [1, 2, 3] (Or.inl rfl) (by decide) (by decide) rfl
    ⟨rfl, fun hgood => nomatch hgood⟩ rfl

end Reader

end Yunogram.Media.Streaming
