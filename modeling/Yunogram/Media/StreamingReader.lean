import Mathlib
import Yunogram.Media.SlicesHold

/-!
# Media/StreamingReader — a reader of a streamed file, with the cache it reads from and puts to

The slices of a file are read by one reader after another, and what one of them put to the cache the
next finds there, unless it was evicted.  What was read from the cache may come at any time after.  The
invariant is `Reader.Inv`: what the cache gives for the header of a good mode is the header.

The result is `cache_round_trip`: what is put to the cache by any reader is read back as it was.
-/

namespace Yunogram.Media.Streaming

open Machinery

variable {size n offset : ℕ} {loads : ℕ → Bytes → Prop} {parts result : PartsMap} {bytes : Bytes}
  {s s' : Slices}

/-! ## What filling a buffer changes -/

/-- **What reading and putting to the cache leave as it is.** -/
structure KeepsHeader (s s' : Slices) : Prop where
  size : s'.size = s.size
  mode : s'.headerMode = s.headerMode
  loaded : s.headerMode = .unknown →
    s'.header.loadedFromCache = s.header.loadedFromCache
  parts : s.headerMode = .good → s'.header.parts = s.header.parts

theorem KeepsHeader.refl (s : Slices) : KeepsHeader s s := ⟨rfl, rfl, fun _ => rfl, fun _ => rfl⟩

theorem KeepsHeader.trans {s'' : Slices} (h : KeepsHeader s s') (h' : KeepsHeader s' s'') :
    KeepsHeader s s'' :=
  ⟨h'.size.trans h.size, h'.mode.trans h.mode,
    fun hmode => (h'.loaded (h.mode ▸ hmode)).trans (h.loaded hmode),
    fun hmode => (h'.parts (h.mode ▸ hmode)).trans (h.parts hmode)⟩

theorem KeepsHeader.symm (h : KeepsHeader s s') : KeepsHeader s' s :=
  ⟨h.size.symm, h.mode.symm, fun hmode => (h.loaded (h.mode ▸ hmode)).symm,
    fun hmode => (h.parts (h.mode ▸ hmode)).symm⟩

theorem Valid.markSliceUsed (hv : Valid loads s) (i : ℕ) : Valid loads (s.markSliceUsed i) :=
  { hv with }

/-- **An entry that is put leaves the slices as they should be.** -/
theorem Valid.unloaded (hv : Valid loads s) (n : ℕ) :
    Valid loads (Streaming.unloaded s n) ∧ KeepsHeader s (Streaming.unloaded s n) := by
  unfold Streaming.unloaded
  split_ifs
  · exact ⟨{ hv with }, rfl, rfl, fun _ => rfl, fun _ => rfl⟩
  · refine ⟨?_, rfl, rfl, fun _ => rfl, fun _ => rfl⟩
    cases hslice : s.data[n - 1]? with
    | none =>
      rw [List.set_eq_of_length_le (List.getElem?_eq_none_iff.mp hslice)]
      exact hv
    | some slice => exact hv.setSlice hslice Holds.empty

theorem Valid.serializeAndUnloadSlice (hv : Valid loads s) {slice : SerializedSlice}
    (h : s.serializeAndUnloadSlice n = some (s', slice)) : Valid loads s' ∧ KeepsHeader s s' := by
  obtain ⟨-, -, hheader | hslice⟩ := serializeAndUnloadSlice_eq h
  · obtain ⟨-, -, -, first, hfirst, -, -, rfl⟩ := hheader
    obtain ⟨hv', hkeeps⟩ := (hv.setSlice hfirst (show Holds s.size loads 1 Slice.empty.parts from
      Holds.empty)).unloaded 0
    have hset : KeepsHeader s { s with data := s.data.set 0 .empty } := ⟨rfl, rfl, fun _ => rfl, fun _ => rfl⟩
    exact ⟨hv', hset.trans hkeeps⟩
  · obtain ⟨-, _, -, _, -, -, rfl⟩ := hslice
    exact hv.unloaded slice.number

/-- What is put to the cache comes from slices that are as they should be. -/
def Puts (loads : ℕ → Bytes → Prop) (s : Slices) (toCache : Option SerializedSlice) : Prop :=
  ∀ slice ∈ toCache, ∃ s₁ s₂ n, Valid loads s₁ ∧ KeepsHeader s s₁ ∧
    s₁.serializeAndUnloadSlice n = some (s₂, slice)

theorem Puts.none : Puts loads s none := fun _ hslice => nomatch hslice

theorem Puts.of_keeps {toCache : Option SerializedSlice} (h : Puts loads s' toCache)
    (hkeeps : KeepsHeader s s') : Puts loads s toCache := fun slice hslice => by
  obtain ⟨s₁, s₂, n, hv, hkeeps', hserialize⟩ := h slice hslice
  exact ⟨s₁, s₂, n, hv, hkeeps.trans hkeeps', hserialize⟩

theorem Valid.puts {s₀ : Slices} (hv : Valid loads s₀) (hkeeps : KeepsHeader s s₀)
    {toCache : Option SerializedSlice}
    (h : ((s₀.serializeAndUnloadSlice n).map fun (s, slice) => (s, some slice)) = some (s', toCache)) :
    Valid loads s' ∧ KeepsHeader s s' ∧ Puts loads s toCache := by
  obtain ⟨⟨s₁, slice⟩, hserialize, heq⟩ := Option.map_eq_some_iff.mp h
  obtain ⟨rfl, rfl⟩ := Prod.mk.inj heq
  obtain ⟨hv', hkeeps'⟩ := hv.serializeAndUnloadSlice hserialize
  refine ⟨hv', hkeeps.trans hkeeps', fun other hother => ?_⟩
  obtain rfl := Option.some.inj hother
  exact ⟨s₀, s₁, n, hv, hkeeps, hserialize⟩

theorem Valid.serializeAndUnloadUnused (hv : Valid loads s) {toCache : Option SerializedSlice}
    (h : s.serializeAndUnloadUnused = some (s', toCache)) :
    Valid loads s' ∧ KeepsHeader s s' ∧ Puts loads s toCache := by
  unfold Slices.serializeAndUnloadUnused at h
  split_ifs at h with hmode
  · obtain ⟨rfl, rfl⟩ := Prod.mk.inj (Option.some.inj h)
    exact ⟨hv, KeepsHeader.refl s, Puts.none⟩
  · split at h
    · obtain ⟨rfl, rfl⟩ := Prod.mk.inj (Option.some.inj h)
      exact ⟨hv, KeepsHeader.refl s, Puts.none⟩
    · next purgeSlice usedSlices _ =>
      have hused : Valid loads { s with usedSlices } := { hv with }
      have hkeeps : KeepsHeader s { s with usedSlices } := ⟨rfl, rfl, fun _ => rfl, fun _ => rfl⟩
      dsimp only at h
      split at h
      · exact nomatch h
      · next slice hslice =>
        split_ifs at h with hloaded hneed
        · obtain ⟨rfl, rfl⟩ := Prod.mk.inj (Option.some.inj h)
          exact ⟨hused.setSlice hslice Holds.empty, ⟨rfl, rfl, fun _ => rfl, fun _ => rfl⟩, Puts.none⟩
        · exact hused.puts hkeeps h
        · obtain ⟨rfl, rfl⟩ := Prod.mk.inj (Option.some.inj h)
          exact ⟨hused, hkeeps, Puts.none⟩

theorem Valid.unloadToCache (hv : Valid loads s) {toCache : Option SerializedSlice}
    (h : s.unloadToCache = some (s', toCache)) :
    Valid loads s' ∧ KeepsHeader s s' ∧ Puts loads s toCache := by
  unfold Slices.unloadToCache at h
  split_ifs at h with hmode hchanged
  · obtain ⟨rfl, rfl⟩ := Prod.mk.inj (Option.some.inj h)
    exact ⟨hv, KeepsHeader.refl s, Puts.none⟩
  · exact hv.puts (KeepsHeader.refl s) h
  · split at h
    · obtain ⟨rfl, rfl⟩ := Prod.mk.inj (Option.some.inj h)
      exact ⟨hv, KeepsHeader.refl s, Puts.none⟩
    · exact hv.puts (KeepsHeader.refl s) h

/-- **Parts of a slice are kept in the header** while it is not known what it is. -/
theorem Valid.addToHeader {i : ℕ} {entries : List (ℕ × Bytes)} (hv : Valid loads s)
    (hread : s.headerMode = .unknown → s.header.loadedFromCache = true)
    (hentries : ∀ part ∈ entries, i < slicesCount s.size ∧ PartOf s.size loads (i + 1) part)
    (h : s.addToHeader i entries = some s') : Valid loads s' ∧ KeepsHeader s s' := by
  unfold Slices.addToHeader at h
  split_ifs at h with hmode
  · obtain rfl := Option.some.inj h
    exact ⟨hv, KeepsHeader.refl s⟩
  · have hunknown := not_not.mp hmode
    clear hmode
    induction entries generalizing s with
    | nil =>
      obtain rfl := Option.some.inj h
      exact ⟨hv, KeepsHeader.refl s⟩
    | cons part entries ih =>
      rw [List.foldlM_cons] at h
      obtain ⟨s₁, hadd, hrest⟩ := Option.bind_eq_some_iff.mp h
      have hstep : Valid loads s₁ ∧ KeepsHeader s s₁ := by
        dsimp only at hadd
        split_ifs at hadd with hroom
        · obtain ⟨header, hheader, rfl⟩ := Option.map_eq_some_iff.mp hadd
          obtain ⟨hnone, rfl⟩ := Slice.addPart_eq hheader
          obtain ⟨hi, hpart⟩ := hentries part List.mem_cons_self
          refine ⟨{ hv with
            header := hv.header.emplace (hpart.toFile hv.size hi)
            headerSize := fun _ => ?_
            small := fun hsmall => absurd (hunknown.symm.trans hsmall) (by decide)
            good := fun hgood => absurd (hunknown.symm.trans hgood) (by decide)
            unread := fun _ hunread => absurd ((hread hunknown).symm.trans hunread) (by decide) },
            rfl, rfl, fun _ => rfl,
            fun hgood => absurd (hunknown.symm.trans hgood) (by decide)⟩
          rw [FlatMap.size_emplace hnone]
          exact hroom.2
        · obtain rfl := Option.some.inj hadd
          exact ⟨hv, KeepsHeader.refl s⟩
      obtain ⟨hv₁, hkeeps⟩ := hstep
      obtain ⟨hv', hkeeps'⟩ := ih hv₁ (fun _ => (hkeeps.loaded hunknown).trans (hread hunknown))
        (fun b hb => hkeeps.size ▸ hentries b (List.mem_cons_of_mem _ hb)) hrest
        (hkeeps.mode.trans hunknown)
      exact ⟨hv', hkeeps.trans hkeeps'⟩

/-- What is read from a slice are parts of it. -/
theorem Slice.prepareFill_subset {slice : Slice} {from' till : ℕ} :
    (slice.prepareFill from' till).parts ⊆ slice.parts.entries := by
  intro part hpart
  unfold Slice.prepareFill at hpart
  dsimp only at hpart
  split_ifs at hpart
  · exact absurd hpart List.not_mem_nil
  · exact absurd hpart List.not_mem_nil
  · exact List.mem_of_mem_drop (List.mem_filter.mp hpart).1

theorem Valid.handleReadFromCache (hv : Valid loads s) (i : ℕ) (result : Slices.FillResult) :
    Valid loads (s.handleReadFromCache i result).1 ∧
      KeepsHeader s (s.handleReadFromCache i result).1 ∧
      (s.handleReadFromCache i result).2.toCache = result.toCache := by
  unfold Slices.handleReadFromCache
  split_ifs
  · split
    · exact ⟨hv, KeepsHeader.refl s, rfl⟩
    · next slice hslice =>
      split_ifs
      · exact ⟨hv, KeepsHeader.refl s, rfl⟩
      · exact ⟨hv.setSlice hslice (hv.slices i slice hslice), ⟨rfl, rfl, fun _ => rfl, fun _ => rfl⟩, rfl⟩
  · exact ⟨hv, KeepsHeader.refl s, rfl⟩

/-- What is read of a slice: the parts of it that are there. -/
theorem Valid.prepareFill (hv : Valid loads s) {i from' till : ℕ} {part : ℕ × Bytes}
    (hpart : part ∈ ((s.data.getD i .empty).prepareFill from' till).parts) :
    i < slicesCount s.size ∧ PartOf s.size loads (i + 1) part := by
  have hmem := Slice.prepareFill_subset hpart
  rw [List.getD_eq_getElem?_getD] at hmem
  cases hslice : s.data[i]? with
  | none =>
    rw [hslice] at hmem
    exact absurd hmem List.not_mem_nil
  | some slice =>
    rw [hslice] at hmem
    exact ⟨(hv.index hslice).2, hv.slices i slice hslice part hmem⟩

/-- **Filling a buffer leaves the slices as they should be.** -/
theorem Valid.fill {count : ℕ} {filled : Slices.FillResult} (hv : Valid loads s)
    (h : s.fill offset count = some (s', filled)) :
    Valid loads s' ∧ KeepsHeader s s' ∧ Puts loads s filled.toCache := by
  unfold Slices.fill at h
  split_ifs at h with hcount hheader hloading hfull
  · obtain ⟨rfl, rfl⟩ := Prod.mk.inj (Option.some.inj h)
    exact ⟨hv, KeepsHeader.refl s, Puts.none⟩
  · obtain ⟨filled', hfilled, heq⟩ := Option.map_eq_some_iff.mp h
    obtain ⟨rfl, rfl⟩ := Prod.mk.inj heq
    refine ⟨hv, KeepsHeader.refl s, ?_⟩
    unfold Slices.fillFromHeader at hfilled
    dsimp only at hfilled
    split_ifs at hfilled
    · obtain ⟨buffer, -, rfl⟩ := Option.map_eq_some_iff.mp hfilled
      exact Puts.none
    · obtain rfl := Option.some.inj hfilled
      exact Puts.none
  · have hread : s.headerMode = .unknown → s.header.loadedFromCache = true := fun hmode => by
      by_contra hunread
      exact hheader ⟨by simp [hmode], hunread⟩
    dsimp only at h
    rw [Option.ite_none_left_eq_some] at h
    obtain ⟨-, h⟩ := h
    split_ifs at h with hsecond hready hready
    · obtain ⟨buffer, -, h⟩ := Option.bind_eq_some_iff.mp h
      obtain ⟨s₁, hfirst, h⟩ := Option.bind_eq_some_iff.mp h
      obtain ⟨more, -, h⟩ := Option.bind_eq_some_iff.mp h
      obtain ⟨s₂, hsecond, h⟩ := Option.bind_eq_some_iff.mp h
      obtain ⟨_, hcopied, h⟩ := Option.bind_eq_some_iff.mp h
      obtain rfl := Option.some.inj hcopied
      obtain ⟨⟨s₃, toCache⟩, hunused, h⟩ := Option.bind_eq_some_iff.mp h
      obtain ⟨rfl, rfl⟩ := Prod.mk.inj (Option.some.inj h)
      obtain ⟨hv₁, hkeeps₁⟩ := (hv.markSliceUsed _).addToHeader hread
        (fun part hpart => hv.prepareFill hpart) hfirst
      obtain ⟨hv₂, hkeeps₂⟩ := (hv₁.markSliceUsed _).addToHeader
        (fun hmode => (hkeeps₁.loaded (hkeeps₁.mode.symm.trans hmode)).trans
          (hread (hkeeps₁.mode.symm.trans hmode)))
        (fun part hpart => hkeeps₁.size.symm ▸ hv.prepareFill hpart) hsecond
      have hkeeps : KeepsHeader s s₂ := KeepsHeader.trans
        ⟨hkeeps₁.size, hkeeps₁.mode, hkeeps₁.loaded, hkeeps₁.parts⟩
        ⟨hkeeps₂.size, hkeeps₂.mode, hkeeps₂.loaded, hkeeps₂.parts⟩
      obtain ⟨hv₃, hkeeps₃, hputs⟩ := hv₂.serializeAndUnloadUnused hunused
      exact ⟨hv₃, hkeeps.trans hkeeps₃, hputs.of_keeps hkeeps⟩
    · obtain ⟨rfl, rfl⟩ := Prod.ext_iff.mp (Option.some.inj h)
      obtain ⟨hv₁, hkeeps₁, hnone₁⟩ := hv.handleReadFromCache (offset / kInSlice) ⟨[], _, none,
        .waitingRemote, []⟩
      obtain ⟨hv₂, hkeeps₂, hnone₂⟩ := hv₁.handleReadFromCache (offset / kInSlice + 1) _
      refine ⟨hv₂, hkeeps₁.trans hkeeps₂, ?_⟩
      rw [hnone₂, hnone₁]
      exact Puts.none
    · obtain ⟨buffer, -, h⟩ := Option.bind_eq_some_iff.mp h
      obtain ⟨s₁, hfirst, h⟩ := Option.bind_eq_some_iff.mp h
      obtain ⟨_, hcopied, h⟩ := Option.bind_eq_some_iff.mp h
      obtain rfl := Option.some.inj hcopied
      obtain ⟨⟨s₂, toCache⟩, hunused, h⟩ := Option.bind_eq_some_iff.mp h
      obtain ⟨rfl, rfl⟩ := Prod.mk.inj (Option.some.inj h)
      obtain ⟨hv₁, hkeeps₁⟩ := (hv.markSliceUsed _).addToHeader hread
        (fun part hpart => hv.prepareFill hpart) hfirst
      have hkeeps : KeepsHeader s s₁ := ⟨hkeeps₁.size, hkeeps₁.mode, hkeeps₁.loaded, hkeeps₁.parts⟩
      obtain ⟨hv₂, hkeeps₂, hputs⟩ := hv₁.serializeAndUnloadUnused hunused
      exact ⟨hv₂, hkeeps.trans hkeeps₂, hputs.of_keeps hkeeps⟩
    · obtain ⟨rfl, rfl⟩ := Prod.ext_iff.mp (Option.some.inj h)
      obtain ⟨hv₁, hkeeps₁, hnone₁⟩ := hv.handleReadFromCache (offset / kInSlice) ⟨[], _, none,
        .waitingRemote, []⟩
      refine ⟨hv₁, hkeeps₁, ?_⟩
      dsimp only
      rw [hnone₁]
      exact Puts.none

/-- Slices are read from the cache once the header is known. -/
theorem reads_handleReadFromCache {i : ℕ} {filled : Slices.FillResult}
    (h : n ∈ (s.handleReadFromCache i filled).2.sliceNumbersFromCache) :
    n ∈ filled.sliceNumbersFromCache ∨ n ≠ 0 ∧ s.headerMode ≠ .unknown := by
  unfold Slices.handleReadFromCache at h
  split_ifs at h with hcache
  · have hmode : s.headerMode ≠ .unknown := by
      unfold Slices.cacheNotLoaded at hcache
      simp only [Bool.and_eq_true, decide_eq_true_eq] at hcache
      exact hcache.1.2
    split at h
    · exact Or.inl h
    · split_ifs at h
      · exact Or.inl h
      · dsimp only [Slices.addOr, Slice.stackAdd] at h
        split_ifs at h
        · rcases List.mem_append.mp h with h | h
          · exact Or.inl h
          · rw [List.mem_singleton.mp h]
            exact Or.inr ⟨Nat.succ_ne_zero i, hmode⟩
        · exact Or.inl h
  · exact Or.inl h

theorem fill_reads {count : ℕ} {filled : Slices.FillResult}
    (h : s.fill offset count = some (s', filled)) (hn : n ∈ filled.sliceNumbersFromCache) :
    n ≠ 0 ∧ s.headerMode ≠ .unknown := by
  have hnil : ∀ {P : Prop}, n ∈ ([] : List ℕ) → P := fun h => absurd h List.not_mem_nil
  unfold Slices.fill at h
  split_ifs at h with hcount hheader hloading hfull
  · obtain ⟨rfl, rfl⟩ := Prod.mk.inj (Option.some.inj h)
    exact hnil hn
  · obtain ⟨filled', hfilled, heq⟩ := Option.map_eq_some_iff.mp h
    obtain ⟨rfl, rfl⟩ := Prod.mk.inj heq
    unfold Slices.fillFromHeader at hfilled
    dsimp only at hfilled
    split_ifs at hfilled
    · obtain ⟨buffer, -, rfl⟩ := Option.map_eq_some_iff.mp hfilled
      exact hnil hn
    · obtain rfl := Option.some.inj hfilled
      exact hnil hn
  · dsimp only at h
    rw [Option.ite_none_left_eq_some] at h
    obtain ⟨-, h⟩ := h
    split_ifs at h with hsecond hready hready
    · obtain ⟨_, -, h⟩ := Option.bind_eq_some_iff.mp h
      obtain ⟨_, -, h⟩ := Option.bind_eq_some_iff.mp h
      obtain ⟨_, -, h⟩ := Option.bind_eq_some_iff.mp h
      obtain ⟨_, -, h⟩ := Option.bind_eq_some_iff.mp h
      obtain ⟨_, -, h⟩ := Option.bind_eq_some_iff.mp h
      obtain ⟨_, -, h⟩ := Option.bind_eq_some_iff.mp h
      obtain ⟨rfl, rfl⟩ := Prod.mk.inj (Option.some.inj h)
      exact hnil hn
    · obtain ⟨rfl, rfl⟩ := Prod.ext_iff.mp (Option.some.inj h)
      rcases reads_handleReadFromCache hn with hn | ⟨hne, hmode⟩
      · rcases reads_handleReadFromCache hn with hn | hdone
        · exact hnil hn
        · exact hdone
      · refine ⟨hne, fun hunknown => hmode ?_⟩
        unfold Slices.handleReadFromCache
        split_ifs
        · split
          · exact hunknown
          · split_ifs
            · exact hunknown
            · exact hunknown
        · exact hunknown
    · obtain ⟨_, -, h⟩ := Option.bind_eq_some_iff.mp h
      obtain ⟨_, -, h⟩ := Option.bind_eq_some_iff.mp h
      obtain ⟨_, -, h⟩ := Option.bind_eq_some_iff.mp h
      obtain ⟨_, -, h⟩ := Option.bind_eq_some_iff.mp h
      obtain ⟨rfl, rfl⟩ := Prod.mk.inj (Option.some.inj h)
      exact hnil hn
    · obtain ⟨rfl, rfl⟩ := Prod.ext_iff.mp (Option.some.inj h)
      rcases reads_handleReadFromCache hn with hn | hdone
      · exact hnil hn
      · exact hdone

theorem Valid.processPart_keeps (hv : Valid loads s) (h : s.processPart offset bytes = some s') :
    KeepsHeader s s' := by
  unfold Slices.processPart at h
  split_ifs at h with hfull
  · obtain ⟨header, hheader, rfl⟩ := Option.map_eq_some_iff.mp h
    obtain ⟨-, rfl⟩ := Slice.addPart_eq hheader
    exact ⟨rfl, rfl, fun _ => rfl, fun hgood => absurd (hv.good hgood) (by
      simp [computeIsGoodHeader_full hfull])⟩
  · have hsame := addPartTo_sameHeader h
    exact ⟨hsame.size, hsame.mode, fun _ => congrArg Slice.loadedFromCache hsame.header,
      fun _ => congrArg Slice.parts hsame.header⟩

/-! ## Entries of the cache -/

/-- **What an entry of the cache gives**, for the slice it is of. -/
structure Stored (size : ℕ) (loads : ℕ → Bytes → Prop) (n : ℕ) (entry : ParsedCacheEntry) :
    Prop where
  holds : Holds size loads n entry.parts
  count : n = 0 → isFullInHeader size = false → entry.parts.size ≤ kMaxPartsInHeader
  included : ∀ included ∈ entry.included, Holds size loads 1 included

theorem parseCachedMap_nil (maxSize : ℕ) : parseCachedMap [] maxSize = (.empty, []) := by
  have hcontiguous : isContiguousSerialization (toInt ([] : Bytes).length) (toInt maxSize) = true := by
    rw [isContiguousSerialization, Bool.or_eq_true]
    exact Or.inl rfl
  rw [parseCachedMap, if_pos hcontiguous]
  split_ifs
  · rfl
  · rw [List.take_nil, contiguousParts, dif_pos rfl]

/-- Nothing that is there gives nothing. -/
theorem parseCacheEntry_nil (n size : ℕ) :
    (parseCacheEntry [] n size).parts = .empty ∧ Stored size loads n (parseCacheEntry [] n size) := by
  rw [parseCacheEntry, parseCachedMap_nil]
  dsimp only
  rw [parseCachedMap_nil]
  split_ifs
  · exact ⟨rfl, Holds.empty, fun _ _ => Nat.zero_le _, fun _ h => Option.some.inj h ▸ Holds.empty⟩
  · exact ⟨rfl, Holds.empty, fun _ _ => Nat.zero_le _, fun _ h => by cases h⟩

/-- **What is put to the cache gives parts of the file**, and those of the header for the header. -/
theorem Valid.stored (hv : Valid loads s) {slice : SerializedSlice}
    (h : s.serializeAndUnloadSlice n = some (s', slice)) :
    Stored s.size loads slice.number (parseCacheEntry slice.data slice.number s.size) ∧
      (parseCacheEntry slice.data slice.number s.size).parts.isEmpty = false ∧
      (slice.number = 0 →
        (parseCacheEntry slice.data slice.number s.size).parts = s.header.parts) ∧
      s.headerMode ≠ .unknown := by
  rw [hv.parseCacheEntry_serialize h]
  obtain ⟨hunknown, -, hheader | hslice⟩ := serializeAndUnloadSlice_eq h
  · obtain ⟨hmode, hnumber, hne, first, hfirst, -⟩ := hheader
    have hgood : s.isGoodHeader = true := decide_eq_true hmode
    have hentry : cacheEntry s 0 = ⟨s.header.parts, some (noHeaderParts s first)⟩ := by
      rw [cacheEntry, if_pos ⟨rfl, hgood⟩, List.getD_eq_getElem?_getD, hfirst, Option.getD_some]
    rw [hnumber, hentry]
    refine ⟨⟨hv.header, fun _ => hv.headerSize, fun included hincluded => ?_⟩,
      List.isEmpty_eq_false_iff.mpr hne, fun _ => rfl, hunknown⟩
    obtain rfl := Option.some.inj hincluded
    exact (hv.slices 0 first hfirst).foldl_erase _
  · obtain ⟨hgood, kept, hkept, last, hlast, -⟩ := hslice
    have hplain : ¬(slice.number = 0 ∧ s.isGoodHeader = true) := fun hnot =>
      hgood ⟨of_decide_eq_true hnot.2, hnot.1⟩
    rw [cacheEntry, if_neg hplain, hkept, Option.getD_some]
    have hheader : slice.number = 0 → kept = s.header := fun hzero => by
      rw [hzero] at hkept
      exact (Option.some.inj hkept).symm
    refine ⟨⟨(hv.sliceAt hkept).1, fun hzero => ?_, fun _ hnone => by cases hnone⟩, ?_,
      fun hzero => congrArg Slice.parts (hheader hzero), hunknown⟩
    · rw [hheader hzero]
      exact hv.headerSize
    · refine List.isEmpty_eq_false_iff.mpr fun hnil => absurd hlast ?_
      simp [show kept.parts.entries = [] from hnil]

/-! ## A reader -/

/-- **A reader and the cache**: what was read from the cache for a slice may be given to it at any
time. -/
structure Reader where
  slices : Slices
  cache : FlatMap ℕ Bytes
  results : List (ℕ × PartsMap)

/-- What comes from the cache for a slice; with the header of a good mode comes the first slice. -/
def cacheResults (cache : FlatMap ℕ Bytes) (n size : ℕ) : List (ℕ × PartsMap) :=
  let entry := parseCacheEntry ((cache.find? n).getD []) n size
  (n, entry.parts) :: (entry.included.map fun included => (1, included)).toList

namespace Reader

/-- The constructor of `Reader`. -/
def new (size : ℕ) (useCache : Bool) (cache : FlatMap ℕ Bytes) : Option Reader :=
  (Slices.new size useCache).map fun slices =>
    ⟨slices, cache, if useCache then cacheResults cache 0 size else []⟩

/-- `Reader::readFromCache`. -/
def readFromCache (r : Reader) (sliceNumber : ℕ) : Reader :=
  let sliceNumber := if sliceNumber = 1 ∧ r.slices.isGoodHeader then 0 else sliceNumber
  { r with results := r.results ++ cacheResults r.cache sliceNumber r.slices.size }

/-- `Reader::putToCache`, of what there is to be put. -/
def putToCache (r : Reader) : Option SerializedSlice → Reader
  | none => r
  | some slice => { r with cache := r.cache.assign slice.number slice.data }

/-- The header was read from the cache, or there is none. -/
def HeaderKnown (r : Reader) : Prop :=
  r.slices.headerMode = .noCache ∨ r.slices.header.loadedFromCache = true

/-- **A step of the reader, or of what is around it.**  The cache may lose an entry; what was read
from it comes; a part that was asked for is loaded, which nothing is before the header was read; a
buffer is filled; the streaming knows the header; the reader is left, and another one is made. -/
inductive Step (loads : ℕ → Bytes → Prop) : Reader → Reader → Prop
  | evict (r : Reader) (n : ℕ) : Step loads r { r with cache := r.cache.erase n }
  | read (r : Reader) {n : ℕ} (hn : n ≠ 0) (hmode : r.slices.headerMode ≠ .unknown)
      (hcache : r.slices.headerMode ≠ .noCache) : Step loads r (r.readFromCache n)
  | result (r : Reader) (n : ℕ) (parts : PartsMap) {slices : Slices} (hmem : (n, parts) ∈ r.results)
      (h : r.slices.processCacheResult n parts = some slices) : Step loads r { r with slices }
  | part (r : Reader) (offset : ℕ) (bytes : Bytes) {slices : Slices} (hread : r.HeaderKnown)
      (hoffset : kPartSize ∣ offset ∧ offset < r.slices.size)
      (hbytes : bytes.length = min kPartSize (r.slices.size - offset)) (hloads : loads offset bytes)
      (h : r.slices.processPart offset bytes = some slices) : Step loads r { r with slices }
  | fill (r : Reader) (offset count : ℕ) {slices : Slices} (filled : Slices.FillResult)
      (h : r.slices.fill offset count = some (slices, filled)) :
      Step loads r
        ((filled.sliceNumbersFromCache.foldl readFromCache { r with slices }).putToCache
          filled.toCache)
  | headerDone (r : Reader) {slices : Slices} (hread : r.HeaderKnown)
      (h : r.slices.headerDone false = some slices) : Step loads r { r with slices }
  | unloadToCache (r : Reader) {slices : Slices} {toCache : Option SerializedSlice}
      (h : r.slices.unloadToCache = some (slices, toCache)) :
      Step loads r ({ r with slices }.putToCache toCache)
  | reopen (r : Reader) {useCache : Bool} {r' : Reader}
      (h : new r.slices.size useCache r.cache = some r') : Step loads r r'

/-- What a reader of a file may come to, with all readers of it before; the size is a 32 bit
number. -/
def Reachable (loads : ℕ → Bytes → Prop) (r : Reader) : Prop :=
  ∃ size < 2 ^ 32, ∃ useCache first, new size useCache .empty = some first ∧
    Relation.ReflTransGen (Step loads) first r

/-! ## What a reader keeps -/

/-- What the cache has for the header, and what was read of it, is one and the same or nothing. -/
def Agrees (r : Reader) (header : PartsMap) : Prop :=
  (∀ data, r.cache.find? 0 = some data →
      (parseCacheEntry data 0 r.slices.size).parts = header) ∧
    ∀ p, (0, p) ∈ r.results → p = header ∨ p = .empty

/-- **The invariant of a reader.** -/
structure Inv (loads : ℕ → Bytes → Prop) (r : Reader) : Prop where
  valid : Valid loads r.slices
  results : ∀ n p, (n, p) ∈ r.results → Holds r.slices.size loads n p ∧
    (n = 0 → isFullInHeader r.slices.size = false → p.size ≤ kMaxPartsInHeader)
  cached : ∀ n data, r.cache.find? n = some data →
    Stored r.slices.size loads n (parseCacheEntry data n r.slices.size) ∧
      (parseCacheEntry data n r.slices.size).parts.isEmpty = false
  unread : r.slices.headerMode = .unknown → r.slices.header.loadedFromCache = false →
    ∃ header, (∀ data, r.cache.find? 0 = some data →
        (parseCacheEntry data 0 r.slices.size).parts = header) ∧
      ∀ p, (0, p) ∈ r.results → p = header
  unknown : r.slices.headerMode = .unknown → r.slices.header.loadedFromCache = true →
    r.cache.find? 0 = none ∧ ∀ p, (0, p) ∈ r.results → p = .empty
  good : r.slices.headerMode = .good → r.Agrees r.slices.header.parts

variable {r r' : Reader}

theorem stored_getD (hcached : ∀ n data, r.cache.find? n = some data →
    Stored size loads n (parseCacheEntry data n size) ∧
      (parseCacheEntry data n size).parts.isEmpty = false) (n : ℕ) :
    Stored size loads n (parseCacheEntry ((r.cache.find? n).getD []) n size) := by
  cases hfind : r.cache.find? n with
  | none => exact (parseCacheEntry_nil n size).2
  | some data => exact (hcached n data hfind).1

theorem mem_cacheResults {cache : FlatMap ℕ Bytes} {m : ℕ} {p : PartsMap}
    (h : (m, p) ∈ cacheResults cache n size) :
    (m = n ∧ p = (parseCacheEntry ((cache.find? n).getD []) n size).parts) ∨
      (m = 1 ∧ p ∈ (parseCacheEntry ((cache.find? n).getD []) n size).included) := by
  rcases List.mem_cons.mp h with heq | hmem
  · exact Or.inl (Prod.mk.inj heq)
  · rw [Option.mem_toList] at hmem
    obtain ⟨included, hincluded, heq⟩ := Option.map_eq_some_iff.mp hmem
    obtain ⟨rfl, rfl⟩ := Prod.mk.inj heq
    exact Or.inr ⟨rfl, hincluded⟩

/-- **What comes from the cache are parts of the file.** -/
theorem holds_cacheResults (hcached : ∀ n data, r.cache.find? n = some data →
    Stored size loads n (parseCacheEntry data n size) ∧
      (parseCacheEntry data n size).parts.isEmpty = false) {m : ℕ} {p : PartsMap}
    (h : (m, p) ∈ cacheResults r.cache n size) : Holds size loads m p ∧
      (m = 0 → isFullInHeader size = false → p.size ≤ kMaxPartsInHeader) := by
  have hstored := stored_getD hcached n
  rcases mem_cacheResults h with ⟨rfl, rfl⟩ | ⟨rfl, hincluded⟩
  · exact ⟨hstored.holds, hstored.count⟩
  · exact ⟨hstored.included p hincluded, fun hone => absurd hone (by decide)⟩

theorem slicesNew_eq {useCache : Bool} (h : Slices.new size useCache = some s) :
    s.size = size ∧ s.header.loadedFromCache = false ∧
      s.headerMode = if useCache then .unknown else .noCache := by
  unfold Slices.new at h
  rw [Option.ite_none_left_eq_some, Option.ite_none_left_eq_some] at h
  obtain rfl := Option.some.inj h.2.2
  exact ⟨rfl, rfl, rfl⟩

/-- A new reader, with what the readers before it left in the cache. -/
theorem Inv.new {useCache : Bool} {cache : FlatMap ℕ Bytes} (hsize : size < 2 ^ 32)
    (hcached : ∀ n data, cache.find? n = some data →
      Stored size loads n (parseCacheEntry data n size) ∧
        (parseCacheEntry data n size).parts.isEmpty = false)
    (h : Reader.new size useCache cache = some r) : Inv loads r := by
  obtain ⟨slices, hslices, rfl⟩ := Option.map_eq_some_iff.mp h
  obtain ⟨rfl, hloaded, hmode⟩ := slicesNew_eq hslices
  have hcache : slices.headerMode = .unknown → useCache = true := fun hunknown => by
    cases useCache with
    | true => rfl
    | false => exact absurd (hmode.symm.trans hunknown) (by decide)
  refine ⟨Valid.new hsize hslices, fun n p hp => ?_, hcached, fun hunknown _ => ?_,
    fun _ hread => absurd (hloaded.symm.trans hread) (by decide), fun hgood => ?_⟩
  · dsimp only at hp
    split_ifs at hp
    · exact holds_cacheResults (r := ⟨slices, cache, []⟩) hcached hp
    · exact absurd hp List.not_mem_nil
  · dsimp only
    rw [if_pos (hcache hunknown)]
    refine ⟨(parseCacheEntry ((cache.find? 0).getD []) 0 slices.size).parts, fun data hdata => ?_,
      fun p hp => ?_⟩
    · rw [hdata, Option.getD_some]
    · rcases mem_cacheResults hp with ⟨-, rfl⟩ | ⟨hone, -⟩
      · rfl
      · exact absurd hone (by decide)
  · rw [hmode] at hgood
    split_ifs at hgood

/-- **A step that keeps the header keeps the invariant.** -/
theorem Inv.keeps (hi : Inv loads r) (hv : Valid loads s) (hkeeps : KeepsHeader r.slices s) :
    Inv loads { r with slices := s } where
  valid := hv
  results := hkeeps.size ▸ hi.results
  cached := hkeeps.size ▸ hi.cached
  unread hmode hloaded := hkeeps.size ▸ hi.unread (hkeeps.mode ▸ hmode)
    (hkeeps.loaded (hkeeps.mode ▸ hmode) ▸ hloaded)
  unknown hmode hloaded := hi.unknown (hkeeps.mode ▸ hmode)
    (hkeeps.loaded (hkeeps.mode ▸ hmode) ▸ hloaded)
  good hmode := by
    have hgood : r.slices.headerMode = .good := hkeeps.mode ▸ hmode
    obtain ⟨hcache, hresults⟩ := hi.good hgood
    refine ⟨fun data hdata => ?_, fun p hp => ?_⟩
    · dsimp only
      rw [hkeeps.size, hkeeps.parts hgood]
      exact hcache data hdata
    · dsimp only
      rw [hkeeps.parts hgood]
      exact hresults p hp

theorem Inv.evict (hi : Inv loads r) (n : ℕ) : Inv loads { r with cache := r.cache.erase n } := by
  have hfind : ∀ m data, (r.cache.erase n).find? m = some data → r.cache.find? m = some data := by
    intro m data h
    rw [FlatMap.find?_erase, Option.ite_none_left_eq_some] at h
    exact h.2
  refine ⟨hi.valid, hi.results, fun m data h => hi.cached m data (hfind m data h),
    fun hmode hloaded => ?_, fun hmode hloaded => ?_, fun hmode => ?_⟩
  · obtain ⟨header, hcache, hresults⟩ := hi.unread hmode hloaded
    exact ⟨header, fun data h => hcache data (hfind 0 data h), hresults⟩
  · obtain ⟨hnone, hresults⟩ := hi.unknown hmode hloaded
    refine ⟨?_, hresults⟩
    dsimp only
    rw [FlatMap.find?_erase, hnone, ite_self]
  · obtain ⟨hcache, hresults⟩ := hi.good hmode
    exact ⟨fun data h => hcache data (hfind 0 data h), hresults⟩

theorem Inv.readFromCache {n : ℕ} (hi : Inv loads r) (hn : n ≠ 0)
    (hmode : r.slices.headerMode ≠ .unknown) : Inv loads (r.readFromCache n) := by
  unfold Reader.readFromCache
  refine ⟨hi.valid, fun m p hp => ?_, hi.cached, fun h => absurd h hmode, fun h => absurd h hmode,
    fun hgood => ?_⟩
  · rcases List.mem_append.mp hp with hp | hp
    · exact hi.results m p hp
    · exact holds_cacheResults hi.cached hp
  · obtain ⟨hcache, hresults⟩ := hi.good hgood
    refine ⟨hcache, fun p hp => ?_⟩
    rcases List.mem_append.mp hp with hp | hp
    · exact hresults p hp
    · have hzero : ∀ m, (0, p) ∈ cacheResults r.cache m r.slices.size → m ≠ 0 → False := by
        intro m hm hne
        rcases mem_cacheResults hm with ⟨hzero, -⟩ | ⟨hone, -⟩
        · exact hne hzero.symm
        · exact absurd hone (by decide)
      split_ifs at hp with hfirst
      · rcases mem_cacheResults hp with ⟨-, rfl⟩ | ⟨hone, -⟩
        · cases hfind : r.cache.find? 0 with
          | none => exact Or.inr (show _ ∧ Stored _ loads 0 _ from parseCacheEntry_nil 0 _).1
          | some data => exact Or.inl (hcache data hfind)
        · exact absurd hone (by decide)
      · exact absurd (hzero n hp hn) not_false

/-- **What is put to the cache is what a header of a good mode is.** -/
theorem Inv.putToCache {toCache : Option SerializedSlice} (hi : Inv loads r)
    (hputs : Puts loads r.slices toCache) : Inv loads (r.putToCache toCache) := by
  cases toCache with
  | none => exact hi
  | some slice =>
    obtain ⟨s₁, s₂, n, hv, hkeeps, hserialize⟩ := hputs slice rfl
    obtain ⟨hstored, hne, hheader, hmode⟩ := hv.stored hserialize
    rw [hkeeps.size] at hstored hne hheader
    have hmode' : r.slices.headerMode ≠ .unknown := hkeeps.mode ▸ hmode
    have hfind : ∀ m data, (r.cache.assign slice.number slice.data).find? m = some data →
        m = slice.number ∧ data = slice.data ∨ r.cache.find? m = some data := by
      intro m data h
      rw [FlatMap.find?_assign] at h
      split_ifs at h with hm
      · exact Or.inl ⟨hm, (Option.some.inj h).symm⟩
      · exact Or.inr h
    refine ⟨hi.valid, hi.results, fun m data h => ?_, fun h => absurd h hmode',
      fun h => absurd h hmode', fun hgood => ?_⟩
    · rcases hfind m data h with ⟨rfl, rfl⟩ | h
      · exact ⟨hstored, hne⟩
      · exact hi.cached m data h
    · obtain ⟨hcache, hresults⟩ := hi.good hgood
      refine ⟨fun data h => ?_, hresults⟩
      rcases hfind 0 data h with ⟨hzero, rfl⟩ | h
      · have hparts := hheader hzero.symm
        rw [hkeeps.parts hgood, ← hzero] at hparts
        exact hparts
      · exact hcache data h

/-- **What comes from the cache for the header keeps the invariant**: there it is what it was, or it
becomes what was read. -/
theorem Inv.cacheResult {n : ℕ} {parts : PartsMap} (hi : Inv loads r) (hmem : (n, parts) ∈ r.results)
    (h : r.slices.processCacheResult n parts = some s) : Inv loads { r with slices := s } := by
  obtain ⟨hholds, hcount⟩ := hi.results n parts hmem
  by_cases hn : n = 0
  · obtain rfl := hn
    obtain ⟨hv, hsize, hkept | hread⟩ := hi.valid.processCacheResult_header hholds (hcount rfl)
      (fun hgood => (hi.good hgood).2 parts hmem) h
    · obtain ⟨hmode, hparts, hheader⟩ := hkept
      exact hi.keeps hv ⟨hsize, hmode, fun hunknown => congrArg Slice.loadedFromCache
        (hheader hunknown), fun _ => hparts⟩
    · obtain ⟨hmode, hunread, hparts, hloaded, hmode'⟩ := hread
      obtain ⟨header, hcache, hresults⟩ := hi.unread hmode hunread
      obtain rfl := hresults parts hmem
      refine ⟨hv, hsize ▸ hi.results, hsize ▸ hi.cached,
        fun _ hnot => absurd (hloaded.symm.trans hnot) (by decide), fun hunknown _ => ?_,
        fun _ => ⟨?_, ?_⟩⟩
      · dsimp only at hunknown
        rw [hmode'] at hunknown
        split_ifs at hunknown with hempty
        · refine ⟨Option.eq_none_iff_forall_ne_some.mpr fun data hdata => ?_, fun p hp => ?_⟩
          · have hfull := (hi.cached 0 data hdata).2
            rw [hcache data hdata, hempty] at hfull
            exact absurd hfull (by decide)
          · rw [hresults p hp]
            exact FlatMap.ext (FlatMap.isEmpty_iff.mp hempty)
        · exact absurd hunknown (headerModeOf_ne_unknown s)
      · intro data hdata
        dsimp only
        rw [hsize, hparts]
        exact hcache data hdata
      · intro p hp
        exact Or.inl ((hresults p hp).trans hparts.symm)
  · obtain ⟨hv, hsame⟩ := hi.valid.processCacheResult_slice hn hholds h
    exact hi.keeps hv ⟨hsame.size, hsame.mode, fun _ => congrArg Slice.loadedFromCache hsame.header,
      fun _ => congrArg Slice.parts hsame.header⟩

/-- **Every step keeps the invariant.** -/
theorem Inv.step (hi : Inv loads r) (h : Step loads r r') : Inv loads r' := by
  have hread : r.HeaderKnown → r.slices.headerMode = .unknown →
      r.slices.header.loadedFromCache = true := fun hknown hmode => hknown.resolve_left (by simp [hmode])
  cases h with
  | evict n => exact hi.evict n
  | read hn hmode hcache => exact hi.readFromCache hn hmode
  | result n parts hmem hresult => exact hi.cacheResult hmem hresult
  | @part offset bytes slices hknown hoffset hbytes hloads hpart =>
    have hof : PartOf r.slices.size loads 0 (offset, bytes) :=
      ⟨hoffset.1, hoffset.2, hbytes, by rwa [sliceStart, Nat.zero_sub, Nat.zero_mul, Nat.zero_add]⟩
    exact hi.keeps (hi.valid.processPart hpart (hread hknown) hof) (hi.valid.processPart_keeps hpart)
  | @fill offset count slices filled hfill =>
    obtain ⟨hv, hkeeps, hputs⟩ := hi.valid.fill hfill
    have hreads : ∀ (l : List ℕ) (r₁ : Reader), Inv loads r₁ → KeepsHeader r.slices r₁.slices →
        (∀ n ∈ l, n ≠ 0 ∧ r.slices.headerMode ≠ .unknown) →
        Inv loads (l.foldl Reader.readFromCache r₁) ∧
          (l.foldl Reader.readFromCache r₁).slices = r₁.slices := by
      intro l
      induction l with
      | nil => exact fun r₁ hi₁ _ _ => ⟨hi₁, rfl⟩
      | cons n l ih =>
        intro r₁ hi₁ hkeeps₁ hl
        obtain ⟨hn, hmode⟩ := hl n List.mem_cons_self
        exact ih _ (hi₁.readFromCache hn (hkeeps₁.mode ▸ hmode)) hkeeps₁
          fun m hm => hl m (List.mem_cons_of_mem _ hm)
    obtain ⟨hi₁, hslices⟩ := hreads filled.sliceNumbersFromCache { r with slices }
      (hi.keeps hv hkeeps) hkeeps fun n hn => fill_reads hfill hn
    exact hi₁.putToCache (hputs.of_keeps (hslices ▸ hkeeps.symm))
  | @headerDone slices hknown hdone =>
    have hloading : r.slices.header.loadingFromCache = false := by
      by_contra hloading
      obtain ⟨hmode, hunread⟩ := hi.valid.loading (Bool.not_eq_false _ ▸ hloading)
      exact absurd ((hread hknown hmode).symm.trans hunread) (by decide)
    obtain ⟨hv, hheader, hsize, hmode⟩ := hi.valid.headerDone hloading hdone
    split_ifs at hmode with hunknown
    · have hne : slices.headerMode ≠ .unknown := hmode ▸ headerModeOf_ne_unknown r.slices
      obtain ⟨hnone, hresults⟩ := hi.unknown hunknown (hread hknown hunknown)
      exact ⟨hv, hsize ▸ hi.results, hsize ▸ hi.cached, fun h => absurd h hne, fun h => absurd h hne,
        fun _ => ⟨fun data hdata => absurd (hnone.symm.trans hdata) (by simp),
          fun p hp => Or.inr (hresults p hp)⟩⟩
    · exact hi.keeps hv ⟨hsize, hmode, fun _ => congrArg Slice.loadedFromCache hheader,
        fun _ => congrArg Slice.parts hheader⟩
  | @unloadToCache slices toCache hunload =>
    obtain ⟨hv, hkeeps, hputs⟩ := hi.valid.unloadToCache hunload
    exact (hi.keeps hv hkeeps).putToCache (hputs.of_keeps hkeeps.symm)
  | reopen hnew => exact Inv.new hi.valid.size hi.cached hnew

/-- **Every reader keeps the invariant.** -/
theorem Reachable.inv (h : Reachable loads r) : Inv loads r := by
  obtain ⟨size, hsize, useCache, first, hnew, hsteps⟩ := h
  induction hsteps with
  | refl =>
    exact Inv.new hsize (fun n data hdata =>
      absurd ((FlatMap.find?_empty n).symm.trans hdata) (by simp)) hnew
  | tail _ hstep ih => exact ih.step hstep

/-- **What is put to the cache is read back**: for every reader that there may be, and whatever slice
of it is put, with the slices used last being any, the entry gives the parts of the slice, or those of
the header with those of the first slice that the header has not.  No part of them goes beyond its
slice. -/
theorem cache_round_trip (h : Reachable loads r) (usedSlices : List ℕ) (n : ℕ)
    (slice : SerializedSlice)
    (hserialize : { r.slices with usedSlices }.serializeAndUnloadSlice n = some (s, slice)) :
    parseCacheEntry slice.data slice.number r.slices.size = cacheEntry r.slices slice.number ∧
      (∀ part ∈ (parseCacheEntry slice.data slice.number r.slices.size).parts.entries,
        part.1 + part.2.length ≤ maxSliceSize slice.number r.slices.size) ∧
      ∀ included ∈ (parseCacheEntry slice.data slice.number r.slices.size).included,
        ∀ part ∈ included.entries, part.1 + part.2.length ≤ maxSliceSize 1 r.slices.size := by
  have hv : Valid loads { r.slices with usedSlices } := { h.inv.valid with }
  obtain ⟨hstored, -⟩ := hv.stored hserialize
  refine ⟨hv.parseCacheEntry_serialize hserialize, fun part hpart => ?_,
    fun included hincluded part hpart => ?_⟩
  · exact (hstored.holds.wellFormed.bounds hpart).2.2
  · exact ((hstored.included included hincluded).wellFormed.bounds hpart).2.2

/-- Slices of a file of 80 parts and three bytes, with the last part loaded. -/
def sampleSlices (read loaded inHeader : Bool) (headerMode : HeaderMode) (usedSlices : List ℕ) :
    Slices where
  data := [⟨.empty, false, headerMode = .good, false⟩,
    ⟨if loaded then FlatMap.empty.emplace (16 * kPartSize) [1, 2, 3] else .empty, false,
      headerMode = .good, false⟩]
  header := ⟨if inHeader then FlatMap.empty.emplace (80 * kPartSize) [1, 2, 3] else .empty, !read, read,
    inHeader⟩
  usedSlices
  size := 80 * kPartSize + 3
  headerMode

/-- A reader of such a file. -/
def sampleReader (slices : Slices) : Reader := ⟨slices, .empty, [(0, .empty), (1, .empty)]⟩

theorem sampleReader_reachable :
    Reachable (fun _ _ => True) (sampleReader (sampleSlices true true true .good [1])) := by
  refine ⟨80 * kPartSize + 3, by decide, true, sampleReader (sampleSlices false false false .unknown []),
    ?_, ?_⟩
  · have hslices : Slices.new (80 * kPartSize + 3) true
        = some (sampleSlices false false false .unknown []) := by decide +kernel
    have hresults : cacheResults .empty 0 (80 * kPartSize + 3) = [(0, .empty), (1, .empty)] := by
      have hgood : computeIsGoodHeader (80 * kPartSize + 3) .empty = true := by decide +kernel
      rw [cacheResults, FlatMap.find?_empty, Option.getD_none, parseCacheEntry, parseCachedMap_nil]
      dsimp only
      rw [parseCachedMap_nil, if_pos ⟨rfl, hgood⟩]
      rfl
    rw [Reader.new, hslices, Option.map_some, if_pos rfl, hresults]
    rfl
  · refine Relation.ReflTransGen.head (b := sampleReader (sampleSlices true false false .unknown []))
      (.result _ 0 .empty List.mem_cons_self (by decide +kernel)) ?_
    refine Relation.ReflTransGen.head (b := sampleReader (sampleSlices true true false .unknown []))
      (.part _ (80 * kPartSize) [1, 2, 3] (Or.inr rfl) (by decide) (by decide)
        trivial (by decide +kernel)) ?_
    refine Relation.ReflTransGen.head (b := sampleReader (sampleSlices true true true .unknown [1]))
      (.fill _ (80 * kPartSize) 3 ⟨[], [], none, .success, [1, 2, 3]⟩
        (by decide +kernel)) ?_
    exact Relation.ReflTransGen.single (.headerDone _ (Or.inr rfl) (by decide +kernel))

/-- The last part is put with the header, and the first slice with it has nothing. -/
theorem cache_round_trip_last :
    parseCacheEntry (serializeComplexPartsMap (FlatMap.empty.emplace (80 * kPartSize) [1, 2, 3])
        ++ [0, 0, 0, 0]) 0 (80 * kPartSize + 3)
      = ⟨FlatMap.empty.emplace (80 * kPartSize) [1, 2, 3], some .empty⟩ :=
  (cache_round_trip sampleReader_reachable [0, 1] 1 ⟨0, serializeComplexPartsMap
      (FlatMap.empty.emplace (80 * kPartSize) [1, 2, 3]) ++ [0, 0, 0, 0]⟩
    (s := unloaded { sampleSlices true true true .good [0, 1] with
      data := (sampleSlices true true true .good [0, 1]).data.set 0 .empty } 0)
    (by decide +kernel)).1.trans (by decide +kernel)

end Reader

end Yunogram.Media.Streaming
