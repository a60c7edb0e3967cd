import Yunogram.Media.FullInCache

/-!
# Media/FullInCacheSteps — what the slices do is a change that keeps the flags in order

What is loaded, what comes from the cache and what is unloaded: each is a `Change` of the slices and
of the flags.  For what is unloaded this needs that only slices that were read from the cache were
changed since.
-/

namespace Yunogram.Media.Streaming

open Machinery Slices

variable {size n offset count : ℕ} {parts result : PartsMap} {bytes file : Bytes}
  {s s' : Slices} {loads : ℕ → Bytes → Prop} {slice slice' : Slice} {i : ℕ}
  {full full' : Full}

/-! ## What the slices do -/

theorem sliceAt_zero (s : Slices) : sliceAt s 0 = some s.header := rfl

theorem sliceAt_succ (s : Slices) (i : ℕ) : sliceAt s (i + 1) = s.data[i]? := rfl

theorem Quiet.of_eq (hslice : sliceAt s' n = sliceAt s n) (hmode : s'.headerMode = s.headerMode) :
    Quiet s s' n := by
  intro slice hs
  refine ⟨slice, hslice ▸ hs, Or.inl ⟨rfl, fun hcounts => ?_⟩⟩
  unfold Counts at hcounts ⊢
  rwa [hmode] at hcounts

theorem Quiet.refl (s : Slices) (n : ℕ) : Quiet s s n := Quiet.of_eq rfl rfl

theorem Quiet.then (h : Quiet s s' n) {s'' : Slices} (hslice : sliceAt s'' n = sliceAt s' n)
    (hmode : s''.headerMode = s'.headerMode) : Quiet s s'' n := by
  intro slice hs
  unfold Counts
  rw [hmode]
  exact h slice (hslice ▸ hs)

/-- One slice takes the place of another. -/
theorem sliceAt_set (slice : Slice) (hn : n ≠ 0) (hi : n ≠ i + 1) :
    sliceAt { s with data := s.data.set i slice } n = sliceAt s n := by
  obtain ⟨j, rfl⟩ := Nat.exists_eq_succ_of_ne_zero hn
  rw [sliceAt_succ, sliceAt_succ, List.getElem?_set_ne fun hij => hi (congrArg (· + 1) hij.symm)]

/-- A slice that a part was added to has it. -/
theorem emplace_ne_empty (parts : PartsMap) (offset : ℕ) (bytes : Bytes)
    (h : parts.find? offset = none) : parts.emplace offset bytes ≠ .empty := by
  intro hempty
  have hsize := FlatMap.size_emplace h bytes
  rw [hempty] at hsize
  exact absurd hsize (Nat.succ_ne_zero _).symm

/-- **A part that was loaded is added, and its slice is checked.** -/
theorem change_processPart (h : full.processPart s offset bytes = some (s', full')) :
    Change s s' full full' := by
  obtain ⟨s₁, hpart, heq⟩ := Option.map_eq_some_iff.mp h
  obtain ⟨rfl, rfl⟩ := Prod.mk.inj heq
  unfold Slices.processPart at hpart
  split_ifs at hpart ⊢ with hfull
  · obtain ⟨header, hheader, rfl⟩ := Option.map_eq_some_iff.mp hpart
    obtain ⟨hnone, rfl⟩ := Slice.addPart_eq hheader
    refine .checked 0 (by rw [Flagged, if_pos hfull]) ?_ fun n hn hflagged =>
      absurd (hflagged.zero hfull) hn
    rintro ⟨slice, hslice, hempty, -⟩
    obtain rfl := Option.some.inj hslice
    exact emplace_ne_empty _ _ _ hnone hempty
  · obtain ⟨slice, slice', hslice, hslice', rfl⟩ := addPartTo_eq hpart
    obtain ⟨hnone, rfl⟩ := Slice.addPart_eq hslice'
    have hlt := (List.getElem?_eq_some_iff.mp hslice).1
    refine .checked _ ?_ ?_ fun n hn hflagged => Quiet.of_eq (sliceAt_set _ ?_ hn) rfl
    · rw [Flagged, if_neg hfull, List.length_set]
      exact ⟨Nat.succ_pos _, hlt⟩
    · rintro ⟨slice', hslice', hempty, -⟩
      rw [sliceAt_succ, List.getElem?_set_self hlt] at hslice'
      obtain rfl := Option.some.inj hslice'
      exact emplace_ne_empty _ _ _ hnone hempty
    · exact Nat.pos_iff_ne_zero.mp (hflagged.pos (Bool.not_eq_true _ ▸ hfull)).1

theorem awaits_succ (s : Slices) (i : ℕ) :
    Full.awaits s (i + 1) = s.data[i]?.any (·.loadingFromCache) := by
  rw [Full.awaits, if_neg fun hzero => Nat.succ_ne_zero i hzero.1, sliceAt_succ]

/-- **What comes for a slice is added to it, and it is checked**, when it was awaited. -/
theorem processCacheResult_slice (hv : Valid loads s) (hn : n ≠ 0)
    (h : full.processCacheResult s n result = some (s', full')) :
    s' = s ∧ full' = full ∨
      Flagged s' n ∧ ¬Rests s' n ∧ full' = full.checkSliceFullLoaded s' n ∧
        isFullInHeader s.size = false ∧ s'.headerMode = s.headerMode ∧
        ∀ k ≠ n, k ≠ 0 → sliceAt s' k = sliceAt s k := by
  obtain ⟨s₁, hresult, heq⟩ := Option.map_eq_some_iff.mp h
  obtain ⟨rfl, rfl⟩ := Prod.mk.inj heq
  obtain ⟨i, rfl⟩ := Nat.exists_eq_succ_of_ne_zero hn
  rw [Slices.processCacheResult, if_neg hn, Nat.succ_sub_one] at hresult
  rw [awaits_succ]
  split at hresult
  · cases hresult
  · next slice hslice =>
    rw [hslice, Option.any_some]
    split_ifs at hresult ⊢ with hloading
    · split at hresult
      · cases hresult
      · next slice' hslice' =>
        obtain rfl := Option.some.inj hresult
        obtain ⟨-, -, rfl⟩ := Slice.processCacheData_eq hslice'
        have hlt := (List.getElem?_eq_some_iff.mp hslice).1
        have hnot := (hv.index hslice).1
        refine Or.inr ⟨?_, ?_, rfl, hnot, rfl, fun k hk hne => ?_⟩
        · rw [Flagged, if_neg (by simp [hnot]), List.length_set]
          exact ⟨Nat.succ_pos _, hlt⟩
        · rintro ⟨slice', hslice', -, hloaded⟩
          rw [sliceAt_succ, List.getElem?_set_self hlt] at hslice'
          obtain rfl := Option.some.inj hslice'
          exact Bool.noConfusion hloaded
        · exact sliceAt_set _ hne hk
    · obtain rfl := Option.some.inj hresult
      exact Or.inl ⟨rfl, rfl⟩

theorem change_processCacheResult_slice (hv : Valid loads s) (hn : n ≠ 0)
    (h : full.processCacheResult s n result = some (s', full')) : Change s s' full full' := by
  rcases processCacheResult_slice hv hn h with
    ⟨rfl, rfl⟩ | ⟨hflagged, hbusy, rfl, hnot, hmode, hothers⟩
  · exact .quiet fun n _ => Quiet.refl _ n
  · refine .checked n hflagged hbusy fun k hk hflagged => Quiet.of_eq (hothers k hk ?_) hmode
    exact Nat.pos_iff_ne_zero.mp (hflagged.pos hnot).1

/-- Slices that may get more parts, before one of them. -/
structure Grows (till : ℕ) (s s' : Slices) : Prop where
  length : s'.data.length = s.data.length
  slices : ∀ (i : ℕ) (slice' : Slice), s'.data[i]? = some slice' →
    ∃ slice, s.data[i]? = some slice ∧ slice'.loadedFromCache = slice.loadedFromCache ∧ slice.parts.size ≤ slice'.parts.size ∧
      (till ≤ i → slice'.parts = slice.parts)

theorem Grows.of_data (till : ℕ) (h : s'.data = s.data) : Grows till s s' :=
  ⟨congrArg List.length h, fun _ slice hi => ⟨slice, h ▸ hi, rfl, Nat.le_refl _, fun _ => rfl⟩⟩

theorem Grows.trans {till : ℕ} {s₁ : Slices} (h : Grows till s s₁) (h' : Grows till s₁ s') :
    Grows till s s' := by
  refine ⟨h'.length.trans h.length, fun i slice' hi => ?_⟩
  obtain ⟨slice₁, hi₁, hloaded₁, hle₁, hsame₁⟩ := h'.slices i slice' hi
  obtain ⟨slice, hi, hloaded, hle, hsame⟩ := h.slices i slice₁ hi₁
  exact ⟨slice, hi, hloaded₁.trans hloaded, hle.trans hle₁,
    fun htill => (hsame₁ htill).trans (hsame htill)⟩

theorem addPartTo_grows {till : ℕ} (hi : i < till) (h : s.addPartTo i offset bytes = some s') :
    Grows till s s' := by
  obtain ⟨slice, slice', hslice, hslice', rfl⟩ := addPartTo_eq h
  obtain ⟨hnone, rfl⟩ := Slice.addPart_eq hslice'
  have hlt := (List.getElem?_eq_some_iff.mp hslice).1
  refine ⟨List.length_set, fun j other hj => ?_⟩
  dsimp only at hj
  rw [List.getElem?_set] at hj
  split_ifs at hj with hij
  · obtain rfl := hij
    obtain rfl := Option.some.inj hj
    refine ⟨slice, hslice, rfl, ?_, fun htill => absurd hi (Nat.not_lt.mpr htill)⟩
    dsimp only
    rw [FlatMap.size_emplace hnone]
    exact Nat.le_succ _
  · exact ⟨other, hj, rfl, Nat.le_refl _, fun _ => rfl⟩

theorem applyWhile_grows {till : ℕ} {entries : List (ℕ × Bytes)}
    (h : applyWhile till entries s = some s') : Grows till s s' := by
  induction entries generalizing s with
  | nil =>
    obtain rfl := Option.some.inj h
    exact Grows.of_data till rfl
  | cons part entries ih =>
    rw [applyWhile] at h
    split_ifs at h with htill
    · obtain rfl := Option.some.inj h
      exact Grows.of_data till rfl
    · split at h
      · cases h
      · next s₁ hadd =>
        exact (addPartTo_grows (Nat.lt_of_not_le htill) hadd).trans (ih h)

theorem applyWhile_sameHeader {till : ℕ} {entries : List (ℕ × Bytes)}
    (h : applyWhile till entries s = some s') : SameHeader s s' := by
  induction entries generalizing s with
  | nil => exact Option.some.inj h ▸ SameHeader.refl s
  | cons part entries ih =>
    rw [applyWhile] at h
    split_ifs at h with htill
    · exact Option.some.inj h ▸ SameHeader.refl s
    · split at h
      · cases h
      · next s₁ hadd =>
        have hsame := addPartTo_sameHeader hadd
        have hsame' := ih h
        exact ⟨hsame'.header.trans hsame.header, hsame'.mode.trans hsame.mode,
          hsame'.size.trans hsame.size⟩

theorem applyHeaderCacheData_header (h : s.applyHeaderCacheData = some s') :
    s'.header = s.header := by
  unfold applyHeaderCacheData at h
  split_ifs at h with hempty hgood hmode
  · exact congrArg Slices.header (Option.some.inj h).symm
  · exact (applyWhile_sameHeader h).header
  · exact congrArg Slices.header (Option.some.inj h).symm
  · rw [headerDone_true s (not_not.mp hmode)] at h
    exact Option.some.inj h ▸ rfl
  · split at h
    · exact nomatch h
    · next s₁ happly =>
      have hsame := applyWhile_sameHeader happly
      rw [headerDone_true s₁ (hsame.mode.trans (not_not.mp hmode))] at h
      exact (congrArg Slices.header (Option.some.inj h).symm).trans hsame.header

/-- **What the header gives to the slices**, when it has not all of the file: to the first one of a
good header, and to all when nothing was known of it. -/
theorem applyHeaderCacheData_grows (hfull : isFullInHeader s.size = false)
    (h : s.applyHeaderCacheData = some s') :
    s'.data = s.data ∧ s'.headerMode = s.headerMode ∨
      s.headerMode = .good ∧ s'.headerMode = .good ∧ Grows 1 s s' ∨
      s.headerMode = .unknown ∧ s'.headerMode ≠ .unknown ∧ s'.headerMode ≠ .noCache ∧
        Grows s.data.length s s' := by
  unfold applyHeaderCacheData at h
  split_ifs at h with hempty hgood hmode hfull'
  · exact Or.inl (Option.some.inj h ▸ ⟨rfl, rfl⟩)
  · exact Or.inr (Or.inl ⟨hgood, (applyWhile_sameHeader h).mode.trans hgood,
      applyWhile_grows h⟩)
  · exact Or.inl (Option.some.inj h ▸ ⟨rfl, rfl⟩)
  · exact absurd (hfull.symm.trans hfull') (by decide)
  · split at h
    · exact nomatch h
    · next s₁ happly =>
      have hunknown := not_not.mp hmode
      rw [headerDone_true s₁ ((applyWhile_sameHeader happly).mode.trans hunknown)] at h
      obtain rfl := Option.some.inj h
      have hgrows := applyWhile_grows happly
      refine Or.inr (Or.inr
        ⟨hunknown, headerModeOf_ne_unknown s₁, ?_, hgrows.length, hgrows.slices⟩)
      dsimp only [headerModeOf]
      split_ifs <;> exact HeaderMode.noConfusion

/-- Slices that hold what others do, and were read as they were. -/
def SameRead (s s' : Slices) : Prop :=
  ∀ (i : ℕ) (slice' : Slice), s'.data[i]? = some slice' → ∃ slice, s.data[i]? = some slice ∧
    slice'.loadedFromCache = slice.loadedFromCache ∧ slice'.parts = slice.parts

theorem SameRead.of_data (h : s'.data = s.data) : SameRead s s' :=
  fun _ slice hi => ⟨slice, h ▸ hi, rfl, rfl⟩

theorem SameRead.trans {s₁ : Slices} (h : SameRead s s₁) (h' : SameRead s₁ s') : SameRead s s' := by
  intro i slice' hi
  obtain ⟨slice₁, hi₁, hloaded₁, hparts₁⟩ := h' i slice' hi
  obtain ⟨slice, hi, hloaded, hparts⟩ := h i slice₁ hi₁
  exact ⟨slice, hi, hloaded₁.trans hloaded, hparts₁.trans hparts⟩

/-- A slice waits for the cache. -/
theorem SameRead.waits (hslice : s.data[i]? = some slice) :
    SameRead s { s with data := s.data.set i { slice with loadingFromCache := true } } := by
  intro j slice' hj
  dsimp only at hj
  rw [List.getElem?_set] at hj
  split_ifs at hj with hij hlt
  · obtain rfl := hij
    obtain rfl := Option.some.inj hj
    exact ⟨slice, hslice, rfl, rfl⟩
  · exact ⟨slice', hj, rfl, rfl⟩

theorem SameRead.quiet (h : SameRead s s') (hmode : s'.headerMode = s.headerMode) (hn : n ≠ 0) :
    Quiet s s' n := by
  obtain ⟨i, rfl⟩ := Nat.exists_eq_succ_of_ne_zero hn
  intro slice' hslice'
  obtain ⟨slice, hslice, hloaded, hparts⟩ := h i slice' hslice'
  refine ⟨slice, hslice, Or.inl ⟨hparts, fun hcounts => ?_⟩⟩
  unfold Counts at hcounts ⊢
  rwa [hmode, hloaded] at hcounts

/-- **What comes for the header** is applied to the slices, when it was awaited. -/
theorem processCacheResult_zero (h : s.processCacheResult 0 result = some s') :
    s' = s ∧ Full.awaits s 0 = false ∨ Full.awaits s 0 = true ∧
      ∃ header' s₁, header'.loadedFromCache = true ∧
        applyHeaderCacheData { s with header := header' } = some s₁ ∧
        SameRead s₁ s' ∧ s'.headerMode = s₁.headerMode ∧ s'.header = s₁.header ∧
        s'.data.length = s₁.data.length := by
  have hprocess : ∀ header : Slice, header.loadingFromCache = true →
      s.processCacheHeader header result = some s' → ∃ header' s₁,
        header'.loadedFromCache = true ∧
        applyHeaderCacheData { s with header := header' } = some s₁ ∧
        SameRead s₁ s' ∧ s'.headerMode = s₁.headerMode ∧ s'.header = s₁.header ∧
        s'.data.length = s₁.data.length := by
    intro header hloading h
    unfold processCacheHeader at h
    rw [if_neg (not_not.mpr hloading)] at h
    split at h
    · exact nomatch h
    · next header' hdata =>
      obtain ⟨-, -, hheader'⟩ := Slice.processCacheData_eq hdata
      have hloaded : header'.loadedFromCache = true := by rw [hheader']
      split at h
      · exact nomatch h
      · next s₁ happly =>
        split_ifs at h
        · split at h
          · exact nomatch h
          · next first hfirst =>
            obtain rfl := Option.some.inj h
            exact ⟨header', s₁, hloaded, happly, SameRead.waits hfirst, rfl, rfl, List.length_set⟩
        · obtain rfl := Option.some.inj h
          exact ⟨header', s₁, hloaded, happly, SameRead.of_data rfl, rfl, rfl, rfl⟩
  rw [Slices.processCacheResult, if_pos rfl] at h
  unfold Full.awaits
  split_ifs at h ⊢ with hgood hzero hzero
  · split at h
    · exact nomatch h
    · next first hfirst =>
      rw [hfirst, Option.any_some]
      split_ifs at h with hloading
      · exact Or.inr ⟨hloading, hprocess _ rfl h⟩
      · exact Or.inl ⟨(Option.some.inj h).symm, Bool.not_eq_true _ ▸ hloading⟩
  · exact absurd hgood.2 hzero
  · exact absurd ⟨rfl, hzero⟩ hgood
  · rw [sliceAt_zero, Option.any_some]
    by_cases hloading : s.header.loadingFromCache = true
    · exact Or.inr ⟨hloading, hprocess _ hloading h⟩
    · rw [processCacheHeader, if_pos hloading] at h
      exact Or.inl ⟨(Option.some.inj h).symm, Bool.not_eq_true _ ▸ hloading⟩

theorem Grows.sameRead {till : ℕ} {s₁ : Slices} (h : Grows till s s₁) (h' : SameRead s₁ s')
    (hlength : s'.data.length = s₁.data.length) : Grows till s s' := by
  refine h.trans ⟨hlength, fun i slice' hi => ?_⟩
  obtain ⟨slice, hslice, hloaded, hparts⟩ := h' i slice' hi
  exact ⟨slice, hslice, hloaded, Nat.le_of_eq (congrArg FlatMap.size hparts.symm), fun _ => hparts⟩

/-- **The slices that get parts of the header are not looked at**: the first one waits for the rest
of it, and of others nothing was read. -/
theorem Grows.quiet {till : ℕ} (h : Grows till s s')
    (hnot : s'.headerMode ≠ .unknown ∧ s'.headerMode ≠ .noCache)
    (hunread : ∀ (i : ℕ) (slice : Slice), i < till → s.data[i]? = some slice →
      slice.loadedFromCache = false)
    (hrest : s'.headerMode = s.headerMode ∨ s.data.length ≤ till) (hn : n ≠ 0) : Quiet s s' n := by
  obtain ⟨i, rfl⟩ := Nat.exists_eq_succ_of_ne_zero hn
  intro slice' hslice'
  obtain ⟨slice, hslice, hloaded, hle, hsame⟩ := h.slices i slice' hslice'
  refine ⟨slice, hslice, ?_⟩
  by_cases hi : i < till
  · refine Or.inr (Or.inr ⟨?_, hle⟩)
    rintro (hzero | hread | hunknown | hcache)
    · exact hn hzero
    · exact absurd (hread.symm.trans (hloaded.trans (hunread i slice hi hslice))) (by decide)
    · exact hnot.1 hunknown
    · exact hnot.2 hcache
  · rcases hrest with hmode | hlength
    · refine Or.inl ⟨hsame (Nat.le_of_not_lt hi), fun hcounts => ?_⟩
      unfold Counts at hcounts ⊢
      rwa [hmode, hloaded] at hcounts
    · exact absurd ((List.getElem?_eq_some_iff.mp hslice).1.trans_le hlength) hi

/-- **What comes for the header**: one that has all of the file is checked, and nothing is of any
other. -/
theorem change_processCacheResult_header (hok : AllOk s) (hsize : s'.size = s.size)
    (h : full.processCacheResult s 0 result = some (s', full')) :
    Change s s' full full' ∧ (isFullInHeader s.size = false →
      full' = full ∧ ∀ n, Flagged s n → Quiet s s' n) := by
  obtain ⟨s₁, hresult, heq⟩ := Option.map_eq_some_iff.mp h
  obtain ⟨rfl, rfl⟩ := Prod.mk.inj heq
  rcases processCacheResult_zero hresult with ⟨rfl, hawaits⟩ |
    ⟨hawaits, header', s₂, hloaded, happly, hread, hmode, hheader, hlength⟩
  · rw [if_neg (by simp [hawaits])]
    exact ⟨.quiet fun n _ => Quiet.refl _ n, fun _ => ⟨rfl, fun n _ => Quiet.refl _ n⟩⟩
  · rw [if_pos hawaits]
    cases hfull : isFullInHeader s.size with
    | true =>
      refine ⟨.checked 0 (by rw [Flagged, hsize, if_pos hfull]) ?_
        fun n hn hflagged => absurd (hflagged.zero hfull) hn, fun hnot => nomatch hnot⟩
      rintro ⟨slice, hslice, -, hunread⟩
      obtain rfl := Option.some.inj hslice
      rw [hheader, applyHeaderCacheData_header happly, hloaded] at hunread
      exact nomatch hunread
    | false =>
      have hnone : full.checkSliceFullLoaded s₁ 0 = full := by
        rw [Full.checkSliceFullLoaded, if_pos ⟨rfl, by simp [hsize, hfull]⟩]
      have hquiet : ∀ n, Flagged s n → Quiet s s₁ n := by
        intro n hflagged
        have hn := Nat.pos_iff_ne_zero.mp (hflagged.pos hfull).1
        rcases applyHeaderCacheData_grows (s := { s with header := header' }) hfull
            happly with ⟨hdata, hmode₂⟩ |
          ⟨hgood, hgood₂, hgrows⟩ | ⟨hunknown, hmode₂, hcache₂, hgrows⟩
        · exact ((SameRead.of_data (s := s) hdata).trans hread).quiet (hmode.trans hmode₂) hn
        · have hgrows' := hgrows.sameRead hread hlength
          refine Grows.quiet ⟨hgrows'.length, hgrows'.slices⟩ ?_ ?_
            (Or.inl (hmode.trans (hgood₂.trans hgood.symm))) hn
          · rw [hmode, hgood₂]
            exact ⟨HeaderMode.noConfusion, HeaderMode.noConfusion⟩
          · intro i slice hi hslice
            obtain rfl := Nat.lt_one_iff.mp hi
            rw [Full.awaits, if_pos ⟨rfl, decide_eq_true hgood⟩, hslice] at hawaits
            exact (hok 0 slice hslice).loading hawaits
        · have hgrows' := hgrows.sameRead hread hlength
          refine Grows.quiet ⟨hgrows'.length, hgrows'.slices⟩ ?_ ?_ (Or.inr (Nat.le_refl _)) hn
          · rw [hmode]
            exact ⟨hmode₂, hcache₂⟩
          · exact fun i slice _ hslice => ((hok i slice hslice).unknown hunknown).2.1
      rw [hnone]
      exact ⟨.quiet hquiet, fun _ => ⟨rfl, hquiet⟩⟩

/-- **What the header is, is known of all slices**, of which nothing was read. -/
theorem quiet_headerDone (h : s.headerDone false = some s') (n : ℕ) : Quiet s s' n := by
  rw [headerDone_eq, if_neg Bool.false_ne_true] at h
  split_ifs at h with hmode hflags
  · obtain rfl := Option.some.inj h
    exact Quiet.refl s n
  · obtain rfl := Option.some.inj h
    have hunknown : s.headerMode = .unknown := not_not.mp hmode
    intro slice' hslice'
    cases n with
    | zero => exact ⟨slice', hslice', Or.inl ⟨rfl, fun _ => Or.inl rfl⟩⟩
    | succ i =>
      rw [sliceAt_succ, List.getElem?_map] at hslice'
      obtain ⟨slice, hslice, rfl⟩ := Option.map_eq_some_iff.mp hslice'
      exact ⟨slice, hslice, Or.inl ⟨rfl, fun _ => Or.inr (Or.inr (Or.inl hunknown))⟩⟩

theorem headerDone_size {fromCache : Bool} (h : s.headerDone fromCache = some s') :
    s'.size = s.size := by
  rw [headerDone_eq] at h
  split_ifs at h <;> exact Option.some.inj h ▸ rfl

/-! ## What is unloaded -/

/-- Only a slice that was read from the cache was changed since. -/
def ChangedOk (s : Slices) : Prop :=
  ∀ (i : ℕ) (slice : Slice), s.data[i]? = some slice → slice.changedSinceCache = true →
    slice.loadedFromCache = true

/-- Slices are emptied that were read from the cache. -/
structure Unloads (s s' : Slices) : Prop where
  mode : s'.headerMode = s.headerMode
  header : s'.header.parts = s.header.parts
  slices : ∀ (i : ℕ) (slice' : Slice), s'.data[i]? = some slice' → s.data[i]? = some slice' ∨
    slice' = .empty ∧ ∃ slice, s.data[i]? = some slice ∧ slice.loadedFromCache = true

theorem Unloads.quiet (h : Unloads s s') (n : ℕ) : Quiet s s' n := by
  intro slice' hslice'
  cases n with
  | zero =>
    obtain rfl := Option.some.inj hslice'
    exact ⟨s.header, rfl, Or.inl ⟨h.header, fun _ => Or.inl rfl⟩⟩
  | succ i =>
    rcases h.slices i slice' hslice' with hsame | ⟨rfl, slice, hslice, hloaded⟩
    · refine ⟨slice', hsame, Or.inl ⟨rfl, fun hcounts => ?_⟩⟩
      unfold Counts at hcounts ⊢
      rwa [h.mode] at hcounts
    · exact ⟨slice, hslice, Or.inr (Or.inl ⟨rfl, Or.inr (Or.inl hloaded)⟩)⟩

theorem Unloads.set_empty (hslice : s.data[i]? = some slice)
    (hloaded : slice.loadedFromCache = true) (hmode : s'.headerMode = s.headerMode) (hheader : s'.header.parts = s.header.parts)
    (hdata : s'.data = s.data.set i .empty) : Unloads s s' := by
  refine ⟨hmode, hheader, fun j slice' hj => ?_⟩
  rw [hdata, List.getElem?_set] at hj
  split_ifs at hj with hij hlt
  · obtain rfl := hij
    exact Or.inr ⟨(Option.some.inj hj).symm, slice, hslice, hloaded⟩
  · exact Or.inl hj

/-- The number that a slice is put to the cache with. -/
theorem serializeAndUnloadSlice_number {put : SerializedSlice}
    (h : s.serializeAndUnloadSlice n = some (s', put)) :
    put.number = if s.isGoodHeader ∧ n = 1 then 0 else n := by
  unfold Slices.serializeAndUnloadSlice at h
  rw [Option.ite_none_left_eq_some] at h
  replace h := h.2
  dsimp only at h
  generalize (if s.isGoodHeader = true ∧ n = 1 then 0 else n) = number at h ⊢
  split at h
  · exact nomatch h
  · split at h
    · exact nomatch h
    · split at h
      · exact nomatch h
      · obtain ⟨-, rfl⟩ := Prod.mk.inj (Option.some.inj h)
        rfl

/-- **A slice that is put to the cache was read from it**, when it was. -/
theorem serializeAndUnloadSlice_unloads {put : SerializedSlice}
    (h : s.serializeAndUnloadSlice n = some (s', put))
    (hread : ∀ i slice, n = i + 1 → s.data[i]? = some slice → slice.loadedFromCache = true) :
    Unloads s s' := by
  have hnumber := serializeAndUnloadSlice_number h
  obtain ⟨-, -, hheader | hslice⟩ := serializeAndUnloadSlice_eq h
  · obtain ⟨-, -, -, first, hfirst, hloaded, -, rfl⟩ := hheader
    exact Unloads.set_empty hfirst hloaded rfl rfl rfl
  · obtain ⟨hnot, kept, hkept, _, -, -, rfl⟩ := hslice
    have hgood : s.isGoodHeader = true ↔ s.headerMode = .good := decide_eq_true_iff
    have hn : put.number = n := by
      rw [hnumber]
      refine if_neg fun hfirst => hnot ⟨hgood.mp hfirst.1, ?_⟩
      rw [hnumber, if_pos hfirst]
    rw [hn] at hkept ⊢
    cases n with
    | zero => exact ⟨rfl, rfl, fun i slice' hi => Or.inl hi⟩
    | succ i => exact Unloads.set_empty hkept (hread i kept rfl hkept) rfl rfl rfl

theorem Unloads.of_data (hmode : s'.headerMode = s.headerMode)
    (hheader : s'.header.parts = s.header.parts) (hdata : s'.data = s.data) : Unloads s s' :=
  ⟨hmode, hheader, fun _ _ hi => Or.inl (hdata ▸ hi)⟩

theorem serializeAndUnloadUnused_unloads {toCache : Option SerializedSlice}
    (h : s.serializeAndUnloadUnused = some (s', toCache)) : Unloads s s' := by
  unfold serializeAndUnloadUnused at h
  split_ifs at h
  · obtain ⟨rfl, -⟩ := Prod.mk.inj (Option.some.inj h)
    exact Unloads.of_data rfl rfl rfl
  · split at h
    · obtain ⟨rfl, -⟩ := Prod.mk.inj (Option.some.inj h)
      exact Unloads.of_data rfl rfl rfl
    · next purgeSlice usedSlices _ =>
      dsimp only at h
      split at h
      · exact nomatch h
      · next slice hslice =>
        split_ifs at h with hloaded
        · obtain ⟨rfl, -⟩ := Prod.mk.inj (Option.some.inj h)
          exact Unloads.set_empty hslice hloaded rfl rfl rfl
        · obtain ⟨⟨s₁, put⟩, hserialize, heq⟩ := Option.map_eq_some_iff.mp h
          obtain ⟨rfl, -⟩ := Prod.mk.inj heq
          obtain ⟨hmode, hheader, hslices⟩ := serializeAndUnloadSlice_unloads hserialize
            fun i other hi hother => by
              obtain rfl := Nat.succ.inj hi
              exact Option.some.inj (hslice.symm.trans hother) ▸ hloaded
          exact ⟨hmode, hheader, hslices⟩
        · obtain ⟨rfl, -⟩ := Prod.mk.inj (Option.some.inj h)
          exact Unloads.of_data rfl rfl rfl

theorem unloadToCache_unloads (hchanged : ChangedOk s) {toCache : Option SerializedSlice}
    (h : s.unloadToCache = some (s', toCache)) : Unloads s s' := by
  unfold unloadToCache at h
  split_ifs at h
  · obtain ⟨rfl, -⟩ := Prod.mk.inj (Option.some.inj h)
    exact Unloads.of_data rfl rfl rfl
  · obtain ⟨⟨s₁, put⟩, hserialize, heq⟩ := Option.map_eq_some_iff.mp h
    obtain ⟨rfl, -⟩ := Prod.mk.inj heq
    exact serializeAndUnloadSlice_unloads hserialize fun i _ hi => nomatch hi
  · split at h
    · obtain ⟨rfl, -⟩ := Prod.mk.inj (Option.some.inj h)
      exact Unloads.of_data rfl rfl rfl
    · next j hfound =>
      obtain ⟨⟨s₁, put⟩, hserialize, heq⟩ := Option.map_eq_some_iff.mp h
      obtain ⟨rfl, -⟩ := Prod.mk.inj heq
      refine serializeAndUnloadSlice_unloads hserialize fun i slice hi hslice => ?_
      obtain rfl := Nat.succ.inj hi
      obtain ⟨hlt, hchange, -⟩ := List.findIdx?_eq_some_iff_getElem.mp hfound
      obtain ⟨hi', rfl⟩ := List.getElem?_eq_some_iff.mp hslice
      exact hchanged _ _ hslice hchange

theorem handleReadFromCache_sameRead (s : Slices) (i : ℕ) (result : FillResult) :
    SameRead s (s.handleReadFromCache i result).1 ∧
      (s.handleReadFromCache i result).1.headerMode = s.headerMode := by
  unfold handleReadFromCache
  split_ifs with hcache
  · split
    · exact ⟨SameRead.of_data rfl, rfl⟩
    · next slice hslice =>
      split_ifs
      · exact ⟨SameRead.of_data rfl, rfl⟩
      · exact ⟨SameRead.waits hslice, rfl⟩
  · exact ⟨SameRead.of_data rfl, rfl⟩

/-- **A fill changes no flag**: slices wait for the cache, or one is unloaded. -/
theorem quiet_fill (hv : Valid loads s) {filled : FillResult}
    (h : s.fill offset count = some (s', filled)) (hn : Flagged s n) : Quiet s s' n := by
  obtain ⟨-, -, ⟨-, -, rfl⟩ | ⟨-, -, rfl⟩ | ⟨hfull, -, hdone | ⟨-, hawaits⟩⟩⟩ := fill_cases h
  · exact Quiet.refl _ n
  · exact Quiet.refl _ n
  · obtain ⟨-, -, -, s₁, hdata, hunload⟩ := hdone
    have hunloads := serializeAndUnloadUnused_unloads hunload
    have hmode : s₁.headerMode = s.headerMode := by
      rw [← hunloads.mode]
      exact (hv.fill h).2.1.mode
    obtain ⟨i, rfl⟩ := Nat.exists_eq_succ_of_ne_zero (Nat.pos_iff_ne_zero.mp (hn.pos hfull).1)
    intro slice' hslice'
    obtain ⟨slice, hslice, hcase⟩ := hunloads.quiet (i + 1) slice' hslice'
    rw [sliceAt_succ, hdata] at hslice
    refine ⟨slice, hslice, ?_⟩
    unfold Counts at hcase ⊢
    rwa [hmode] at hcase
  · have hs' : s' = (s.awaits offset count).1 := congrArg Prod.fst hawaits
    obtain ⟨hread, hmode⟩ := handleReadFromCache_sameRead s (offset / kInSlice)
      ⟨[], s.asked offset count, none, .waitingRemote, []⟩
    have hne := Nat.pos_iff_ne_zero.mp (hn.pos hfull).1
    rw [hs', Slices.awaits]
    split_ifs
    · obtain ⟨hread', hmode'⟩ := handleReadFromCache_sameRead
        (s.handleReadFromCache (offset / kInSlice)
          ⟨[], s.asked offset count, none, .waitingRemote, []⟩).1 (offset / kInSlice + 1)
        (s.handleReadFromCache (offset / kInSlice)
          ⟨[], s.asked offset count, none, .waitingRemote, []⟩).2
      exact (hread.trans hread').quiet (hmode'.trans hmode) hne
    · exact hread.quiet hmode hne

/-! ## Slices that were changed -/

theorem ChangedOk.relaxes (h : ChangedOk s) (hrelaxes : Relaxes s s') : ChangedOk s' := by
  intro i slice' hslice' hchanged
  rcases hrelaxes i slice' hslice' with rfl | ⟨slice, hslice, rfl | ⟨rfl, -, -⟩⟩
  · exact nomatch hchanged
  · exact h i _ hslice hchanged
  · exact h i slice hslice hchanged

theorem ChangedOk.set (h : ChangedOk s)
    (hslice : slice.changedSinceCache = true → slice.loadedFromCache = true)
    (hdata : s'.data = s.data.set i slice) : ChangedOk s' := by
  intro j slice' hslice' hchanged
  rw [hdata, List.getElem?_set] at hslice'
  split_ifs at hslice' with hij hlt
  · obtain rfl := Option.some.inj hslice'
    exact hslice hchanged
  · exact h j slice' hslice' hchanged

theorem ChangedOk.of_data (h : ChangedOk s) (hdata : s'.data = s.data) : ChangedOk s' :=
  fun i slice hslice => h i slice (hdata ▸ hslice)

theorem ChangedOk.addPartTo (h : ChangedOk s) (hadd : s.addPartTo i offset bytes = some s') :
    ChangedOk s' := by
  obtain ⟨slice, slice', hslice, hslice', rfl⟩ := addPartTo_eq hadd
  obtain ⟨-, rfl⟩ := Slice.addPart_eq hslice'
  refine h.set (fun hchanged => ?_) rfl
  dsimp only at hchanged ⊢
  rcases Bool.or_eq_true_iff.mp hchanged with hchanged | hloaded
  · exact h i slice hslice hchanged
  · exact hloaded

theorem ChangedOk.processPart (h : ChangedOk s) (hpart : s.processPart offset bytes = some s') :
    ChangedOk s' := by
  unfold Slices.processPart at hpart
  split_ifs at hpart
  · obtain ⟨header, -, rfl⟩ := Option.map_eq_some_iff.mp hpart
    exact h.of_data rfl
  · exact h.addPartTo hpart

theorem ChangedOk.applyWhile {till : ℕ} {entries : List (ℕ × Bytes)} (h : ChangedOk s)
    (happly : Slices.applyWhile till entries s = some s') : ChangedOk s' := by
  induction entries generalizing s with
  | nil => exact Option.some.inj happly ▸ h
  | cons part entries ih =>
    rw [Slices.applyWhile] at happly
    split_ifs at happly
    · exact Option.some.inj happly ▸ h
    · split at happly
      · cases happly
      · next s₁ hadd => exact ih (h.addPartTo hadd) happly

theorem ChangedOk.headerDone {fromCache : Bool} (h : ChangedOk s)
    (hdone : s.headerDone fromCache = some s') : ChangedOk s' := by
  rw [headerDone_eq] at hdone
  split_ifs at hdone
  · exact Option.some.inj hdone ▸ h
  · obtain rfl := Option.some.inj hdone
    exact h.of_data rfl
  · obtain rfl := Option.some.inj hdone
    intro i slice' hslice' _
    dsimp only at hslice'
    rw [List.getElem?_map] at hslice'
    obtain ⟨slice, -, rfl⟩ := Option.map_eq_some_iff.mp hslice'
    rfl

theorem ChangedOk.applyHeaderCacheData (h : ChangedOk s)
    (happly : s.applyHeaderCacheData = some s') : ChangedOk s' := by
  unfold Slices.applyHeaderCacheData at happly
  split_ifs at happly
  · exact Option.some.inj happly ▸ h
  · exact h.applyWhile happly
  · exact Option.some.inj happly ▸ h
  · exact h.headerDone happly
  · split at happly
    · exact nomatch happly
    · next s₁ happly₁ => exact (h.applyWhile happly₁).headerDone happly

theorem ChangedOk.processCacheHeader {header : Slice} (h : ChangedOk s)
    (hresult : s.processCacheHeader header result = some s') : ChangedOk s' := by
  unfold Slices.processCacheHeader at hresult
  split_ifs at hresult
  · split at hresult
    · exact nomatch hresult
    · next header' _ =>
      split at hresult
      · exact nomatch hresult
      · next s₁ happly =>
        have h₀ : ChangedOk { s with header := header' } := h.of_data rfl
        have h₁ := h₀.applyHeaderCacheData happly
        split_ifs at hresult
        · split at hresult
          · exact nomatch hresult
          · next first hfirst =>
            obtain rfl := Option.some.inj hresult
            have hwaits : ({ first with loadingFromCache := true } : Slice).changedSinceCache = true →
              first.loadedFromCache = true := h₁ 0 first hfirst
            exact h₁.set hwaits rfl
        · exact Option.some.inj hresult ▸ h₁
  · exact Option.some.inj hresult ▸ h

theorem ChangedOk.processCacheResult (h : ChangedOk s)
    (hresult : s.processCacheResult n result = some s') : ChangedOk s' := by
  unfold Slices.processCacheResult at hresult
  split_ifs at hresult
  · split at hresult
    · exact nomatch hresult
    · split_ifs at hresult
      · exact h.processCacheHeader hresult
      · exact Option.some.inj hresult ▸ h
  · exact h.processCacheHeader hresult
  · split at hresult
    · exact nomatch hresult
    · split_ifs at hresult
      · split at hresult
        · exact nomatch hresult
        · next slice' hslice' =>
          obtain ⟨-, -, rfl⟩ := Slice.processCacheData_eq hslice'
          obtain rfl := Option.some.inj hresult
          exact h.set (fun _ => rfl) rfl
      · exact Option.some.inj hresult ▸ h

theorem ChangedOk.new {useCache : Bool} (h : Slices.new size useCache = some s) : ChangedOk s := by
  unfold Slices.new at h
  rw [Option.ite_none_left_eq_some, Option.ite_none_left_eq_some] at h
  obtain rfl := Option.some.inj h.2.2
  intro i slice hi
  have hmem := List.mem_of_getElem? hi
  dsimp only at hmem
  split_ifs at hmem
  · exact absurd hmem List.not_mem_nil
  · rw [List.eq_of_mem_replicate hmem]
    exact fun hchanged => nomatch hchanged

/-- A fill empties slices, or they wait. -/
theorem ChangedOk.fill {filled : FillResult} (h : ChangedOk s)
    (hfill : s.fill offset count = some (s', filled)) : ChangedOk s' := by
  obtain ⟨-, -, ⟨-, -, rfl⟩ | ⟨-, -, rfl⟩ | ⟨-, -, hdone | ⟨-, hawaits⟩⟩⟩ := fill_cases hfill
  · exact h
  · exact h
  · obtain ⟨-, -, -, s₁, hdata, hunload⟩ := hdone
    exact h.relaxes ((serializeAndUnloadUnused_drops hunload).of_data_left hdata).relaxes
  · have hs' : s' = (s.awaits offset count).1 := congrArg Prod.fst hawaits
    have h₁ := h.relaxes (handleReadFromCache_relaxes s (offset / kInSlice)
      ⟨[], s.asked offset count, none, .waitingRemote, []⟩)
    rw [hs', Slices.awaits]
    split_ifs
    · exact h₁.relaxes (handleReadFromCache_relaxes _ _ _)
    · exact h₁

end Yunogram.Media.Streaming
