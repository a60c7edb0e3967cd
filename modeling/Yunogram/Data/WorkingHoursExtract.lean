import Yunogram.Data.WorkingHoursDays

/-!
# Data/WorkingHoursExtract — the intervals of a day, taken out and put back

The extracted intervals of a day are seconds at which it is open, and all those of the day but the
late night that it began with (`extractDayIntervals_spec`); that is what removing the day keeps.

The result is `day_editing`: normalized, removed, extracted and put back a day is as it should be,
exactly if it is not open from the last second before the day up to the first one after it.
-/

open Machinery HalfOpen

namespace Yunogram

open WorkingInterval

namespace WorkingIntervals

variable {list : WorkingIntervals} {interval : WorkingInterval} {s t dayIndex : ℤ}

/-! ## What is near a day -/

theorem covered_shifted_of_valid {offset : ℤ} :
    Covers (if interval.valid then [interval.shifted offset] else []) s ↔
      s - offset ∈ interval := by
  split_ifs with hvalid
  · rw [covers_cons, or_iff_left covers_nil, mem_shifted]
  · exact iff_of_false covers_nil (not_mem_of_not_valid hvalid)

theorem covered_near : Covers (near dayIndex interval) s ↔ -kDay ≤ s ∧ s < 2 * kDay ∧
    ∃ k : ℤ, -1 ≤ k ∧ k ≤ 1 ∧ s + dayIndex * kDay + k * kWeek ∈ interval := by
  rw [near, covers_append, covers_append, covered_shifted_of_valid, covered_shifted_of_valid,
    covered_shifted_of_valid, mem_intersected, mem_intersected, mem_intersected]
  simp only [mem_iff, kDay, kWeek]
  constructor
  · rintro ((h | h) | h)
    · exact ⟨by omega, by omega, 0, by omega, by omega, by omega, by omega⟩
    · exact ⟨by omega, by omega, 1, by omega, by omega, by omega, by omega⟩
    · exact ⟨by omega, by omega, -1, by omega, by omega, by omega, by omega⟩
  · rintro ⟨hlo, hhi, k, hk, hk', hstart, htill⟩
    obtain rfl | rfl | rfl : k = -1 ∨ k = 0 ∨ k = 1 := by omega
    · exact Or.inr ⟨⟨by omega, by omega⟩, by omega, by omega⟩
    · exact Or.inl (Or.inl ⟨⟨by omega, by omega⟩, by omega, by omega⟩)
    · exact Or.inl (Or.inr ⟨⟨by omega, by omega⟩, by omega, by omega⟩)

theorem near_within {i : WorkingInterval} (hi : i ∈ near dayIndex interval) :
    -kDay ≤ i.start ∧ i.till ≤ 2 * kDay := by
  have hshifted : ∀ (other : WorkingInterval) (offset : ℤ),
      i ∈ (if (interval.intersected other).valid then
        [(interval.intersected other).shifted offset] else []) →
      other.start + offset ≤ i.start ∧ i.till ≤ other.till + offset := fun other offset hi => by
    split_ifs at hi with hvalid
    · rw [List.mem_singleton.mp hi, intersected_of_valid hvalid]
      exact ⟨Int.add_le_add_right (le_max_right ..) _, Int.add_le_add_right (min_le_right ..) _⟩
    · exact absurd hi List.not_mem_nil
  rw [near, List.mem_append, List.mem_append] at hi
  rcases hi with (hi | hi) | hi
  all_goals
    have hle := hshifted _ _ hi
    simp only [kDay] at hle ⊢
    omega

/-- **What is near a day are the seconds around it at which it is open.** -/
theorem covers_flatMap_near (h : ∀ i ∈ list, 0 ≤ i.start ∧ i.till ≤ kWeek + kDay)
    (hday : 0 ≤ dayIndex) (hlast : dayIndex < 7) : Covers (list.flatMap (near dayIndex)) s ↔
      -kDay ≤ s ∧ s < 2 * kDay ∧ Open list (s + dayIndex * kDay) := by
  rw [covers_flatMap]
  constructor
  · rintro ⟨i, hi, hnear⟩
    obtain ⟨hlo, hhi, k, -, -, hk⟩ := covered_near.mp hnear
    exact ⟨hlo, hhi, k, i, hi, hk⟩
  · rintro ⟨hlo, hhi, k, i, hi, hk⟩
    refine ⟨i, hi, covered_near.mpr ⟨hlo, hhi, k, ?_, ?_, hk⟩⟩
    all_goals
      have hbounds := h i hi
      have hstart := hk.1
      have htill := hk.2
      simp only [kDay, kWeek] at *
      omega

/-! ## What is extracted -/

/-- Intervals that are separated and meet the day. -/
structure Inside (list : WorkingIntervals) : Prop where
  separated : Separated list
  meets : ∀ i ∈ list, 0 < i.till ∧ i.start < kDay

/-- The day is cut out of an interval that covers it, and what is after the late night is cut off.
-/
theorem cutBack_spec (h : Inside list) :
    Inside (cutBack list) ∧ (∀ i ∈ cutBack list, i.till ≤ kDay + kInNextDayMax) ∧
    (∀ i ∈ cutBack list, i.start < 0 → i ∈ list) ∧
    (∀ s, Covers (cutBack list) s → Covers list s) ∧
    ∀ s, 0 ≤ s → s < kDay → Covers list s → Covers (cutBack list) s := by
  rcases List.eq_nil_or_concat list with rfl | ⟨init, back, rfl⟩
  · exact ⟨h, by simp [cutBack], by simp [cutBack], fun s hs => hs, fun s _ _ hs => hs⟩
  rw [List.concat_eq_append] at h ⊢
  obtain ⟨hinit, -, hapart⟩ := List.pairwise_append.mp h.separated.apart
  have hapart : ∀ i ∈ init, i.till < back.start := fun i hi => hapart i hi back (by simp)
  have hback := h.meets back (by simp)
  have hvalid := h.separated.nonempty back (by simp)
  have hday : 0 < kDay ∧ 0 < kInNextDayMax := by decide
  unfold cutBack
  rw [List.getLast?_concat]
  dsimp only
  rw [List.dropLast_concat]
  split_ifs with hfull hlong
  · have hnil : init = [] := List.eq_nil_iff_forall_not_mem.mpr fun i hi => by
      have := hapart i hi
      have := (h.meets i (List.mem_append_left _ hi)).1
      omega
    rw [hnil, List.nil_append, List.nil_append]
    refine ⟨⟨⟨?_, List.pairwise_singleton _ _⟩, ?_⟩, ?_, ?_, fun s hs => ?_, fun s hlo hhi _ => ?_⟩
    · simp [hday.1]
    · simp [hday.1]
    · simp [hday.2.le]
    · simp
    · rw [covers_cons, or_iff_left covers_nil] at hs ⊢
      exact ⟨hfull.1.trans hs.1, hs.2.trans_le hfull.2⟩
    · rw [covers_cons]
      exact Or.inl ⟨hlo, hhi⟩
  · have hstart : 0 < back.start := by omega
    have hcut : back.intersected ⟨0, kDay⟩ = ⟨back.start, kDay⟩ := by
      have hmem : back.start ∈ back.intersected ⟨0, kDay⟩ :=
        mem_intersected.mpr ⟨⟨le_refl _, hvalid⟩, hstart.le, hback.2⟩
      rw [intersected_of_valid (valid_of_mem hmem), max_eq_left hstart.le,
        min_eq_right (by dsimp only; omega)]
    have hmem : ∀ i ∈ init ++ [⟨back.start, kDay⟩], i ∈ init ∨ i = ⟨back.start, kDay⟩ := fun i hi =>
      (List.mem_append.mp hi).imp_right List.mem_singleton.mp
    rw [hcut]
    refine ⟨⟨⟨fun i hi => ?_, ?_⟩, fun i hi => ?_⟩, fun i hi => ?_, fun i hi hneg => ?_,
      fun s hs => ?_, fun s hlo hhi hs => ?_⟩
    · rcases hmem i hi with hi | rfl
      · exact h.separated.nonempty i (List.mem_append_left _ hi)
      · exact hback.2
    · refine List.pairwise_append.mpr ⟨hinit, List.pairwise_singleton _ _, fun i hi j hj => ?_⟩
      rw [List.mem_singleton.mp hj]
      exact hapart i hi
    · rcases hmem i hi with hi | rfl
      · exact h.meets i (List.mem_append_left _ hi)
      · exact ⟨hday.1, hback.2⟩
    · rcases hmem i hi with hi | rfl
      · have := hapart i hi
        omega
      · dsimp only
        omega
    · rcases hmem i hi with hi | rfl
      · exact List.mem_append_left _ hi
      · exact absurd hneg hstart.not_gt
    · rw [covers_append, covers_cons, or_iff_left covers_nil] at hs ⊢
      exact hs.imp_right fun hs => ⟨hs.1, hs.2.trans (by dsimp only; omega)⟩
    · rw [covers_append, covers_cons, or_iff_left covers_nil] at hs ⊢
      exact hs.imp_right fun hs => ⟨hs.1, hhi⟩
  · refine ⟨h, fun i hi => ?_, fun i hi _ => hi, fun s hs => hs, fun s _ _ hs => hs⟩
    rcases List.mem_append.mp hi with hi | hi
    · have := hapart i hi
      omega
    · rw [List.mem_singleton.mp hi]
      exact not_lt.mp hlong

/-- The day is cut out of the first interval, or it is the late night before. -/
theorem cutFront_spec (h : Inside list) (hlate : ∀ i ∈ list, i.till ≤ kDay + kInNextDayMax) :
    (∀ i ∈ cutFront list, 0 ≤ i.start ∧ i.till ≤ kDay + kInNextDayMax) ∧
    (∀ s, Covers (cutFront list) s → Covers list s) ∧
    ∀ s, 0 ≤ s → s < kDay → Covers list s → Covers (cutFront list) s ∨
      ∃ front ∈ list, s ∈ front ∧ front.start < 0 ∧ front.till ≤ kInNextDayMax := by
  cases list with
  | nil => exact ⟨by simp [cutFront], fun s hs => hs, fun s _ _ hs => Or.inl hs⟩
  | cons front rest =>
    obtain ⟨hfirst, -⟩ := List.pairwise_cons.mp h.separated.apart
    have hfront := h.meets front (List.mem_cons_self ..)
    have hrest : ∀ i ∈ rest, 0 ≤ i.start ∧ i.till ≤ kDay + kInNextDayMax := fun i hi =>
      ⟨(hfront.1.trans (hfirst i hi)).le, hlate i (List.mem_cons_of_mem _ hi)⟩
    have hday : 0 < kDay ∧ 0 < kInNextDayMax := by decide
    unfold cutFront
    dsimp only
    split_ifs with hstart hdrop hcut
    · refine ⟨hrest, fun s hs => covers_cons.mpr (Or.inr hs), fun s _ _ hs => ?_⟩
      rcases covers_cons.mp hs with hs | hs
      · exact Or.inr ⟨front, List.mem_cons_self .., hs, hdrop.1, hdrop.2.1⟩
      · exact Or.inl hs
    · refine ⟨fun i hi => ?_, fun s hs => ?_, fun s hlo hhi hs => Or.inl ?_⟩
      · rcases List.mem_cons.mp hi with rfl | hi
        · rw [intersected_of_valid hcut]
          refine ⟨le_max_right .., (min_le_right ..).trans ?_⟩
          dsimp only
          omega
        · exact hrest i hi
      · rw [covers_cons, mem_intersected] at hs
        exact covers_cons.mpr (hs.imp_left And.left)
      · rw [covers_cons, mem_intersected]
        exact (covers_cons.mp hs).imp_left fun hs => ⟨hs, hlo, hhi⟩
    · refine ⟨hrest, fun s hs => covers_cons.mpr (Or.inr hs), fun s hlo hhi hs => Or.inl ?_⟩
      refine (covers_cons.mp hs).resolve_left fun hs => ?_
      exact hcut (valid_of_mem (mem_intersected.mpr ⟨hs, hlo, hhi⟩))
    · refine ⟨fun i hi => ?_, fun s hs => hs, fun s _ _ hs => Or.inl hs⟩
      rcases List.mem_cons.mp hi with rfl | hi
      · exact ⟨(not_le.mp hstart).le, hlate _ (List.mem_cons_self ..)⟩
      · exact hrest i hi

/-- The intervals near a day that meet it. -/
theorem mem_inside : interval ∈ (list.filter fun i => ¬ (i.till ≤ 0 ∨ kDay ≤ i.start)) ↔
    interval ∈ list ∧ 0 < interval.till ∧ interval.start < kDay := by
  rw [List.mem_filter, decide_eq_true_iff, not_or, not_le, not_le]

theorem inside_filter (h : Separated list) :
    Inside (list.filter fun i => ¬ (i.till ≤ 0 ∨ kDay ≤ i.start)) where
  separated := h.filter _
  meets _ hi := (mem_inside.mp hi).2

theorem normalized_near (h : ∀ i ∈ list, 0 ≤ i.start ∧ i.till ≤ kWeek + kDay)
    (hday : 0 ≤ dayIndex) (hlast : dayIndex < 7) :
    Separated (normalized (list.flatMap (near dayIndex))) ∧
      ∀ s, Covers (normalized (list.flatMap (near dayIndex))) s ↔
        -kDay ≤ s ∧ s < 2 * kDay ∧ Open list (s + dayIndex * kDay) := by
  have hnear : ∀ i ∈ list.flatMap (near dayIndex), -kDay ≤ i.start ∧ i.till ≤ 2 * kDay :=
    fun i hi => by
      obtain ⟨j, -, hij⟩ := List.mem_flatMap.mp hi
      exact near_within hij
  obtain ⟨hseparated, hcovered⟩ := normalized_of_le hnear (by decide)
  exact ⟨hseparated, fun s => (hcovered s).trans (covers_flatMap_near h hday hlast)⟩

/-- **What is extracted of a day**: seconds near it at which it is open, up to the late night that
follows it, and all those of the day but the late night that it began with. -/
theorem extractDayIntervals_spec (h : ∀ i ∈ list, 0 ≤ i.start ∧ i.till ≤ kWeek + kDay)
    (hday : 0 ≤ dayIndex) (hlast : dayIndex < 7) :
    (∀ i ∈ extractDayIntervals list dayIndex, 0 ≤ i.start ∧ i.till ≤ kDay + kInNextDayMax) ∧
    (∀ s, Covers (extractDayIntervals list dayIndex) s → Open list (s + dayIndex * kDay)) ∧
    ∀ s, 0 ≤ s → s < kDay → Open list (s + dayIndex * kDay) →
      Covers (extractDayIntervals list dayIndex) s ∨
        LateNight list dayIndex (s + dayIndex * kDay) := by
  obtain ⟨hseparated, hopen⟩ := normalized_near h hday hlast
  obtain ⟨hback, hlate, hfirst, hsub, hsup⟩ := cutBack_spec (inside_filter hseparated)
  obtain ⟨hbounds, hsub', hsup'⟩ := cutFront_spec hback hlate
  refine ⟨hbounds, fun s hs => ?_, fun s hlo hhi hs => ?_⟩
  · obtain ⟨i, hi, hs⟩ := hsub s (hsub' s hs)
    exact ((hopen s).mp ⟨i, (mem_inside.mp hi).1, hs⟩).2.2
  · have hlong : (0 : ℤ) < kInNextDayMax ∧ kInNextDayMax < kDay := by decide
    obtain ⟨i, hi, his⟩ := (hopen s).mpr ⟨by omega, by omega, hs⟩
    have hmeets := hsup s hlo hhi
      ⟨i, mem_inside.mpr ⟨hi, hlo.trans_lt his.2, his.1.trans_lt hhi⟩, his⟩
    refine (hsup' s hlo hhi hmeets).imp_right ?_
    rintro ⟨front, hmem, hs, hneg, hle⟩
    have hmem := (mem_inside.mp (hfirst front hmem hneg)).1
    have hpos := hs.2
    refine ⟨front.till + dayIndex * kDay, by omega, by omega, fun u hu hlt => ?_, fun hnot => ?_⟩
    · have hcovered := (hopen (u - dayIndex * kDay)).mp ⟨front, hmem, by omega, by omega⟩
      rw [sub_add_cancel] at hcovered
      exact hcovered.2.2
    · exact hseparated.not_covers_till hmem ((hopen front.till).mpr ⟨by omega, by omega, hnot⟩)

/-- Of a day that is open from before it to after it only the day is extracted. -/
theorem extractDayIntervals_of_crosses (h : ∀ i ∈ list, 0 ≤ i.start ∧ i.till ≤ kWeek + kDay)
    (hday : 0 ≤ dayIndex) (hlast : dayIndex < 7) (hcrosses : Crosses list dayIndex) :
    extractDayIntervals list dayIndex = [⟨0, kDay⟩] := by
  obtain ⟨hseparated, hopen⟩ := normalized_near h hday hlast
  have hpos : (0 : ℤ) < kDay := by decide
  have hnext : (dayIndex + 1) * kDay = dayIndex * kDay + kDay := by rw [Int.add_mul, Int.one_mul]
  obtain ⟨i, hi, hstart, htill⟩ := hseparated.exists_of_run (by omega : -1 ≤ kDay) fun u hu hlt =>
    (hopen u).mpr ⟨by omega, by omega, hcrosses.2.2 _ (by omega) (by omega)⟩
  have hmem := mem_inside.mpr ⟨hi, hpos.trans htill, (by omega : i.start < kDay)⟩
  have hsame : ∀ j ∈ (normalized (list.flatMap (near dayIndex))).filter
      (fun i => ¬ (i.till ≤ 0 ∨ kDay ≤ i.start)), j = i := fun j hj => by
    by_contra hne
    obtain ⟨hj, hjtill, hjstart⟩ := mem_inside.mp hj
    have := hseparated.apart_of_ne hj hi hne
    omega
  have hback : cutBack [i] = [⟨0, kDay⟩] := if_pos ⟨(by omega : i.start ≤ 0), htill.le⟩
  rw [extractDayIntervals, (inside_filter hseparated).separated.eq_singleton hmem hsame, hback]
  decide

/-! ## The day is put back -/

theorem open_map_shifted {offset : ℤ} :
    Open (list.map fun interval => interval.shifted offset) t ↔ Open list (t - offset) := by
  refine exists_congr fun k => ?_
  simp only [Covers, List.mem_map]
  constructor
  · rintro ⟨-, ⟨i, hi, rfl⟩, ht⟩
    rw [mem_shifted, add_sub_right_comm] at ht
    exact ⟨i, hi, ht⟩
  · rintro ⟨i, hi, ht⟩
    refine ⟨_, ⟨i, hi, rfl⟩, ?_⟩
    rwa [mem_shifted, add_sub_right_comm]

/-- A second is open after the day is put back if it was left or is extracted. -/
theorem open_replaceDayIntervals (h : ∀ i ∈ list, 0 ≤ i.start ∧ i.till ≤ kWeek + kDay)
    (hday : 0 ≤ dayIndex) (hlast : dayIndex < 7) :
    Open (replaceDayIntervals list dayIndex (extractDayIntervals list dayIndex)) t ↔
      Open (removeDayIntervals list dayIndex) t ∨
        Open (extractDayIntervals list dayIndex) (t - dayIndex * kDay) := by
  have hbounds := (extractDayIntervals_spec h hday hlast).1
  rw [replaceDayIntervals, (normalized_spec ?_).1, open_append, open_map_shifted]
  intro i hi
  have hlong : (0 : ℤ) < kInNextDayMax ∧ kInNextDayMax < kDay ∧ kWeek = 7 * kDay := by decide
  rcases List.mem_append.mp hi with hi | hi
  · have := removeDayIntervals_within h i hi
    omega
  · obtain ⟨j, hj, rfl⟩ := List.mem_map.mp hi
    have := hbounds j hj
    simp only [shifted, kDay, kWeek] at *
    omega

/-- Where the day is not crossed what remains is the rest and the late night. -/
theorem remains_iff (h : ∀ i ∈ list, 0 ≤ i.start ∧ i.till ≤ kWeek + kDay)
    (hday : 0 ≤ dayIndex) (hlast : dayIndex < 7) (hcrosses : ¬ Crosses list dayIndex)
    (ht : 0 ≤ t) (hweek : t < kWeek) : Remains list dayIndex t ↔
      Open list t ∧ (dayIndex * kDay ≤ t ∧ t < (dayIndex + 1) * kDay →
        LateNight list dayIndex t) := by
  rw [open_iff_normalized h ht hweek]
  constructor
  · rintro ⟨i, hi, hti, hkept, -⟩
    exact ⟨⟨i, hi, hti⟩, fun hin => (kept_iff h hday hlast hi hti hin.1 hin.2).mp (hkept hin)⟩
  · rintro ⟨⟨i, hi, hti⟩, hlate⟩
    refine ⟨i, hi, hti, fun hin => (kept_iff h hday hlast hi hti hin.1 hin.2).mpr (hlate hin), ?_⟩
    rintro ⟨hstart, hafter⟩
    exact hcrosses ((crosses_iff h hday hlast).mpr ⟨i, hi, hstart, hafter.trans_lt hti.2⟩)

/-- **Of a day that is crossed the second after it is lost.** -/
theorem not_remains_of_crosses (h : ∀ i ∈ list, 0 ≤ i.start ∧ i.till ≤ kWeek + kDay)
    (hday : 0 ≤ dayIndex) (hlast : dayIndex < 7) (hcrosses : Crosses list dayIndex) :
    ¬ Remains list dayIndex ((dayIndex + 1) * kDay) := by
  obtain ⟨-, hseparated, -⟩ := normalized_spec h
  obtain ⟨i, hi, hstart, htill⟩ := (crosses_iff h hday hlast).mp hcrosses
  rintro ⟨j, hj, hmem, -, hnot⟩
  have hle : dayIndex * kDay ≤ (dayIndex + 1) * kDay := by
    simp only [kDay]
    omega
  rw [hseparated.eq_of_mem hj hi hmem ⟨hstart.le.trans hle, htill⟩] at hnot
  exact hnot ⟨hstart, le_refl _⟩

/-- **What the editing of a day is to do**: normalized intervals are open at the same seconds,
separated and inside one week; when a day is removed what is left is the rest and its late night;
and a day that was extracted can be put back. -/
structure DayEditing (list : WorkingIntervals) (dayIndex : ℤ) : Prop where
  same : ∀ t, Open (normalized list) t ↔ Open list t
  separated : Separated (normalized list)
  inside : ∀ i ∈ normalized list, 0 ≤ i.start ∧ i.till ≤ kWeek
  removed : ∀ t, 0 ≤ t → t < kWeek → (Open (removeDayIntervals list dayIndex) t ↔
    Open list t ∧ (dayIndex * kDay ≤ t ∧ t < (dayIndex + 1) * kDay → LateNight list dayIndex t))
  replaced : ∀ t, Open (replaceDayIntervals list dayIndex (extractDayIntervals list dayIndex)) t ↔
    Open list t

/-- **A day is edited right exactly if it is not open from before the day to after it.** -/
theorem day_editing (h : ∀ i ∈ list, 0 ≤ i.start ∧ i.till ≤ kWeek + kDay)
    (hday : 0 ≤ dayIndex) (hlast : dayIndex < 7) :
    DayEditing list dayIndex ↔ ¬ Crosses list dayIndex := by
  obtain ⟨hsame, hseparated, hwithin⟩ := normalized_spec h
  obtain ⟨-, hextracted, hcovers⟩ := extractDayIntervals_spec h hday hlast
  have hlong : (0 : ℤ) < kDay ∧ kWeek = 7 * kDay := by decide
  constructor
  · intro hediting hcrosses
    have hafter : 0 ≤ (dayIndex + 1) * kDay ∧ (dayIndex + 1) * kDay < kWeek := by
      have := hcrosses.2.1
      simp only [kDay, kWeek]
      omega
    have hremoved := hediting.removed _ hafter.1 hafter.2
    rw [open_removeDayIntervals h hday hafter.1 hafter.2] at hremoved
    refine not_remains_of_crosses h hday hlast hcrosses (hremoved.mpr ⟨?_, fun hin => ?_⟩)
    · exact hcrosses.2.2 _ (by simp only [kDay]; omega) (le_refl _)
    · exact absurd hin.2 (lt_irrefl _)
  · intro hcrosses
    have hremoved : ∀ t, 0 ≤ t → t < kWeek → (Open (removeDayIntervals list dayIndex) t ↔
        Open list t ∧ (dayIndex * kDay ≤ t ∧ t < (dayIndex + 1) * kDay →
          LateNight list dayIndex t)) := fun t ht hweek =>
      (open_removeDayIntervals h hday ht hweek).trans
        (remains_iff h hday hlast hcrosses ht hweek)
    refine ⟨hsame, hseparated, hwithin, hremoved, fun t => ?_⟩
    refine open_emod.symm.trans (Iff.trans ?_ open_emod)
    have ht := Int.emod_nonneg t (by decide : kWeek ≠ 0)
    have hweek := Int.emod_lt_of_pos t (by decide : 0 < kWeek)
    generalize t % kWeek = t at *
    rw [open_replaceDayIntervals h hday hlast, hremoved t ht hweek]
    constructor
    · rintro (⟨hopen, -⟩ | ⟨k, hk⟩)
      · exact hopen
      · have hopen := hextracted _ hk
        rwa [add_right_comm, sub_add_cancel, open_add_mul] at hopen
    · intro hopen
      by_cases hin : dayIndex * kDay ≤ t ∧ t < (dayIndex + 1) * kDay
      · have hnext : (dayIndex + 1) * kDay = dayIndex * kDay + kDay := by
          rw [Int.add_mul, Int.one_mul]
        have hcover := hcovers (t - dayIndex * kDay) (by omega) (by omega)
        rw [sub_add_cancel] at hcover
        rcases hcover hopen with hcovered | hlate
        · exact Or.inr ⟨0, by rwa [Int.zero_mul, add_zero]⟩
        · exact Or.inl ⟨hopen, fun _ => hlate⟩
      · exact Or.inl ⟨hopen, fun hnot => absurd hnot hin⟩

theorem day_editing_office :
    DayEditing [⟨2 * kDay + 9 * 3600, 2 * kDay + 26 * 3600⟩] 2 ↔
      ¬ Crosses [⟨2 * kDay + 9 * 3600, 2 * kDay + 26 * 3600⟩] 2 :=
  day_editing (by decide) (by decide) (by decide)

/-- **When a day of a week that is always open is removed, the days after it are lost.** -/
theorem always_open_loses_days :
    Open [⟨0, kWeek⟩] (4 * kDay) ∧ ¬ Open (removeDayIntervals [⟨0, kWeek⟩] 3) (4 * kDay) ∧
      ¬ DayEditing [⟨0, kWeek⟩] 3 := by
  have h : ∀ i ∈ ([⟨0, kWeek⟩] : WorkingIntervals), 0 ≤ i.start ∧ i.till ≤ kWeek + kDay := by decide
  have hopen : ∀ u, 0 ≤ u → u < kWeek → Open [⟨0, kWeek⟩] u := fun u hu hlt =>
    ⟨0, ⟨0, kWeek⟩, List.mem_singleton_self _, by simpa using hu, by simpa using hlt⟩
  have hcrosses : Crosses [⟨0, kWeek⟩] 3 := by
    refine ⟨by decide, by decide, fun u hu hlt => hopen u ?_ ?_⟩ <;>
      simp only [kDay, kWeek] at * <;> omega
  have hlost : ¬ Open (removeDayIntervals [⟨0, kWeek⟩] 3) (4 * kDay) := by
    rw [open_removeDayIntervals h (by decide) (by decide) (by decide)]
    exact not_remains_of_crosses h (by decide) (by decide) hcrosses
  have hafter := hopen (4 * kDay) (by decide) (by decide)
  refine ⟨hafter, hlost, fun hediting => hlost ?_⟩
  exact (hediting.removed _ (by decide) (by decide)).mpr
    ⟨hafter, fun hin => absurd hin.2 (by decide)⟩

end WorkingIntervals

end Yunogram
