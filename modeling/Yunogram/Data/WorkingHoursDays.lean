import Yunogram.Data.WorkingHoursNormal

/-!
# Data/WorkingHoursDays — the intervals of one day

What `RemoveDayIntervals` leaves of a normalized interval is `remains`: it cuts the day out of it,
except for a late night that began the day before, and of an interval that began before the day it
drops what follows the day.  The extracted intervals of a day are the seconds of the day without
that late night, and `Replace` puts them back. -/

open Machinery HalfOpen

namespace Yunogram

open WorkingInterval

namespace WorkingIntervals

variable {list left rest : WorkingIntervals} {interval : WorkingInterval} {t dayIndex : ℤ}

/-! ## What is removed -/

/-- Whether `RemoveDayIntervals` keeps an interval that meets the day, where `full` says that the
intervals run up to the end of the week. -/
def Kept (dayIndex : ℤ) (full : Bool) (interval : WorkingInterval) : Prop :=
  interval.till ≤ dayIndex * kDay + kInNextDayMax ∧
    (interval.start < dayIndex * kDay ∨
      dayIndex = 0 ∧ interval.start = dayIndex * kDay ∧ full = true)

instance (full : Bool) : Decidable (Kept dayIndex full interval) :=
  inferInstanceAs (Decidable (_ ∧ _))

/-- What `RemoveDayIntervals` leaves of an interval. -/
def remains (dayIndex : ℤ) (full : Bool) (interval : WorkingInterval) : WorkingIntervals :=
  if interval.till ≤ dayIndex * kDay ∨ (dayIndex + 1) * kDay ≤ interval.start then [interval]
  else if Kept dayIndex full interval then [interval]
  else if (interval.intersected ⟨0, dayIndex * kDay⟩).valid then
    [interval.intersected ⟨0, dayIndex * kDay⟩]
  else if (interval.intersected ⟨(dayIndex + 1) * kDay, kWeek⟩).valid then
    [interval.intersected ⟨(dayIndex + 1) * kDay, kWeek⟩]
  else []

/-- **The second part of an interval is cut out of the first**, and never left. -/
theorem not_valid_second : ¬ ((interval.intersected ⟨0, dayIndex * kDay⟩).intersected
    ⟨(dayIndex + 1) * kDay, kWeek⟩).valid := fun hvalid => by
  obtain ⟨t, hfirst, hafter⟩ := exists_mem_of_valid hvalid
  have hbefore := (mem_intersected.mp hfirst).2.2
  have hafter := hafter.1
  simp only [kDay] at hbefore hafter
  omega

theorem removeLoop_cons (left rest : WorkingIntervals) (interval : WorkingInterval) :
    removeLoop dayIndex left (interval :: rest) [] =
      let full := decide (kWeek ≤ ((left ++ interval :: rest).getLastD interval).till)
      removeLoop dayIndex (left ++ remains dayIndex full interval) rest [] := by
  have hday : WorkingInterval.shifted ⟨0, kDay⟩ (dayIndex * kDay)
      = ⟨dayIndex * kDay, (dayIndex + 1) * kDay⟩ := by
    rw [shifted, zero_add, Int.add_mul, Int.one_mul, add_comm]
  rw [removeLoop, hday, List.append_nil]
  have hkept : Kept dayIndex (decide (kWeek ≤ ((left ++ interval :: rest).getLastD interval).till))
      interval ↔ interval.till ≤ dayIndex * kDay + kInNextDayMax ∧
      (interval.start < dayIndex * kDay ∨ dayIndex = 0 ∧ interval.start = dayIndex * kDay ∧
        kWeek ≤ ((left ++ interval :: rest).getLastD interval).till) := by
    rw [Kept, decide_eq_true_iff]
  dsimp only
  rw [if_neg not_valid_second]
  unfold remains
  simp only [hkept]
  split_ifs
  · rfl
  · rfl
  · rfl
  · rfl
  · rw [List.append_nil]

theorem remains_congr {full full' : Bool}
    (h : dayIndex = 0 → interval.start = 0 → full = full') :
    remains dayIndex full interval = remains dayIndex full' interval := by
  have hkept : Kept dayIndex full interval ↔ Kept dayIndex full' interval := by
    refine and_congr_right' (or_congr_right (and_congr_right fun hday =>
      and_congr_right fun hstart => ?_))
    rw [h hday (by rw [hstart, hday, Int.zero_mul])]
  unfold remains
  simp only [hkept]

/-- **The loop leaves what remains of each interval.** -/
theorem removeLoop_eq {full : Bool} (h : Separated rest) (hstart : ∀ i ∈ rest, 0 ≤ i.start)
    (hfull : (left = [] ∧ ∀ back ∈ rest.getLast?, decide (kWeek ≤ back.till) = full) ∨
      ∀ i ∈ rest, 0 < i.start) :
    removeLoop dayIndex left rest [] = left ++ rest.flatMap (remains dayIndex full) := by
  induction rest generalizing left with
  | nil => rw [removeLoop, List.append_nil, List.flatMap_nil, List.append_nil]
  | cons interval rest ih =>
    obtain ⟨hfirst, hrest⟩ := List.pairwise_cons.mp h.apart
    have hvalid := h.nonempty interval (List.mem_cons_self ..)
    have hzero := hstart interval (List.mem_cons_self ..)
    have hremains : remains dayIndex
        (decide (kWeek ≤ ((left ++ interval :: rest).getLastD interval).till)) interval
          = remains dayIndex full interval := by
      refine remains_congr fun _ hinterval => ?_
      rcases hfull with ⟨rfl, hlast⟩ | hpositive
      · refine hlast _ ?_
        rw [List.nil_append, List.getLastD_eq_getLast?, List.getLast?_cons]
        rfl
      · exact absurd hinterval (hpositive interval (List.mem_cons_self ..)).ne'
    rw [removeLoop_cons]
    dsimp only
    rw [hremains, ih ⟨fun i hi => h.nonempty i (List.mem_cons_of_mem _ hi), hrest⟩
      (fun i hi => hstart i (List.mem_cons_of_mem _ hi))
      (Or.inr fun i hi => (hzero.trans_lt hvalid).trans (hfirst i hi)), List.flatMap_cons,
      List.append_assoc]

/-- Whether a list of intervals runs up to the end of the week. -/
def full (list : WorkingIntervals) : Bool := list.getLast?.any fun back => kWeek ≤ back.till

theorem removeLoop_normalized (h : ∀ i ∈ list, 0 ≤ i.start ∧ i.till ≤ kWeek + kDay) :
    removeLoop dayIndex [] (normalized list) []
      = (normalized list).flatMap (remains dayIndex (full (normalized list))) := by
  obtain ⟨-, hseparated, hwithin⟩ := normalized_spec h
  refine removeLoop_eq hseparated (fun i hi => (hwithin i hi).1)
    (Or.inl ⟨rfl, fun back hback => ?_⟩)
  rw [full, Option.mem_def.mp hback, Option.any_some]

/-- **What remains of an interval**: its seconds out of the day, or all when it is kept, without
what follows the day if it began before. -/
theorem covered_remains {full : Bool} (hstart : 0 ≤ interval.start) (hvalid : interval.valid)
    (hweek : interval.till ≤ kWeek) (hday : 0 ≤ dayIndex) (t : ℤ) :
    Covers (remains dayIndex full interval) t ↔
      t ∈ interval ∧
        (dayIndex * kDay ≤ t ∧ t < (dayIndex + 1) * kDay → Kept dayIndex full interval) ∧
        ¬ (interval.start < dayIndex * kDay ∧ (dayIndex + 1) * kDay ≤ t) := by
  have hday' : 0 ≤ dayIndex * kDay := Int.mul_nonneg hday (by decide)
  have hnext : (dayIndex + 1) * kDay = dayIndex * kDay + kDay := by rw [Int.add_mul, Int.one_mul]
  have hlong : (0 : ℤ) < kInNextDayMax ∧ kInNextDayMax < kDay := by decide
  have hlate : Kept dayIndex full interval → interval.till ≤ dayIndex * kDay + kInNextDayMax :=
    And.left
  have hsingle : ∀ i : WorkingInterval, Covers [i] t ↔ t ∈ i := fun i => by simp
  unfold valid at hvalid
  unfold remains
  generalize (dayIndex + 1) * kDay = next at *
  generalize dayIndex * kDay = start at *
  have hbegin : ¬ (interval.intersected ⟨0, start⟩).valid → start ≤ interval.start := fun hfirst =>
    not_lt.mp fun hlt => hfirst (valid_of_mem (mem_intersected.mpr
      ⟨⟨le_refl _, hvalid⟩, hstart, hlt⟩))
  split_ifs with hout hkept hfirst hsecond
  · rw [hsingle]
    refine ⟨fun ht => ⟨ht, fun hin => ?_, fun hnot => ?_⟩, And.left⟩ <;>
      have := ht.1 <;> have := ht.2 <;> omega
  · have := hlate hkept
    rw [hsingle]
    refine ⟨fun ht => ⟨ht, fun _ => hkept, fun hnot => ?_⟩, And.left⟩
    have := ht.2
    omega
  · have := hfirst
    rw [intersected_of_valid hfirst, valid, max_lt_iff, lt_min_iff, lt_min_iff] at this
    dsimp only at this
    rw [hsingle, mem_intersected, mem_iff]
    refine ⟨fun ht => ⟨ht.1, fun hin => ?_, fun hnot => ?_⟩, fun h => ⟨h.1, ?_, ?_⟩⟩
    · have := ht.2.2
      dsimp only at this
      omega
    · have := ht.2.2
      dsimp only at this
      omega
    · exact hstart.trans h.1.1
    · obtain ⟨ht, hin, hnot⟩ := h
      dsimp only
      by_contra hge
      exact hkept (hin (by omega))
  · have hbegin := hbegin hfirst
    rw [hsingle, mem_intersected, mem_iff]
    refine ⟨fun ht => ⟨ht.1, fun hin => ?_, fun hnot => ?_⟩, fun h => ⟨h.1, ?_, ?_⟩⟩
    · have := ht.2.1
      dsimp only at this
      omega
    · omega
    · obtain ⟨ht, hin, -⟩ := h
      dsimp only
      by_contra hlt
      exact hkept (hin ⟨hbegin.trans ht.1, not_le.mp hlt⟩)
    · exact h.1.2.trans_le hweek
  · have hbegin := hbegin hfirst
    refine iff_of_false covers_nil fun h => ?_
    obtain ⟨ht, hin, -⟩ := h
    rcases lt_or_ge t next with hlt | hge
    · exact hkept (hin ⟨hbegin.trans ht.1, hlt⟩)
    · exact hsecond (valid_of_mem (mem_intersected.mpr ⟨ht, hge, ht.2.trans_le hweek⟩))

theorem remains_within {full : Bool} {i : WorkingInterval}
    (hi : i ∈ remains dayIndex full interval) :
    interval.start ≤ i.start ∧ i.till ≤ interval.till := by
  unfold remains at hi
  split_ifs at hi with hout hkept hfirst hsecond
  · rw [List.mem_singleton.mp hi]
    exact ⟨le_refl _, le_refl _⟩
  · rw [List.mem_singleton.mp hi]
    exact ⟨le_refl _, le_refl _⟩
  · rw [List.mem_singleton.mp hi, intersected_of_valid hfirst]
    exact ⟨le_max_left .., min_le_left ..⟩
  · rw [List.mem_singleton.mp hi, intersected_of_valid hsecond]
    exact ⟨le_max_left .., min_le_left ..⟩
  · exact absurd hi List.not_mem_nil

/-- What remains of the interval that the second is in. -/
def Remains (list : WorkingIntervals) (dayIndex t : ℤ) : Prop :=
  ∃ i ∈ normalized list, t ∈ i ∧
    (dayIndex * kDay ≤ t ∧ t < (dayIndex + 1) * kDay →
      Kept dayIndex (full (normalized list)) i) ∧
    ¬ (i.start < dayIndex * kDay ∧ (dayIndex + 1) * kDay ≤ t)

theorem removeLoop_within (h : ∀ i ∈ list, 0 ≤ i.start ∧ i.till ≤ kWeek + kDay) :
    ∀ i ∈ removeLoop dayIndex [] (normalized list) [], 0 ≤ i.start ∧ i.till ≤ kWeek := by
  obtain ⟨-, -, hwithin⟩ := normalized_spec h
  rw [removeLoop_normalized h]
  intro i hi
  obtain ⟨j, hj, hij⟩ := List.mem_flatMap.mp hi
  obtain ⟨hstart, htill⟩ := remains_within hij
  exact ⟨(hwithin j hj).1.trans hstart, htill.trans (hwithin j hj).2⟩

theorem le_kWeek_add (h : ∀ i ∈ list, 0 ≤ i.start ∧ i.till ≤ kWeek) :
    ∀ i ∈ list, 0 ≤ i.start ∧ i.till ≤ kWeek + kDay := fun i hi =>
  ⟨(h i hi).1, (h i hi).2.trans (by decide)⟩

/-- **`RemoveDayIntervals` leaves what remains of each interval.** -/
theorem open_removeDayIntervals (h : ∀ i ∈ list, 0 ≤ i.start ∧ i.till ≤ kWeek + kDay)
    (hday : 0 ≤ dayIndex) (ht : 0 ≤ t) (hweek : t < kWeek) :
    Open (removeDayIntervals list dayIndex) t ↔ Remains list dayIndex t := by
  obtain ⟨-, hseparated, hwithin⟩ := normalized_spec h
  have hremains : ∀ i ∈ removeLoop dayIndex [] (normalized list) [], 0 ≤ i.start ∧ i.till ≤ kWeek :=
    removeLoop_within h
  rw [removeDayIntervals, (normalized_spec (le_kWeek_add hremains)).1,
    open_iff_covers hremains ht hweek, removeLoop_normalized h, covers_flatMap]
  refine exists_congr fun i => and_congr_right fun hi => ?_
  exact covered_remains (hwithin i hi).1 (hseparated.nonempty i hi) (hwithin i hi).2 hday t

theorem removeDayIntervals_within (h : ∀ i ∈ list, 0 ≤ i.start ∧ i.till ≤ kWeek + kDay) :
    ∀ i ∈ removeDayIntervals list dayIndex, 0 ≤ i.start ∧ i.till ≤ kWeek :=
  (normalized_spec (le_kWeek_add (removeLoop_within h))).2.2

/-! ## What is kept and what is dropped -/

/-- **A late night**: it is open from the day before up to a second that is not later than 6:00, and
this second is before. -/
def LateNight (list : WorkingIntervals) (dayIndex t : ℤ) : Prop :=
  ∃ till, t < till ∧ till ≤ dayIndex * kDay + kInNextDayMax ∧
    (∀ u, dayIndex * kDay - 1 ≤ u → u < till → Open list u) ∧ ¬ Open list till

/-- It is open from the last second before a day up to the first one after it, in the same week. -/
def Crosses (list : WorkingIntervals) (dayIndex : ℤ) : Prop :=
  0 < dayIndex ∧ dayIndex < 6 ∧
    ∀ u, dayIndex * kDay - 1 ≤ u → u ≤ (dayIndex + 1) * kDay → Open list u

theorem open_iff_normalized (h : ∀ i ∈ list, 0 ≤ i.start ∧ i.till ≤ kWeek + kDay) (ht : 0 ≤ t)
    (hweek : t < kWeek) : Open list t ↔ Covers (normalized list) t := by
  obtain ⟨hopen, -, hwithin⟩ := normalized_spec h
  exact (hopen t).symm.trans (open_iff_covers hwithin ht hweek)

/-- The intervals run up to the end of the week if it is open at its last second. -/
theorem full_iff (h : ∀ i ∈ list, 0 ≤ i.start ∧ i.till ≤ kWeek + kDay) :
    full (normalized list) = true ↔ Open list (-1) := by
  obtain ⟨-, hseparated, hwithin⟩ := normalized_spec h
  have hweek : (0 : ℤ) < kWeek := by decide
  rw [← open_add_mul 1, Int.one_mul, open_iff_normalized h (by omega) (by omega)]
  rcases List.eq_nil_or_concat (normalized list) with hnil | ⟨init, back, hback⟩
  · rw [hnil]
    simp [full]
  · rw [List.concat_eq_append] at hback
    rw [hback] at hseparated hwithin ⊢
    have hmem : back ∈ init ++ [back] := by simp
    rw [full, List.getLast?_concat, Option.any_some, decide_eq_true_iff]
    constructor
    · intro htill
      have hvalid := hseparated.nonempty back hmem
      have hle := (hwithin back hmem).2
      exact ⟨back, hmem, by omega, by omega⟩
    · rintro ⟨i, hi, -, htill⟩
      have hle := hseparated.till_le_last hi
      omega

theorem kept_iff (h : ∀ i ∈ list, 0 ≤ i.start ∧ i.till ≤ kWeek + kDay)
    (hday : 0 ≤ dayIndex) (hlast : dayIndex < 7) (hi : interval ∈ normalized list)
    (ht : t ∈ interval) (hstart : dayIndex * kDay ≤ t) (htill : t < (dayIndex + 1) * kDay) :
    Kept dayIndex (full (normalized list)) interval ↔ LateNight list dayIndex t := by
  obtain ⟨-, hseparated, hwithin⟩ := normalized_spec h
  have hbounds := hwithin interval hi
  have hweek : (dayIndex + 1) * kDay ≤ kWeek := by
    simp only [kWeek, kDay]
    omega
  have hnext : (dayIndex + 1) * kDay = dayIndex * kDay + kDay := by rw [Int.add_mul, Int.one_mul]
  have hlong : (0 : ℤ) < kInNextDayMax ∧ kInNextDayMax < kDay := by decide
  have hvalid := hseparated.nonempty interval hi
  have hinside : ∀ u, interval.start ≤ u → u < interval.till → Open list u := fun u hu hlt =>
    (open_iff_normalized h (by omega) (by omega)).mpr ⟨interval, hi, hu, hlt⟩
  constructor
  · rintro ⟨hle, hbegin⟩
    refine ⟨interval.till, ht.2, hle, fun u hu hlt => ?_, ?_⟩
    · rcases hbegin with hbegin | ⟨hfirst, hbegin, hfull⟩
      · exact hinside u (by omega) hlt
      · rcases lt_or_ge u interval.start with hbefore | hafter
        · have hu : u = -1 := by
            rw [hfirst, Int.zero_mul] at hu hbegin
            omega
          exact hu ▸ (full_iff h).mp hfull
        · exact hinside u hafter hlt
    · rw [open_iff_normalized h (by omega) (by omega)]
      exact hseparated.not_covers_till hi
  · rintro ⟨till, hlt, hle, hopen, hclosed⟩
    have htill : interval.till ≤ till := by
      by_contra hgt
      exact hclosed (hinside till (ht.1.trans hlt.le) (not_le.mp hgt))
    -- The seconds from the day before up to this one are in one interval, which is this one.
    have hrun : ∀ b, 0 ≤ b → dayIndex * kDay - 1 ≤ b → b ≤ t → interval.start ≤ b := by
      intro b hb hbegin hbt
      obtain ⟨j, hj, hjb, hjt⟩ := hseparated.exists_of_run hbt fun u hu hut =>
        (open_iff_normalized h (hb.trans hu) (by omega)).mp (hopen u (by omega) (by omega))
      rw [hseparated.eq_of_mem hi hj ht ⟨hjb.trans hbt, hjt⟩]
      exact hjb
    refine ⟨htill.trans hle, ?_⟩
    rcases hday.eq_or_lt with hzero | hpos
    · have hfirst : dayIndex * kDay = 0 := by rw [← hzero, Int.zero_mul]
      refine Or.inr ⟨hzero.symm, ?_, (full_iff h).mpr (hopen (-1) (by omega) (by omega))⟩
      have hle := hrun 0 (le_refl 0) (by omega) (by omega)
      omega
    · have hbefore : kDay ≤ dayIndex * kDay := by
        simp only [kDay]
        omega
      have hle := hrun (dayIndex * kDay - 1) (by omega) (le_refl _) (by omega)
      exact Or.inl (by omega)

theorem crosses_iff (h : ∀ i ∈ list, 0 ≤ i.start ∧ i.till ≤ kWeek + kDay)
    (hday : 0 ≤ dayIndex) (hlast : dayIndex < 7) : Crosses list dayIndex ↔
    ∃ i ∈ normalized list, i.start < dayIndex * kDay ∧ (dayIndex + 1) * kDay < i.till := by
  obtain ⟨-, hseparated, hwithin⟩ := normalized_spec h
  constructor
  · rintro ⟨hfirst, hlast, hopen⟩
    have hbounds : 0 ≤ dayIndex * kDay - 1 ∧ dayIndex * kDay - 1 ≤ (dayIndex + 1) * kDay ∧
        (dayIndex + 1) * kDay < kWeek := by
      simp only [kWeek, kDay]
      omega
    obtain ⟨i, hi, hstart, htill⟩ := hseparated.exists_of_run hbounds.2.1 fun u hu hlt =>
      (open_iff_normalized h (hbounds.1.trans hu) (hlt.trans_lt hbounds.2.2)).mp (hopen u hu hlt)
    exact ⟨i, hi, by omega, htill⟩
  · rintro ⟨i, hi, hstart, htill⟩
    have hbounds := hwithin i hi
    refine ⟨?_, ?_, fun u hu hlt => ?_⟩
    · simp only [kDay] at hstart
      omega
    · simp only [kWeek, kDay] at htill hbounds
      omega
    · rw [open_iff_normalized h (by omega) (by omega)]
      exact ⟨i, hi, by omega, by omega⟩

end WorkingIntervals

end Yunogram
