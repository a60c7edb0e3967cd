import Mathlib
import Yunogram.Machinery.Intervals

/-!
# Data/WorkingHours — the intervals of a week in which a business is open

Intervals are seconds of a week, and may run into the first day of the next.  `normalized` sorts and
merges them and moves what is after the week to its front; the intervals of a day are extracted with
the late night that follows it, and removed and replaced without it.
-/

open Machinery

namespace Yunogram

/-- `WorkingInterval`, with `till` for its end. -/
abbrev WorkingInterval := HalfOpen ℤ

namespace WorkingInterval

/-- `WorkingInterval::kDay`. -/
def kDay : ℤ := 24 * 3600

/-- `WorkingInterval::kWeek`. -/
def kWeek : ℤ := 7 * kDay

/-- `WorkingInterval::kInNextDayMax`. -/
def kInNextDayMax : ℤ := 6 * 3600

/-- `WorkingInterval::operator bool`. -/
def valid (interval : WorkingInterval) : Prop := interval.start < interval.till

instance (interval : WorkingInterval) : Decidable interval.valid :=
  inferInstanceAs (Decidable (_ < _))

/-- `WorkingInterval()`. -/
def empty : WorkingInterval := ⟨0, 0⟩

/-- `WorkingInterval::shifted`. -/
def shifted (interval : WorkingInterval) (offset : ℤ) : WorkingInterval :=
  ⟨interval.start + offset, interval.till + offset⟩

/-- `WorkingInterval::united`. -/
def united (interval other : WorkingInterval) : WorkingInterval :=
  if ¬ interval.valid then other
  else if ¬ other.valid then interval
  else ⟨min interval.start other.start, max interval.till other.till⟩

/-- `WorkingInterval::intersected`. -/
def intersected (interval other : WorkingInterval) : WorkingInterval :=
  let result : WorkingInterval := ⟨max interval.start other.start, min interval.till other.till⟩
  if result.valid then result else empty

/-- **What is valid after an intersection is the intersection.** -/
theorem intersected_of_valid {interval other : WorkingInterval}
    (h : (interval.intersected other).valid) :
    interval.intersected other
      = ⟨max interval.start other.start, min interval.till other.till⟩ := by
  unfold intersected at h ⊢
  dsimp only at h ⊢
  split_ifs at h ⊢
  · rfl
  · exact absurd h (lt_irrefl 0)

end WorkingInterval

open WorkingInterval

/-- `WorkingIntervals`, its list. -/
abbrev WorkingIntervals := List WorkingInterval

namespace WorkingIntervals

/-- The loop of `SortAndMerge` at one interval, with those before it, the last one first. -/
def mergeNext (before : List WorkingInterval) (interval : WorkingInterval) : List WorkingInterval :=
  match before with
  | [] => if interval.valid then [interval] else []
  | last :: before =>
    if interval.valid ∧ last.valid ∧ interval.start ≤ last.till then last.united interval :: before
    else if interval.valid then interval :: last :: before
    else last :: before

/-- `SortAndMerge`. -/
def sortAndMerge (list : WorkingIntervals) : WorkingIntervals :=
  ((list.mergeSort fun a b => a.start ≤ b.start).foldl mergeNext []).reverse

/-- The intervals that may still be moved by `MoveTailToFront`. -/
def tails (list : WorkingIntervals) : ℕ := list.countP fun interval => kWeek < interval.till

/-- The list when the tail of its last interval is cut off. -/
def withoutTail (list : WorkingIntervals) (back tail : WorkingInterval) : WorkingIntervals :=
  let cut : WorkingInterval := ⟨back.start, tail.start⟩
  if cut.valid then list.dropLast ++ [cut] else list.dropLast

/-- The part of an interval that is after the week is what can be moved. -/
theorem tail_eq {back : WorkingInterval} (h : (back.intersected ⟨kWeek, kWeek + kDay⟩).valid) :
    back.intersected ⟨kWeek, kWeek + kDay⟩ = ⟨max back.start kWeek, min back.till (kWeek + kDay)⟩ ∧
      back.start < kWeek + kDay ∧ back.start < back.till ∧ kWeek < back.till := by
  have heq := intersected_of_valid h
  rw [heq] at h
  obtain ⟨hstart, hweek⟩ := max_lt_iff.mp h
  exact ⟨heq, (lt_min_iff.mp hstart).2, (lt_min_iff.mp hstart).1, (lt_min_iff.mp hweek).1⟩

/-- What is moved is not moved again. -/
theorem tails_withoutTail {list : WorkingIntervals} {back : WorkingInterval}
    (hlast : list.getLast? = some back)
    (h : (back.intersected ⟨kWeek, kWeek + kDay⟩).valid) :
    let tail := back.intersected ⟨kWeek, kWeek + kDay⟩
    tails (tail.shifted (-kWeek) :: withoutTail list back tail) < tails list := by
  obtain ⟨init, rfl⟩ := List.getLast?_eq_some_iff.mp hlast
  obtain ⟨heq, -, -, hweek⟩ := tail_eq h
  have hback : tails (init ++ [back]) = tails init + 1 := by
    rw [tails, List.countP_append, List.countP_singleton, if_pos (by simpa using hweek), tails]
  have hmoved : tails [(back.intersected ⟨kWeek, kWeek + kDay⟩).shifted (-kWeek)] = 0 := by
    rw [heq, tails, List.countP_singleton]
    refine if_neg fun hlt => ?_
    have hlt : kWeek < min back.till (kWeek + kDay) + -kWeek := of_decide_eq_true hlt
    have hmin := min_le_right back.till (kWeek + kDay)
    simp only [kWeek, kDay] at hlt hmin
    omega
  have hrest : tails (withoutTail (init ++ [back]) back (back.intersected ⟨kWeek, kWeek + kDay⟩))
      ≤ tails init := by
    unfold withoutTail
    dsimp only
    rw [List.dropLast_concat]
    split_ifs with hcut
    · rw [heq] at hcut ⊢
      have hlt : back.start < kWeek := by
        by_contra hge
        rw [valid, max_eq_left (not_lt.mp hge)] at hcut
        exact absurd hcut (lt_irrefl _)
      rw [tails, List.countP_append, List.countP_singleton, if_neg, Nat.add_zero, tails]
      simpa using hlt.le
    · exact le_refl _
  intro tail
  rw [hback, ← List.singleton_append, tails, List.countP_append]
  change tails _ + tails _ < _
  rw [hmoved, Nat.zero_add]
  exact Nat.lt_succ_of_le hrest

/-- `MoveTailToFront`. -/
def moveTailToFront (list : WorkingIntervals) : WorkingIntervals :=
  match _hlast : list.getLast? with
  | none => list
  | some back =>
    let tail := back.intersected ⟨kWeek, kWeek + kDay⟩
    if _htail : tail.valid then
      moveTailToFront (tail.shifted (-kWeek) :: withoutTail list back tail)
    else list
  termination_by tails list
  decreasing_by exact tails_withoutTail _hlast _htail

/-- `WorkingIntervals::normalized`. -/
def normalized (list : WorkingIntervals) : WorkingIntervals :=
  sortAndMerge (moveTailToFront (sortAndMerge list))

/-- An interval in the three weeks, as far as it is near the day. -/
def near (dayIndex : ℤ) (interval : WorkingInterval) : List WorkingInterval :=
  let now := interval.intersected ⟨(dayIndex - 1) * kDay, (dayIndex + 2) * kDay⟩
  let after := interval.intersected ⟨(dayIndex + 6) * kDay, (dayIndex + 9) * kDay⟩
  let before := interval.intersected ⟨(dayIndex - 8) * kDay, (dayIndex - 5) * kDay⟩
  (if now.valid then [now.shifted (-dayIndex * kDay)] else []) ++
    (if after.valid then [after.shifted (-(dayIndex + 7) * kDay)] else []) ++
    (if before.valid then [before.shifted (-(dayIndex - 7) * kDay)] else [])

/-- The last interval of an extracted day ends with it, if it does not end in the late night. -/
def cutBack (list : WorkingIntervals) : WorkingIntervals :=
  match list.getLast? with
  | none => list
  | some back =>
    if back.start ≤ 0 ∧ kDay ≤ back.till then list.dropLast ++ [⟨0, kDay⟩]
    else if kDay + kInNextDayMax < back.till then list.dropLast ++ [back.intersected ⟨0, kDay⟩]
    else list

/-- The first interval of an extracted day starts with it, if it is not the late night before. -/
def cutFront (list : WorkingIntervals) : WorkingIntervals :=
  match list with
  | [] => []
  | front :: rest =>
    if front.start ≤ 0 then
      if front.start < 0 ∧ front.till ≤ kInNextDayMax ∧ -kDay < front.start then rest
      else
        let cut := front.intersected ⟨0, kDay⟩
        if cut.valid then cut :: rest else rest
    else front :: rest

/-- `ExtractDayIntervals`. -/
def extractDayIntervals (intervals : WorkingIntervals) (dayIndex : ℤ) : WorkingIntervals :=
  let list := normalized (intervals.flatMap (near dayIndex))
  let inside := list.filter fun interval => ¬ (interval.till ≤ 0 ∨ kDay ≤ interval.start)
  cutFront (cutBack inside)

/-- The loop of `RemoveDayIntervals`: the intervals that it left, those to come, and those that it
pushed back. -/
def removeLoop (dayIndex : ℤ) (left : WorkingIntervals) :
    WorkingIntervals → WorkingIntervals → WorkingIntervals
  | [], pushed => left ++ pushed
  | interval :: rest, pushed =>
    let shifted := WorkingInterval.shifted ⟨0, kDay⟩ (dayIndex * kDay)
    let before : WorkingInterval := ⟨0, shifted.start⟩
    let after : WorkingInterval := ⟨shifted.till, kWeek⟩
    let back := (left ++ interval :: rest ++ pushed).getLastD interval
    if interval.till ≤ shifted.start ∨ shifted.till ≤ interval.start then
      removeLoop dayIndex (left ++ [interval]) rest pushed
    else if interval.till ≤ shifted.start + kInNextDayMax ∧ (interval.start < shifted.start ∨
        dayIndex = 0 ∧ interval.start = shifted.start ∧ kWeek ≤ back.till) then
      removeLoop dayIndex (left ++ [interval]) rest pushed
    else
      let first := interval.intersected before
      if first.valid then
        -- The interval in the list is the first part already.
        let second := first.intersected after
        removeLoop dayIndex (left ++ [first]) rest
          (if second.valid then pushed ++ [second] else pushed)
      else
        let second := interval.intersected after
        if second.valid then removeLoop dayIndex (left ++ [second]) rest pushed
        else removeLoop dayIndex left rest pushed

/-- `RemoveDayIntervals`. -/
def removeDayIntervals (intervals : WorkingIntervals) (dayIndex : ℤ) : WorkingIntervals :=
  normalized (removeLoop dayIndex [] (normalized intervals) [])

/-- `ReplaceDayIntervals`. -/
def replaceDayIntervals (intervals : WorkingIntervals) (dayIndex : ℤ)
    (replacement : WorkingIntervals) : WorkingIntervals :=
  normalized (removeDayIntervals intervals dayIndex ++
    replacement.map fun interval => interval.shifted (dayIndex * kDay))

end WorkingIntervals

end Yunogram
