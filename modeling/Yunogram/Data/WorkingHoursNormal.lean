import Yunogram.Data.WorkingHours

/-!
# Data/WorkingHoursNormal — what `normalized` does

The result is `normalized_spec`: the list is open at the same seconds of a week, and its intervals
are separated and inside one week. -/

open Machinery HalfOpen

namespace Yunogram

namespace WorkingInterval

variable {interval other : WorkingInterval} {t offset : ℤ}

theorem not_mem_of_not_valid (h : ¬ interval.valid) : t ∉ interval := fun ht =>
  h (lt_of_le_of_lt ht.1 ht.2)

theorem valid_of_mem (h : t ∈ interval) : interval.valid :=
  not_not.mp fun hvalid => not_mem_of_not_valid hvalid h

theorem mem_intersected : t ∈ interval.intersected other ↔ t ∈ interval ∧ t ∈ other := by
  have hmem : t ∈ (⟨max interval.start other.start, min interval.till other.till⟩ : WorkingInterval)
      ↔ t ∈ interval ∧ t ∈ other := by
    rw [mem_iff, mem_iff, mem_iff, max_le_iff, lt_min_iff, and_and_and_comm]
  unfold intersected
  dsimp only
  split_ifs with hvalid
  · exact hmem
  · rw [← hmem]
    exact iff_of_false (not_mem_of_not_valid (lt_irrefl 0)) (not_mem_of_not_valid hvalid)

theorem exists_mem_of_valid (h : (interval.intersected other).valid) :
    ∃ t, t ∈ interval ∧ t ∈ other :=
  ⟨_, mem_intersected.mp ⟨le_refl _, h⟩⟩

theorem mem_shifted : t ∈ interval.shifted offset ↔ t - offset ∈ interval := by
  rw [mem_iff, mem_iff, shifted]
  dsimp only
  omega

end WorkingInterval

open WorkingInterval

namespace WorkingIntervals

variable {list before : WorkingIntervals} {interval : WorkingInterval} {t lo hi : ℤ}

/-! ## `SortAndMerge` -/

theorem mergeNext_of_not_valid (h : ¬ interval.valid) : mergeNext before interval = before := by
  unfold mergeNext
  cases before with
  | nil => exact if_neg h
  | cons last before =>
    dsimp only
    rw [if_neg fun hnot => h hnot.1, if_neg h]

/-- An interval that starts behind the last one is pushed. -/
theorem mergeNext_eq_push (h : interval.valid) (hvalid : ∀ last ∈ before.head?, last.valid)
    (hstart : ∀ last ∈ before.head?, last.start ≤ interval.start) :
    mergeNext before interval = push before interval := by
  cases before with
  | nil => exact if_pos h
  | cons last before =>
    have hlast : last.valid := hvalid last rfl
    unfold mergeNext push
    dsimp only
    by_cases htouch : interval.start ≤ last.till
    · rw [if_pos ⟨h, hlast, htouch⟩, if_pos htouch, united, if_neg (not_not.mpr hlast),
        if_neg (not_not.mpr h), min_eq_left (hstart last rfl)]
    · rw [if_neg fun hnot => htouch hnot.2.2, if_pos h, if_neg htouch]

theorem start_head_push {last' : WorkingInterval} (h : last' ∈ (push before interval).head?) :
    last'.start = interval.start ∨ ∃ last ∈ before.head?, last'.start = last.start := by
  cases before with
  | nil =>
    obtain rfl := Option.some.inj h
    exact Or.inl rfl
  | cons last before =>
    unfold push at h
    dsimp only at h
    split_ifs at h
    · obtain rfl := Option.some.inj h
      exact Or.inr ⟨last, rfl, rfl⟩
    · obtain rfl := Option.some.inj h
      exact Or.inl rfl

/-- **The loop merges what is sorted.** -/
theorem merge_spec (h : Separated before.reverse)
    (hsorted : list.Pairwise fun a b => a.start ≤ b.start)
    (hstart : ∀ last ∈ before.head?, ∀ i ∈ list, last.start ≤ i.start) :
    Separated (list.foldl mergeNext before).reverse ∧
      ∀ t, Covers (list.foldl mergeNext before) t ↔ Covers before t ∨ Covers list t := by
  induction list generalizing before with
  | nil => exact ⟨h, fun t => by simp⟩
  | cons interval list ih =>
    obtain ⟨hfirst, hsorted⟩ := List.pairwise_cons.mp hsorted
    rw [List.foldl_cons]
    by_cases hvalid : interval.valid
    · have hlast : ∀ last ∈ before.head?, last.start ≤ interval.start := fun last hlast =>
        hstart last hlast interval (List.mem_cons_self ..)
      rw [mergeNext_eq_push hvalid (fun last hlast => ?_) hlast]
      · obtain ⟨hseparated, hcovered⟩ := ih (h.push hvalid) hsorted fun last' hlast' i hi => by
          rcases start_head_push hlast' with heq | ⟨last, hmem, heq⟩
          · exact heq ▸ hfirst i hi
          · exact heq ▸ hstart last hmem i (List.mem_cons_of_mem _ hi)
        refine ⟨hseparated, fun t => ?_⟩
        rw [hcovered, covers_push hlast, covers_cons, or_assoc]
      · exact h.nonempty last (List.mem_reverse.mpr (List.mem_of_mem_head? hlast))
    · rw [mergeNext_of_not_valid hvalid]
      obtain ⟨hseparated, hcovered⟩ := ih h hsorted fun last hlast i hi =>
        hstart last hlast i (List.mem_cons_of_mem _ hi)
      refine ⟨hseparated, fun t => ?_⟩
      rw [hcovered, covers_cons, or_iff_right (not_mem_of_not_valid hvalid)]

/-- **`SortAndMerge` separates the intervals, and covers what they covered.** -/
theorem sortAndMerge_spec (list : WorkingIntervals) :
    Separated (sortAndMerge list) ∧ ∀ t, Covers (sortAndMerge list) t ↔ Covers list t := by
  have hsorted : (list.mergeSort fun a b => a.start ≤ b.start).Pairwise
      fun a b => decide (a.start ≤ b.start) = true :=
    List.pairwise_mergeSort (fun a b c => by simpa using le_trans)
      (fun a b => by simpa using le_total a.start b.start) list
  have hnil : Separated ([] : WorkingIntervals).reverse := Separated.nil
  obtain ⟨hseparated, hcovered⟩ := merge_spec hnil (hsorted.imp of_decide_eq_true)
    fun _ hlast => absurd hlast (by simp)
  refine ⟨hseparated, fun t => ?_⟩
  rw [sortAndMerge, covers_congr fun _ => List.mem_reverse]
  refine (hcovered t).trans ?_
  rw [or_iff_right covers_nil]
  exact covers_congr fun _ => List.mem_mergeSort

/-! ## `MoveTailToFront` -/

/-- **Whether it is open at a second**, of any week. -/
def Open (list : WorkingIntervals) (t : ℤ) : Prop := ∃ k : ℤ, Covers list (t + k * kWeek)

theorem open_congr {other : WorkingIntervals} (h : ∀ t, Covers list t ↔ Covers other t) :
    Open list t ↔ Open other t := exists_congr fun _ => h _

theorem open_cons : Open (interval :: list) t ↔ Open [interval] t ∨ Open list t := by
  simp only [Open, covers_cons, exists_or, covers_nil, or_false]

theorem open_append {other : WorkingIntervals} :
    Open (list ++ other) t ↔ Open list t ∨ Open other t := by
  simp only [Open, covers_append, exists_or]

/-- Every week is as the others. -/
theorem open_add_mul (k : ℤ) : Open list (t + k * kWeek) ↔ Open list t := by
  refine ⟨fun ⟨m, hm⟩ => ⟨k + m, ?_⟩, fun ⟨m, hm⟩ => ⟨m - k, ?_⟩⟩
  · rwa [Int.add_mul, ← add_assoc]
  · rwa [Int.sub_mul, add_add_sub_cancel]

theorem open_emod : Open list (t % kWeek) ↔ Open list t := by
  rw [← open_add_mul (t / kWeek), Int.mul_comm, Int.emod_add_mul_ediv]

/-- **Intervals of which only the last may run into the next week**, those behind it apart. -/
structure Movable (list : WorkingIntervals) : Prop where
  valid : ∀ i ∈ list, i.valid
  within : ∀ i ∈ list, 0 ≤ i.start ∧ i.till ≤ kWeek + kDay
  tail : list.Pairwise fun i j => i.till < j.start ∨ i.till ≤ kWeek

variable {back : WorkingInterval}

theorem open_shifted_week : Open [interval.shifted (-kWeek)] t ↔ Open [interval] t := by
  simp only [Open, covers_cons, covers_nil, or_false, mem_shifted, sub_neg_eq_add]
  refine ⟨Exists.rec fun k hk => ⟨k + 1, ?_⟩, Exists.rec fun k hk => ⟨k - 1, ?_⟩⟩
  · rwa [Int.add_mul, Int.one_mul, ← add_assoc]
  · rwa [Int.sub_mul, Int.one_mul, add_assoc, sub_add_cancel]

/-- What is cut off and moved is open at the same seconds. -/
theorem open_moved (hlast : list.getLast? = some back)
    (h : (back.intersected ⟨kWeek, kWeek + kDay⟩).valid) (hwithin : back.till ≤ kWeek + kDay) :
    let tail := back.intersected ⟨kWeek, kWeek + kDay⟩
    Open (tail.shifted (-kWeek) :: withoutTail list back tail) t ↔ Open list t := by
  obtain ⟨init, rfl⟩ := List.getLast?_eq_some_iff.mp hlast
  obtain ⟨heq, -, hvalid, hweek⟩ := tail_eq h
  intro tail
  have hcut : ∀ x, Covers (withoutTail (init ++ [back]) back tail) x ↔
      Covers init x ∨ x ∈ (⟨back.start, tail.start⟩ : WorkingInterval) := fun x => by
    unfold withoutTail
    dsimp only
    rw [List.dropLast_concat]
    split_ifs with hcut
    · simp only [covers_append, covers_cons, covers_nil, or_false]
    · rw [or_iff_left (not_mem_of_not_valid hcut)]
  have hback : ∀ x, Covers (withoutTail (init ++ [back]) back tail ++ [tail]) x ↔
      Covers (init ++ [back]) x := fun x => by
    simp only [covers_append, hcut, covers_cons, covers_nil, or_false, or_assoc]
    refine or_congr_right ?_
    rw [show tail = _ from heq, min_eq_left hwithin, mem_iff, mem_iff, mem_iff]
    dsimp only
    omega
  rw [open_cons, open_shifted_week, or_comm, ← open_append]
  exact open_congr hback

/-- What is cut off and moved is movable. -/
theorem Movable.moved (h : Movable list) (hlast : list.getLast? = some back)
    (htail : (back.intersected ⟨kWeek, kWeek + kDay⟩).valid) :
    let tail := back.intersected ⟨kWeek, kWeek + kDay⟩
    Movable (tail.shifted (-kWeek) :: withoutTail list back tail) := by
  obtain ⟨init, rfl⟩ := List.getLast?_eq_some_iff.mp hlast
  obtain ⟨heq, hstart, hvalid, hweek⟩ := tail_eq htail
  obtain ⟨hinit, -, hapart⟩ := List.pairwise_append.mp h.tail
  intro tail
  have hwithin := h.within back (by simp)
  have hrest : ∀ i ∈ withoutTail (init ++ [back]) back tail, i ∈ init ∨
      i = ⟨back.start, tail.start⟩ ∧ back.start < tail.start := fun i hi => by
    unfold withoutTail at hi
    dsimp only at hi
    rw [List.dropLast_concat] at hi
    split_ifs at hi with hcut
    · exact (List.mem_append.mp hi).imp_right fun hi => ⟨List.mem_singleton.mp hi, hcut⟩
    · exact Or.inl hi
  have hmoved : tail.shifted (-kWeek) = ⟨max back.start kWeek - kWeek, back.till - kWeek⟩ := by
    rw [show tail = _ from heq, min_eq_left hwithin.2]
    rfl
  have hday : 0 < kDay ∧ kWeek = 7 * kDay := ⟨by decide, rfl⟩
  refine ⟨fun i hi => ?_, fun i hi => ?_, List.pairwise_cons.mpr ⟨fun i _ => Or.inr ?_, ?_⟩⟩
  · rcases List.mem_cons.mp hi with rfl | hi
    · rw [hmoved]
      show max back.start kWeek - kWeek < back.till - kWeek
      omega
    · rcases hrest i hi with hi | ⟨rfl, hlt⟩
      · exact h.valid i (List.mem_append_left _ hi)
      · exact hlt
  · rcases List.mem_cons.mp hi with rfl | hi
    · rw [hmoved]
      dsimp only
      omega
    · rcases hrest i hi with hi | ⟨rfl, hlt⟩
      · exact h.within i (List.mem_append_left _ hi)
      · rw [show tail = _ from heq] at hlt ⊢
        dsimp only at hlt ⊢
        omega
  · rw [hmoved]
    dsimp only
    omega
  · unfold withoutTail
    dsimp only
    rw [List.dropLast_concat]
    split_ifs
    · refine List.pairwise_append.mpr ⟨hinit, List.pairwise_singleton _ _, fun i hi j hj => ?_⟩
      rw [List.mem_singleton.mp hj]
      exact hapart i hi back (List.mem_singleton_self back)
    · exact hinit

/-- **`MoveTailToFront` leaves nothing behind the week.** -/
theorem moveTailToFront_spec (h : Movable list) :
    (∀ t, Open (moveTailToFront list) t ↔ Open list t) ∧
      ∀ i ∈ moveTailToFront list, 0 ≤ i.start ∧ i.till ≤ kWeek := by
  induction list using moveTailToFront.induct with
  | case1 list hlast =>
    rw [List.getLast?_eq_none_iff.mp hlast, moveTailToFront]
    exact ⟨fun t => Iff.rfl, fun i hi => absurd hi List.not_mem_nil⟩
  | case2 list back hlast tail htail ih =>
    obtain ⟨hopen, hwithin⟩ := ih (h.moved hlast htail)
    rw [moveTailToFront, hlast]
    dsimp only
    rw [dif_pos htail]
    refine ⟨fun t => (hopen t).trans (open_moved hlast htail ?_), hwithin⟩
    exact (h.within back (List.mem_of_getLast? hlast)).2
  | case3 list back hlast tail htail =>
    rw [moveTailToFront, hlast]
    dsimp only
    rw [dif_neg htail]
    refine ⟨fun t => Iff.rfl, fun i hi => ⟨(h.within i hi).1, ?_⟩⟩
    have hback : back.till ≤ kWeek := by
      by_contra hweek
      have hvalid : back.start < back.till := h.valid back (List.mem_of_getLast? hlast)
      have hwithin := h.within back (List.mem_of_getLast? hlast)
      refine htail (valid_of_mem (mem_intersected.mpr ⟨(?_ : back.till - 1 ∈ back), ?_⟩))
      · exact ⟨by omega, by omega⟩
      · exact ⟨by dsimp only; omega, by dsimp only; omega⟩
    obtain ⟨init, rfl⟩ := List.getLast?_eq_some_iff.mp hlast
    rcases List.mem_append.mp hi with hi | hi
    · have hvalid := h.valid back (by simp)
      rcases (List.pairwise_append.mp h.tail).2.2 i hi back (by simp) with hlt | hle
      · exact (hlt.trans hvalid).le.trans hback
      · exact hle
    · exact List.mem_singleton.mp hi ▸ hback

/-- Where nothing is behind the week nothing is moved. -/
theorem moveTailToFront_of_le (h : ∀ i ∈ list, i.till ≤ kWeek) : moveTailToFront list = list := by
  unfold moveTailToFront
  split
  · rfl
  · rename_i back hlast
    dsimp only
    refine dif_neg fun htail => ?_
    obtain ⟨-, -, -, hweek⟩ := tail_eq htail
    exact absurd hweek (h back (List.mem_of_getLast? hlast)).not_gt

/-! ## `normalized` -/

theorem bounds_of_covered (h : ∀ i ∈ list, lo ≤ i.start ∧ i.till ≤ hi) (ht : Covers list t) :
    lo ≤ t ∧ t < hi := by
  obtain ⟨i, hi, hstart, htill⟩ := ht
  exact ⟨(h i hi).1.trans hstart, htill.trans_le (h i hi).2⟩

/-- **Normalized intervals are open at the same seconds, separated and inside one week.** -/
theorem normalized_spec (h : ∀ i ∈ list, 0 ≤ i.start ∧ i.till ≤ kWeek + kDay) :
    (∀ t, Open (normalized list) t ↔ Open list t) ∧ Separated (normalized list) ∧
      ∀ i ∈ normalized list, 0 ≤ i.start ∧ i.till ≤ kWeek := by
  obtain ⟨hseparated, hcovered⟩ := sortAndMerge_spec list
  have hwithin : ∀ i ∈ sortAndMerge list, 0 ≤ i.start ∧ i.till ≤ kWeek + kDay := fun i hi =>
    hseparated.within (fun t ht => bounds_of_covered h ((hcovered t).mp ht)) hi
  obtain ⟨hopen, hweek⟩ :=
    moveTailToFront_spec ⟨hseparated.nonempty, hwithin, hseparated.apart.imp Or.inl⟩
  obtain ⟨hseparated', hcovered'⟩ := sortAndMerge_spec (moveTailToFront (sortAndMerge list))
  refine ⟨fun t => ?_, hseparated', fun i hi => ?_⟩
  · exact (open_congr hcovered').trans ((hopen t).trans (open_congr hcovered))
  · exact hseparated'.within (fun t ht => bounds_of_covered hweek ((hcovered' t).mp ht)) hi

/-- Intervals that do not run into the next week cover the same when they are normalized. -/
theorem normalized_of_le (h : ∀ i ∈ list, lo ≤ i.start ∧ i.till ≤ hi) (hweek : hi ≤ kWeek) :
    Separated (normalized list) ∧ ∀ t, Covers (normalized list) t ↔ Covers list t := by
  obtain ⟨hseparated, hcovered⟩ := sortAndMerge_spec list
  have hle : ∀ i ∈ sortAndMerge list, i.till ≤ kWeek := fun i hi =>
    (hseparated.within (fun t ht => bounds_of_covered h ((hcovered t).mp ht)) hi).2.trans hweek
  rw [normalized, moveTailToFront_of_le hle]
  obtain ⟨hseparated', hcovered'⟩ := sortAndMerge_spec (sortAndMerge list)
  exact ⟨hseparated', fun t => (hcovered' t).trans (hcovered t)⟩

/-- Within the week an interval is open where it covers. -/
theorem open_iff_covers (h : ∀ i ∈ list, 0 ≤ i.start ∧ i.till ≤ kWeek) (ht : 0 ≤ t)
    (hweek : t < kWeek) : Open list t ↔ Covers list t := by
  refine ⟨fun ⟨k, hk⟩ => ?_, fun hcovered => ⟨0, by rwa [Int.zero_mul, add_zero]⟩⟩
  have hbounds := bounds_of_covered h hk
  have hzero : k = 0 := by
    simp only [kWeek, kDay] at hbounds hweek
    omega
  rwa [hzero, Int.zero_mul, add_zero] at hk

end WorkingIntervals

end Yunogram
