import Mathlib

/-!
# Machinery/LowerBound — bisecting a list for the end of the elements before a bound

`lowerBound before l` halves what is left of `l` until it has the place at which the elements that
are `before` the bound end.  On any list the place is one in the list (`lowerBound_le`); where no
element before the bound stands behind one that is not, the place parts the list
(`of_mem_take_lowerBound`, `of_mem_drop_lowerBound`).
-/

namespace Machinery

variable {α : Type*}

/-- The bisecting loop: `len` elements from `first` on are left, and no more than `fuel`. -/
def lowerBoundLoop (before : α → Bool) (l : List α) : ℕ → ℕ → ℕ → ℕ
  | 0, first, _ => first
  | fuel + 1, first, len =>
    if len = 0 then first
    else if (l[first + len / 2]?).any before then
      lowerBoundLoop before l fuel (first + len / 2 + 1) (len - len / 2 - 1)
    else lowerBoundLoop before l fuel first (len / 2)

/-- The place at which the elements before a bound end. -/
def lowerBound (before : α → Bool) (l : List α) : ℕ := lowerBoundLoop before l l.length 0 l.length

variable {before : α → Bool} {l : List α} {fuel first len : ℕ}

theorem lowerBoundLoop_le : lowerBoundLoop before l fuel first len ≤ first + len := by
  induction fuel generalizing first len with
  | zero => exact Nat.le_add_right first len
  | succ fuel ih =>
    rw [lowerBoundLoop]
    split_ifs with hlen hbefore
    · omega
    · exact ih.trans (by omega)
    · exact ih.trans (by omega)

/-- **The place is one in the list.** -/
theorem lowerBound_le : lowerBound before l ≤ l.length :=
  lowerBoundLoop_le.trans (Nat.zero_add _).le

/-- What is known of the loop: the elements in front of `first` are before the bound, and those
behind what is left are not. -/
structure Bisected (before : α → Bool) (l : List α) (first len : ℕ) : Prop where
  within : first + len ≤ l.length
  front : ∀ i x, i < first → l[i]? = some x → before x = true
  back : ∀ i x, first + len ≤ i → l[i]? = some x → before x = false

theorem Bisected.loop (hl : l.Pairwise fun x y => before y → before x)
    (h : Bisected before l first len) (hfuel : len ≤ fuel) :
    Bisected before l (lowerBoundLoop before l fuel first len) 0 := by
  have hsorted : ∀ (i j : ℕ) (x y : α),
      i ≤ j → l[i]? = some x → l[j]? = some y → before y → before x := by
    intro i j x y hij hx hy hbefore
    obtain ⟨hi, rfl⟩ := List.getElem?_eq_some_iff.mp hx
    obtain ⟨hj, rfl⟩ := List.getElem?_eq_some_iff.mp hy
    rcases hij.eq_or_lt with rfl | hlt
    · exact hbefore
    · exact List.pairwise_iff_getElem.mp hl i j hi hj hlt hbefore
  have hdone : ∀ {first len}, Bisected before l first len → len = 0 → Bisected before l first 0 :=
    fun h hlen => hlen ▸ h
  induction fuel generalizing first len with
  | zero => exact hdone h (Nat.le_zero.mp hfuel)
  | succ fuel ih =>
    rw [lowerBoundLoop]
    split_ifs with hlen hbefore
    · exact hdone h hlen
    · obtain ⟨y, hy, hby⟩ : ∃ y, l[first + len / 2]? = some y ∧ before y :=
        (Option.any_eq_true _ _).mp hbefore
      refine ih ⟨?_, fun i x hi hx => ?_, fun i x hi hx => ?_⟩ (by omega)
      · have := h.within
        omega
      · exact hsorted i _ x y (by omega) hx hy hby
      · exact h.back i x (by omega) hx
    · refine ih ⟨?_, h.front, fun i x hi hx => ?_⟩ (by omega)
      · have := h.within
        omega
      · have hwithin := h.within
        have hlt : first + len / 2 < l.length := by omega
        have hmiddle : l[first + len / 2]? = some l[first + len / 2] :=
          List.getElem?_eq_getElem hlt
        rw [Bool.eq_false_iff]
        intro hbx
        have hmid := hsorted _ i _ x hi hmiddle hx hbx
        exact hbefore ((Option.any_eq_true _ _).mpr ⟨_, hmiddle, hmid⟩)

section

variable (hl : l.Pairwise fun x y => before y → before x)
include hl

theorem bisected_lowerBound : Bisected before l (lowerBound before l) 0 := by
  refine Bisected.loop hl ⟨(Nat.zero_add _).le, fun i x hi => ?_, fun i x hi hx => ?_⟩ le_rfl
  · exact absurd hi (Nat.not_lt_zero i)
  · rw [List.getElem?_eq_none (by omega)] at hx
    exact nomatch hx

/-- The elements in front of the place are before the bound. -/
theorem of_mem_take_lowerBound {x : α} (hx : x ∈ l.take (lowerBound before l)) : before x := by
  obtain ⟨i, hi, rfl⟩ := List.mem_iff_getElem.mp hx
  rw [List.length_take] at hi
  refine (bisected_lowerBound hl).front i _ (by omega) ?_
  rw [List.getElem_take, List.getElem?_eq_getElem]

/-- Those from the place on are not. -/
theorem of_mem_drop_lowerBound {x : α} (hx : x ∈ l.drop (lowerBound before l)) :
    before x = false := by
  obtain ⟨i, hi, rfl⟩ := List.mem_iff_getElem.mp hx
  rw [List.length_drop] at hi
  refine (bisected_lowerBound hl).back (lowerBound before l + i) _ (by omega) ?_
  rw [List.getElem_drop, List.getElem?_eq_getElem]

/-- **The place is how many elements are before the bound.** -/
theorem lowerBound_eq_countP : lowerBound before l = l.countP before := by
  have hfront : (l.take (lowerBound before l)).countP before = lowerBound before l := by
    rw [List.countP_eq_length.mpr fun x hx => of_mem_take_lowerBound hl hx,
      List.length_take_of_le lowerBound_le]
  have hback : (l.drop (lowerBound before l)).countP before = 0 :=
    List.countP_eq_zero.mpr fun x hx => by simp [of_mem_drop_lowerBound hl hx]
  conv_rhs => rw [← List.take_append_drop (lowerBound before l) l]
  rw [List.countP_append, hfront, hback, Nat.add_zero]

end

/-- **Where no element is before the bound**, the place is the first. -/
theorem lowerBound_eq_zero (h : ∀ x ∈ l, before x = false) : lowerBound before l = 0 := by
  have hl : l.Pairwise fun x y => before y → before x :=
    List.pairwise_of_forall_mem_list fun x _ y hy hbefore => absurd hbefore (by simp [h y hy])
  by_contra hne
  have hle : lowerBound before l ≤ l.length := lowerBound_le
  have hmem : l[0] ∈ l.take (lowerBound before l) :=
    List.mem_take_iff_getElem.mpr ⟨0, by omega, rfl⟩
  have hbefore := of_mem_take_lowerBound hl hmem
  rw [h _ (List.getElem_mem _)] at hbefore
  exact nomatch hbefore

end Machinery
