import Mathlib

/-!
# Machinery/Packing — pairwise disjoint finite sets

What a list of finite sets covers, and how much, when no two of them share an element; and the
rectangles of a grid of integers.
-/

namespace Machinery

variable {α : Type*} [DecidableEq α] {sets : List (Finset α)} {set : Finset α} {a : α}

/-- What some set of the list has. -/
def covered (sets : List (Finset α)) : Finset α := sets.foldr (· ∪ ·) ∅

@[simp]
theorem mem_covered : a ∈ covered sets ↔ ∃ set ∈ sets, a ∈ set := by
  induction sets with
  | nil => simp [covered]
  | cons set sets ih =>
    rw [covered, List.foldr_cons, Finset.mem_union, ← covered, ih]
    simp only [List.mem_cons, exists_eq_or_imp]

/-- A set that no set of the list meets goes on at the end. -/
theorem packed_append (h : sets.Pairwise Disjoint) (hset : ∀ a ∈ set, a ∉ covered sets) :
    (sets ++ [set]).Pairwise Disjoint := by
  rw [List.pairwise_append]
  refine ⟨h, List.pairwise_singleton _ _, fun other hother last hlast => ?_⟩
  obtain rfl := List.mem_singleton.1 hlast
  rw [Finset.disjoint_left]
  exact fun a ha hlast => hset a hlast (mem_covered.2 ⟨other, hother, ha⟩)

/-- Pairwise disjoint sets cover as many elements as they have together. -/
theorem card_covered (h : sets.Pairwise Disjoint) :
    (covered sets).card = (sets.map Finset.card).sum := by
  induction sets with
  | nil => rfl
  | cons set sets ih =>
    obtain ⟨hset, hsets⟩ := List.pairwise_cons.1 h
    have hdisjoint : Disjoint set (covered sets) := by
      rw [Finset.disjoint_left]
      intro a ha hcovered
      obtain ⟨other, hother, hmem⟩ := mem_covered.1 hcovered
      exact Finset.disjoint_left.1 (hset other hother) ha hmem
    rw [covered, List.foldr_cons, ← covered, Finset.card_union_of_disjoint hdisjoint, ih hsets,
      List.map_cons, List.sum_cons]

/-! ## Rectangles -/

namespace Computed

/-- The order of the integers that intervals of them are computed with, also where the integers are
known as a conditionally complete order. -/
scoped instance (priority := high) intPreorder : Preorder ℤ := Int.instLinearOrder.toPreorder

end Computed

open scoped Computed

/-- The slots of a grid from a row and a column on, a number of rows and of columns. -/
def rect (row column rowspan colspan : ℤ) : Finset (ℤ × ℤ) :=
  Finset.Ico row (row + rowspan) ×ˢ Finset.Ico column (column + colspan)

@[simp]
theorem mem_rect {row column rowspan colspan : ℤ} {slot : ℤ × ℤ} :
    slot ∈ rect row column rowspan colspan ↔ (row ≤ slot.1 ∧ slot.1 < row + rowspan)
      ∧ column ≤ slot.2 ∧ slot.2 < column + colspan := by
  rw [rect, Finset.mem_product, Finset.mem_Ico, Finset.mem_Ico]

theorem card_rect (row column : ℤ) {rowspan colspan : ℤ} (hrowspan : 0 ≤ rowspan)
    (hcolspan : 0 ≤ colspan) :
    ((rect row column rowspan colspan).card : ℤ) = rowspan * colspan := by
  rw [rect, Finset.card_product, Int.card_Ico, Int.card_Ico, Nat.cast_mul, add_sub_cancel_left,
    add_sub_cancel_left, Int.toNat_of_nonneg hrowspan, Int.toNat_of_nonneg hcolspan]

end Machinery
