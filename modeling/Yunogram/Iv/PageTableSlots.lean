import Mathlib
import Yunogram.Iv.PageTableGrid

/-!
# Iv/PageTableSlots — what the helpers of the grid do, by slots

A slot is taken where the occupancy has it true.  Slots can be occupied when none of their rectangle
is taken, marking takes a rectangle, and the first available column is the first one whose clamped
rectangle is free.
-/

open Machinery

namespace Yunogram.Iv.Editor

variable {Text : Type} {occupancy : TableGridOccupancy} {slot : ℤ × ℤ}
  {row column rowspan colspan maxColumns start till : ℤ} {n : ℕ}

/-! ## Spans -/

theorem one_le_normalizeTableSpan (span : ℤ) : 1 ≤ normalizeTableSpan span := le_max_right _ _

/-- Inside of the axis, a span is cut off at its end. -/
theorem clampTableSpan_eq (hposition : 0 ≤ start) (hlt : start < till) (span : ℤ) :
    clampTableSpan span start till = min (normalizeTableSpan span) (till - start) := by
  rw [clampTableSpan, if_neg]
  omega

theorem normalizeTableSpan_normalizeTableSpan (span : ℤ) :
    normalizeTableSpan (normalizeTableSpan span) = normalizeTableSpan span :=
  max_eq_left (one_le_normalizeTableSpan span)

theorem clampTableSpan_pos (hposition : 0 ≤ start) (hlt : start < till) (span : ℤ) :
    0 < clampTableSpan span start till := by
  have hspan := one_le_normalizeTableSpan span
  rw [clampTableSpan_eq hposition hlt]
  omega

theorem add_clampTableSpan_le (hposition : 0 ≤ start) (hlt : start < till) (span : ℤ) :
    start + clampTableSpan span start till ≤ till := by
  rw [clampTableSpan_eq hposition hlt]
  omega

/-! ## Slots that are taken -/

theorem mem_indices (h : 0 ≤ start) : n ∈ indices start till ↔ start ≤ n ∧ (n : ℤ) < till := by
  rw [indices, List.mem_range'_1]
  omega

/-- A slot is taken. -/
def Taken (occupancy : TableGridOccupancy) (slot : ℤ × ℤ) : Prop :=
  0 ≤ slot.1 ∧ 0 ≤ slot.2
    ∧ (occupancy.getD slot.1.toNat []).getD slot.2.toNat false = true

instance (occupancy : TableGridOccupancy) : DecidablePred (Taken occupancy) := fun slot =>
  inferInstanceAs (Decidable (0 ≤ slot.1 ∧ 0 ≤ slot.2
    ∧ (occupancy.getD slot.1.toNat []).getD slot.2.toNat false = true))

/-- A rectangle none of whose slots is taken. -/
def Free (occupancy : TableGridOccupancy) (slots : Finset (ℤ × ℤ)) : Prop :=
  ∀ slot ∈ slots, ¬Taken occupancy slot

theorem lt_length_of_getD {l : List Bool} (h : l.getD n false = true) : n < l.length := by
  rw [List.getD_eq_getElem?_getD] at h
  by_contra hn
  rw [List.getElem?_eq_none (not_lt.1 hn)] at h
  exact Bool.false_ne_true h

theorem Taken.column_lt (h : Taken occupancy slot) :
    slot.2.toNat < (occupancy.getD slot.1.toNat []).length :=
  lt_length_of_getD h.2.2

theorem Taken.row_lt (h : Taken occupancy slot) : slot.1.toNat < occupancy.length := by
  have hcolumn := h.column_lt
  rw [List.getD_eq_getElem?_getD] at hcolumn
  by_contra hn
  rw [List.getElem?_eq_none (not_lt.1 hn)] at hcolumn
  exact Nat.not_lt_zero _ hcolumn

theorem not_taken_replicate : ¬Taken (List.replicate n []) slot := by
  intro h
  have hcolumn := h.column_lt
  rw [List.getD_eq_getElem?_getD, List.getElem?_replicate] at hcolumn
  split_ifs at hcolumn <;> exact Nat.not_lt_zero _ hcolumn

/-! ## `CanOccupyTableSlots` -/

/-- **Slots can be occupied when none of their rectangle is taken.** -/
theorem canOccupyTableSlots_iff (hrow : 0 ≤ row) (hlength : row < occupancy.length)
    (hcolumn : 0 ≤ column) (hrowspan : 0 < rowspan) (hcolspan : 0 < colspan)
    (hmax : column + colspan ≤ intMax) :
    canOccupyTableSlots occupancy row column rowspan colspan = true
      ↔ Free occupancy (rect row column rowspan colspan) := by
  rw [canOccupyTableSlots, if_neg (by omega)]
  dsimp only
  rw [if_neg (by omega), min_eq_left hmax]
  simp only [List.all_eq_true, mem_indices hrow, mem_indices hcolumn, Bool.not_eq_true']
  constructor
  · rintro h ⟨r, c⟩ hslot htaken
    have hr := htaken.row_lt
    have hc := htaken.column_lt
    obtain ⟨hr0, hc0, hvalue⟩ := htaken
    dsimp only at hr hc hr0 hc0 hvalue
    rw [mem_rect] at hslot
    dsimp only at hslot
    have hfree := h r.toNat (by omega) c.toNat (by omega)
    rw [hvalue] at hfree
    exact Bool.false_ne_true hfree.symm
  · intro h currentRow hr currentColumn hc
    have hslot := h ((currentRow : ℤ), (currentColumn : ℤ)) (mem_rect.2 (by dsimp only; omega))
    rw [Taken] at hslot
    simpa using hslot

/-! ## `MarkTableSlots` -/

theorem getD_markTableRow {occupied : List Bool} :
    (markTableRow occupied column till).getD n false =
      (if column ≤ n ∧ (n : ℤ) < till then true else occupied.getD n false) := by
  rw [markTableRow, List.getD_eq_getElem?_getD, List.getElem?_mapIdx, List.getD_eq_getElem?_getD]
  by_cases hin : column ≤ n ∧ (n : ℤ) < till
  · rw [if_pos hin]
    have hlt : n < (if till > occupied.length then
        occupied ++ List.replicate (till - occupied.length).toNat false else occupied).length := by
      split_ifs with hresize
      · rw [List.length_append, List.length_replicate]
        omega
      · omega
    rw [List.getElem?_eq_getElem hlt, Option.map_some, if_pos hin]
    rfl
  · rw [if_neg hin]
    simp only [if_neg hin, Option.map_id']
    split_ifs with hresize
    · rw [List.getElem?_append]
      split_ifs with hn
      · rfl
      · rw [List.getElem?_replicate, List.getElem?_eq_none (not_lt.1 hn)]
        split_ifs <;> rfl
    · rfl

theorem length_markTableRow {occupied : List Bool} (column till : ℤ) :
    ((markTableRow occupied column till).length : ℤ) = max (occupied.length : ℤ) till := by
  rw [markTableRow, List.length_mapIdx]
  split_ifs with hresize
  · rw [List.length_append, List.length_replicate]
    omega
  · omega

theorem length_markTableSlots (occupancy : TableGridOccupancy) (row column rowspan colspan : ℤ) :
    (markTableSlots occupancy row column rowspan colspan).length = occupancy.length := by
  unfold markTableSlots
  dsimp only
  split_ifs <;> simp

/-- A row of the rectangle is marked, and the others are left. -/
theorem getD_markTableSlots (hrow : 0 ≤ row) (hcolumn : 0 ≤ column) (hrowspan : 0 < rowspan)
    (hcolspan : 0 < colspan) (hfits : row + rowspan ≤ occupancy.length)
    (hmax : column + colspan ≤ intMax) :
    (markTableSlots occupancy row column rowspan colspan).getD n [] =
      if row ≤ n ∧ (n : ℤ) < row + rowspan then
        markTableRow (occupancy.getD n []) column (column + colspan)
      else occupancy.getD n [] := by
  rw [markTableSlots, if_neg (by omega)]
  dsimp only
  rw [if_neg (by omega), min_eq_left hmax, min_eq_left hfits, List.getD_eq_getElem?_getD,
    List.getElem?_mapIdx, List.getD_eq_getElem?_getD]
  by_cases hn : n < occupancy.length
  · rw [List.getElem?_eq_getElem hn]
    rfl
  · rw [List.getElem?_eq_none (not_lt.1 hn), if_neg (by omega)]
    rfl

/-- **Marking takes the rectangle**, and nothing else. -/
theorem taken_markTableSlots (hrow : 0 ≤ row) (hcolumn : 0 ≤ column) (hrowspan : 0 < rowspan)
    (hcolspan : 0 < colspan) (hfits : row + rowspan ≤ occupancy.length)
    (hmax : column + colspan ≤ intMax) :
    Taken (markTableSlots occupancy row column rowspan colspan) slot
      ↔ Taken occupancy slot ∨ slot ∈ rect row column rowspan colspan := by
  obtain ⟨r, c⟩ := slot
  rw [Taken, Taken, mem_rect, getD_markTableSlots hrow hcolumn hrowspan hcolspan hfits hmax]
  dsimp only
  split_ifs with hr
  · rw [getD_markTableRow]
    split_ifs with hc
    · simp only [and_true]
      omega
    · constructor
      · exact .inl
      · rintro (h | h)
        · exact h
        · omega
  · constructor
    · exact .inl
    · rintro (h | h)
      · exact h
      · omega

/-! ## `FirstAvailableTableColumn` -/

/-- A column that the clamped rectangle fits in from. -/
def FitsFrom (occupancy : TableGridOccupancy) (row rowspan colspan maxColumns column : ℤ) : Prop :=
  Free occupancy (rect row column rowspan (clampTableColspan colspan column maxColumns))

/-- **The first available column** is the first one from which the clamped rectangle is free, and
there is none where it is negative. -/
theorem firstAvailableTableColumn_cases (hrow : 0 ≤ row) (hlength : row < occupancy.length)
    (hrowspan : 0 < rowspan) (hcolspan : 0 < colspan) (hmax : maxColumns ≤ intMax) :
    (∃ column, firstAvailableTableColumn occupancy row rowspan colspan maxColumns = column
        ∧ 0 ≤ column ∧ column < maxColumns
        ∧ FitsFrom occupancy row rowspan colspan maxColumns column
        ∧ ∀ before, 0 ≤ before → before < column →
          ¬FitsFrom occupancy row rowspan colspan maxColumns before)
      ∨ firstAvailableTableColumn occupancy row rowspan colspan maxColumns = -1
        ∧ ∀ column, 0 ≤ column → column < maxColumns →
          ¬FitsFrom occupancy row rowspan colspan maxColumns column := by
  by_cases hcolumns : maxColumns ≤ 0
  · refine .inr ⟨?_, fun column h0 hlt => absurd (h0.trans_lt hlt) (not_lt.2 hcolumns)⟩
    rw [firstAvailableTableColumn, if_pos (.inr (.inr (.inr (.inr hcolumns))))]
  rw [firstAvailableTableColumn, if_neg (by omega)]
  dsimp only
  have hcheck : ∀ column : ℕ, (column : ℤ) < maxColumns →
      ((!decide (clampTableColspan colspan column maxColumns ≤ 0)
        && canOccupyTableSlots occupancy row column rowspan
          (clampTableColspan colspan column maxColumns)) = true
      ↔ FitsFrom occupancy row rowspan colspan maxColumns column) := by
    intro column hlt
    have hpositive : 0 < clampTableColspan colspan column maxColumns :=
      clampTableSpan_pos (Int.natCast_nonneg column) hlt colspan
    have hend : column + clampTableColspan colspan column maxColumns ≤ maxColumns :=
      add_clampTableSpan_le (Int.natCast_nonneg column) hlt colspan
    rw [decide_eq_false (not_le.2 hpositive), Bool.not_false, Bool.true_and,
      canOccupyTableSlots_iff hrow hlength (Int.natCast_nonneg column) hrowspan hpositive
        (hend.trans hmax)]
    rfl
  split
  · next column hfound =>
    rw [indices, List.find?_range'_eq_some] at hfound
    obtain ⟨hfits, hmem, hbefore⟩ := hfound
    have hlt : (column : ℤ) < maxColumns := ((mem_indices le_rfl).1 hmem).2
    refine .inl ⟨column, rfl, Int.natCast_nonneg column, hlt, (hcheck column hlt).1 hfits, ?_⟩
    intro earlier h0 hearlier hfree
    lift earlier to ℕ using h0
    have hnot := hbefore earlier (Nat.zero_le _) (Int.ofNat_lt.1 hearlier)
    rw [(hcheck earlier (hearlier.trans hlt)).2 hfree] at hnot
    exact Bool.false_ne_true hnot
  · next hnone =>
    refine .inr ⟨rfl, fun column h0 hlt hfree => ?_⟩
    lift column to ℕ using h0
    rw [List.find?_eq_none] at hnone
    exact hnone column ((mem_indices le_rfl).2 ⟨Int.natCast_nonneg column, hlt⟩)
      ((hcheck column hlt).2 hfree)

end Yunogram.Iv.Editor
