import Yunogram.Iv.PageTableSlots

/-!
# Iv/PageTablePlacing — cells are placed by first fit

A cell is placed at the first column from which its clamped rectangle meets no cell before it.  What
is placed stays inside of the grid, no two cells meet, and the slots that are taken are theirs
(`Building.Sound`).
-/

open Machinery
open scoped Machinery.Computed

namespace Yunogram.Iv.Editor

variable {Text : Type} {building : Building} {ref : TableGridCellReference} {slot : ℤ × ℤ}
  {rowCount maxColumns column : ℤ} {admits : ℤ → ℤ → Bool} {rowIndex cellIndex : ℕ}
  {cell : TableCell Text}

/-! ## One cell -/

/-- The rectangle of a placed cell. -/
def TableGridCellReference.slots (ref : TableGridCellReference) : Finset (ℤ × ℤ) :=
  Finset.Ico ref.rowFrom ref.rowTill ×ˢ Finset.Ico ref.columnFrom ref.columnTill

@[simp]
theorem mem_slots : slot ∈ ref.slots ↔ (ref.rowFrom ≤ slot.1 ∧ slot.1 < ref.rowTill)
    ∧ ref.columnFrom ≤ slot.2 ∧ slot.2 < ref.columnTill := by
  rw [TableGridCellReference.slots, Finset.mem_product, Finset.mem_Ico, Finset.mem_Ico]

/-- The number of slots of a placed cell. -/
def TableGridCellReference.area (ref : TableGridCellReference) : ℤ :=
  (ref.rowTill - ref.rowFrom) * (ref.columnTill - ref.columnFrom)

/-- A cell as it is placed from a column on. -/
def refAt (rowCount maxColumns : ℤ) (rowIndex cellIndex : ℕ) (cell : TableCell Text)
    (column : ℤ) : TableGridCellReference where
  rowIndex := rowIndex
  cellIndex := cellIndex
  rowFrom := rowIndex
  rowTill := rowIndex + clampTableRowspan cell.rowspan rowIndex rowCount
  columnFrom := column
  columnTill := column + clampTableColspan (normalizeTableSpan cell.colspan) column maxColumns

/-- A cell is added. -/
def Building.add (building : Building) (ref : TableGridCellReference) : Building where
  cells := building.cells ++ [ref]
  occupancy := markTableSlots building.occupancy ref.rowFrom ref.columnFrom
    (ref.rowTill - ref.rowFrom) (ref.columnTill - ref.columnFrom)
  occupiedSlotCountSoFar := building.occupiedSlotCountSoFar + ref.area

/-- The first column from which a cell fits. -/
structure IsFirst (Fits : ℤ → Prop) (maxColumns column : ℤ) : Prop where
  nonneg : 0 ≤ column
  lt : column < maxColumns
  fits : Fits column
  first : ∀ before, 0 ≤ before → before < column → ¬Fits before

/-- There is one first column. -/
theorem IsFirst.unique {Fits : ℤ → Prop} {column' : ℤ} (h : IsFirst Fits maxColumns column)
    (h' : IsFirst Fits maxColumns column') : column = column' := by
  rcases lt_trichotomy column column' with hlt | heq | hlt
  · exact absurd h.fits (h'.first column h.nonneg hlt)
  · exact heq
  · exact absurd h'.fits (h.first column' h'.nonneg hlt)

/-- **A cell is placed by first fit**, where its slots are admitted, or left out. -/
theorem placeCell_cases (hlength : (building.occupancy.length : ℤ) = rowCount)
    (hrow : (rowIndex : ℤ) < rowCount) (hmax : maxColumns ≤ intMax) (admits : ℤ → ℤ → Bool)
    (cellIndex : ℕ) (cell : TableCell Text) :
    (∃ column, IsFirst (fun column => Free building.occupancy
          (refAt rowCount maxColumns rowIndex cellIndex cell column).slots) maxColumns column
        ∧ placeCell rowCount maxColumns admits building rowIndex cellIndex cell =
          if admits building.occupiedSlotCountSoFar
              (refAt rowCount maxColumns rowIndex cellIndex cell column).area = true then
            building.add (refAt rowCount maxColumns rowIndex cellIndex cell column)
          else building)
      ∨ (∀ column, 0 ≤ column → column < maxColumns → ¬Free building.occupancy
          (refAt rowCount maxColumns rowIndex cellIndex cell column).slots)
        ∧ placeCell rowCount maxColumns admits building rowIndex cellIndex cell = building := by
  have hr0 : (0 : ℤ) ≤ rowIndex := Int.natCast_nonneg rowIndex
  have hrowspan : 0 < clampTableRowspan cell.rowspan rowIndex rowCount :=
    clampTableSpan_pos hr0 hrow cell.rowspan
  have hcolspan : 0 < normalizeTableSpan cell.colspan :=
    Int.lt_of_lt_of_le one_pos (one_le_normalizeTableSpan cell.colspan)
  unfold placeCell
  dsimp only
  rw [if_neg (not_le.2 hrowspan)]
  rcases firstAvailableTableColumn_cases hr0 (by rwa [hlength]) hrowspan hcolspan hmax with
    ⟨column, hcolumn, h0, hlt, hfits, hfirst⟩ | ⟨hnone, hfits⟩
  · refine .inl ⟨column, ⟨h0, hlt, hfits, hfirst⟩, ?_⟩
    have hclamped : 0 < clampTableColspan (normalizeTableSpan cell.colspan) column maxColumns :=
      clampTableSpan_pos h0 hlt _
    rw [hcolumn, if_neg (not_lt.2 h0), if_neg (not_le.2 hclamped)]
    simp only [refAt, TableGridCellReference.area, Building.add, add_sub_cancel_left]
    split_ifs with hfalse htrue
    · exact absurd (hfalse.symm.trans htrue) Bool.false_ne_true
    · rfl
    · rfl
    · next htrue => exact absurd (Bool.not_eq_true _ |>.mp htrue) hfalse
  · refine .inr ⟨hfits, ?_⟩
    rw [hnone, if_pos (by omega)]

/-! ## What holds of what is placed -/

/-- The invariant of the loops. -/
structure Building.Sound (rowCount maxColumns : ℤ) (building : Building) : Prop where
  length : (building.occupancy.length : ℤ) = rowCount
  startsInRow : ∀ ref ∈ building.cells, ref.rowFrom = ref.rowIndex
  rows : ∀ ref ∈ building.cells,
    0 ≤ ref.rowFrom ∧ ref.rowFrom < ref.rowTill ∧ ref.rowTill ≤ rowCount
  columns : ∀ ref ∈ building.cells,
    0 ≤ ref.columnFrom ∧ ref.columnFrom < ref.columnTill ∧ ref.columnTill ≤ maxColumns
  wide : ∀ ref ∈ building.cells,
    ref.columnTill ≤ (building.occupancy.getD ref.rowFrom.toNat []).length
  disjoint : (building.cells.map TableGridCellReference.slots).Pairwise Disjoint
  taken : ∀ slot, Taken building.occupancy slot
    ↔ slot ∈ covered (building.cells.map TableGridCellReference.slots)
  count : building.occupiedSlotCountSoFar =
    (covered (building.cells.map TableGridCellReference.slots)).card

/-- Nothing is placed at first. -/
theorem sound_start (hrowCount : 0 ≤ rowCount) (maxColumns : ℤ) :
    Building.Sound rowCount maxColumns
      { cells := [], occupancy := List.replicate rowCount.toNat [], occupiedSlotCountSoFar := 0 }
    where
  length := by rw [List.length_replicate, Int.toNat_of_nonneg hrowCount]
  startsInRow := fun ref hmem => absurd hmem List.not_mem_nil
  rows := fun ref hmem => absurd hmem List.not_mem_nil
  columns := fun ref hmem => absurd hmem List.not_mem_nil
  wide := fun ref hmem => absurd hmem List.not_mem_nil
  disjoint := List.Pairwise.nil
  taken := fun slot => iff_of_false not_taken_replicate (Finset.notMem_empty slot)
  count := rfl

/-- **A cell on free slots keeps the invariant.** -/
theorem Building.Sound.add (h : building.Sound rowCount maxColumns) (hmax : maxColumns ≤ intMax)
    (hrow : ref.rowFrom = ref.rowIndex)
    (hrows : 0 ≤ ref.rowFrom ∧ ref.rowFrom < ref.rowTill ∧ ref.rowTill ≤ rowCount)
    (hcolumns : 0 ≤ ref.columnFrom ∧ ref.columnFrom < ref.columnTill
      ∧ ref.columnTill ≤ maxColumns)
    (hfree : Free building.occupancy ref.slots) : (building.add ref).Sound rowCount maxColumns := by
  have hrowspan : 0 < ref.rowTill - ref.rowFrom := by omega
  have hcolspan : 0 < ref.columnTill - ref.columnFrom := by omega
  have hlength := h.length
  have hfits : ref.rowFrom + (ref.rowTill - ref.rowFrom) ≤ building.occupancy.length := by omega
  have hint : ref.columnFrom + (ref.columnTill - ref.columnFrom) ≤ intMax := by omega
  have hslots : rect ref.rowFrom ref.columnFrom (ref.rowTill - ref.rowFrom)
      (ref.columnTill - ref.columnFrom) = ref.slots := by
    rw [rect, TableGridCellReference.slots, add_sub_cancel, add_sub_cancel]
  have hnew : ∀ slot ∈ ref.slots,
      slot ∉ covered (building.cells.map TableGridCellReference.slots) := fun slot hslot hcovered =>
    hfree slot hslot ((h.taken slot).2 hcovered)
  have hdisjoint :
      ((building.add ref).cells.map TableGridCellReference.slots).Pairwise Disjoint := by
    rw [Building.add, List.map_append, List.map_singleton]
    exact packed_append h.disjoint hnew
  have hmem : ∀ other, other ∈ (building.add ref).cells ↔ other ∈ building.cells ∨ other = ref :=
    fun other => by rw [Building.add, List.mem_append, List.mem_singleton]
  refine ⟨?_, ?_, ?_, ?_, ?_, hdisjoint, fun slot => ?_, ?_⟩
  · rw [Building.add, length_markTableSlots, hlength]
  · intro other hother
    rcases (hmem other).1 hother with hold | rfl
    · exact h.startsInRow other hold
    · exact hrow
  · intro other hother
    rcases (hmem other).1 hother with hold | rfl
    · exact h.rows other hold
    · exact hrows
  · intro other hother
    rcases (hmem other).1 hother with hold | rfl
    · exact h.columns other hold
    · exact hcolumns
  · intro other hother
    have hwide : other ∈ building.cells → other.columnTill ≤
        (building.occupancy.getD other.rowFrom.toNat []).length := h.wide other
    rw [Building.add, getD_markTableSlots hrows.1 hcolumns.1 hrowspan hcolspan hfits hint]
    split_ifs with hin
    · rw [length_markTableRow]
      rcases (hmem other).1 hother with hold | rfl
      · exact (hwide hold).trans (le_max_left _ _)
      · omega
    · rcases (hmem other).1 hother with hold | rfl
      · exact hwide hold
      · omega
  · rw [Building.add, taken_markTableSlots hrows.1 hcolumns.1 hrowspan hcolspan hfits hint, hslots,
      h.taken, mem_covered, mem_covered, List.map_append, List.map_singleton]
    simp only [List.mem_append, List.mem_singleton, or_and_right, exists_or, exists_eq_left]
  · have hcard : (ref.slots.card : ℤ) = ref.area := by
      rw [← hslots, card_rect _ _ hrowspan.le hcolspan.le, TableGridCellReference.area]
    rw [card_covered hdisjoint]
    simp only [Building.add, List.map_append, List.map_singleton, List.sum_append,
      List.sum_singleton]
    rw [h.count, card_covered h.disjoint, Nat.cast_add, hcard]

/-- What a cell is placed as lies inside of the grid. -/
theorem Building.Sound.add_refAt (h : building.Sound rowCount maxColumns)
    (hmax : maxColumns ≤ intMax) (hrow : (rowIndex : ℤ) < rowCount)
    (hcolumn : 0 ≤ column) (hlt : column < maxColumns)
    (hfree : Free building.occupancy
      (refAt rowCount maxColumns rowIndex cellIndex cell column).slots) :
    (building.add (refAt rowCount maxColumns rowIndex cellIndex cell column)).Sound rowCount
      maxColumns := by
  have hr0 : (0 : ℤ) ≤ rowIndex := Int.natCast_nonneg rowIndex
  refine h.add hmax rfl ⟨hr0, ?_, add_clampTableSpan_le hr0 hrow _⟩
    ⟨hcolumn, ?_, add_clampTableSpan_le hcolumn hlt _⟩ hfree
  · exact lt_add_of_pos_right _ (clampTableSpan_pos hr0 hrow _)
  · exact lt_add_of_pos_right _ (clampTableSpan_pos hcolumn hlt _)

/-- **A step of the loops keeps the invariant.** -/
theorem Building.Sound.step (h : building.Sound rowCount maxColumns)
    (hmax : maxColumns ≤ intMax) (hrow : (rowIndex : ℤ) < rowCount) (admits : ℤ → ℤ → Bool)
    (cellIndex : ℕ) (cell : TableCell Text) :
    (placeCell rowCount maxColumns admits building rowIndex cellIndex cell).Sound rowCount
      maxColumns := by
  rcases placeCell_cases h.length hrow hmax admits cellIndex cell with
    ⟨column, hfirst, heq⟩ | ⟨-, heq⟩
  · rw [heq]
    split_ifs
    · exact h.add_refAt hmax hrow hfirst.nonneg hfirst.lt hfirst.fits
    · exact h
  · rwa [heq]

end Yunogram.Iv.Editor
