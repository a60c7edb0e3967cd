import Yunogram.Iv.PageTableColumnRemoval
import Yunogram.Iv.PageTableRowRemoval

/-!
# Iv/PageTableRemovalExact — what removing rows or columns makes of the grid of a table

`table_removal`: of a table whose grid is whole, removing rows takes exactly their slots out of the
grid if and only if they are cut cleanly, and removing columns if and only if what is left is held
in place.  Where every row has its cells in the order of their columns, columns always are.
-/

open Machinery
open scoped Machinery.Computed

namespace Yunogram.Iv.Editor

variable {Text : Type} {tableRows : List (TableRow Text)}
  {limits : MarkdownPrepareTableRenderLimits} {range : TableCellRange}

/-- **What is left of the tiles is held in place** once the columns of a range are gone: each tile
would meet, from any column to the left of its own, one that comes before it. -/
def KeepsColumns (limits : MarkdownPrepareTableRenderLimits) (tableRows : List (TableRow Text))
    (start till : ℤ) : Prop :=
  AllHeld ∅ ((layout tableRows (buildTableGridWithin tableRows limits)).filterMap
    (Tile.withoutColumns start till))

instance (start till : ℤ) : Decidable (KeepsColumns limits tableRows start till) :=
  decidableAllHeld _ _

/-! ## What is accepted -/

/-- Rows that are removed: their records are erased. -/
theorem removeTableRows_eq {titleEmpty : Bool}
    (haccepted : removeTableRows limits titleEmpty tableRows range ≠ .rejected)
    (hleft : range.rowTill - range.rowFrom < (buildTableGridWithin tableRows limits).rowCount) :
    removeTableRows limits titleEmpty tableRows range =
        .rows (eraseRows tableRows range.rowFrom.toNat range.rowTill.toNat)
      ∧ (0 ≤ range.rowFrom ∧ range.rowFrom < range.rowTill
        ∧ range.rowTill ≤ (buildTableGridWithin tableRows limits).rowCount)
      ∧ 0 < (buildTableGridWithin tableRows limits).columnCount := by
  unfold removeTableRows at haccepted ⊢
  cases hvalid : validateTableCellRange tableRows limits range with
  | none => rw [hvalid] at haccepted; exact absurd rfl haccepted
  | some validated =>
    obtain ⟨rfl, hrows, hcolumns⟩ := eq_of_validateTableCellRange hvalid
    rw [hvalid] at haccepted
    dsimp only at haccepted ⊢
    by_cases hspans : tableGridRangeSpansAllColumns (buildTableGridWithin tableRows limits)
      validated = false
    · rw [if_pos hspans] at haccepted
      exact absurd rfl haccepted
    rw [if_neg hspans]
    refine ⟨?_, hrows, by omega⟩
    have hlength : (buildTableGridWithin tableRows limits).rowCount ≤ tableRows.length := by
      rw [rowCount_within]
      unfold limitedRowCount
      split_ifs <;> omega
    have hrowRange : validateTableRowRange tableRows
        { start := validated.rowFrom, till := validated.rowTill } =
          some { start := validated.rowFrom, till := validated.rowTill } := by
      rw [validateTableRowRange, TableRowRange.empty, if_neg (by simp; omega), if_neg (by
        dsimp only
        omega)]
    rw [removeStructuralTableRows, hrowRange]
    dsimp only
    rw [if_neg]
    · rfl
    · rw [Bool.and_eq_true, List.isEmpty_iff]
      rintro ⟨hnil, -⟩
      have hlengths := congrArg List.length hnil
      rw [List.length_append, List.length_take, List.length_drop, List.length_nil] at hlengths
      omega

/-- Columns that are left have cells. -/
theorem not_all_isEmpty (hwhole : (buildTableGridWithin tableRows limits).Whole tableRows)
    (hrowFrom : range.rowFrom = 0)
    (hrowTill : range.rowTill = (buildTableGridWithin tableRows limits).rowCount)
    (hrowCount : 0 < (buildTableGridWithin tableRows limits).rowCount)
    (hcolumns : 0 ≤ range.columnFrom ∧ range.columnFrom < range.columnTill
      ∧ range.columnTill ≤ (buildTableGridWithin tableRows limits).columnCount)
    (hleft : range.columnTill - range.columnFrom <
      (buildTableGridWithin tableRows limits).columnCount) :
    ((eraseColumns limits tableRows range).all fun row => row.cells.isEmpty) = false := by
  obtain ⟨tile, hmem, hkept, -⟩ :=
    exists_lastColumnLeft hwhole hrowCount hcolumns.1 hcolumns.2.1 hcolumns.2.2 hleft
  rw [← map_snd_tiled hwhole] at hmem
  obtain ⟨placed, hplaced, rfl⟩ := List.mem_map.1 hmem
  have hentry : (stepLeft range placed).entry ∈
      entriesFrom 0 (eraseColumns limits tableRows range) := by
    rw [entriesFrom_eraseColumns hwhole hrowFrom hrowTill]
    refine List.mem_map_of_mem (List.mem_filter.2 ⟨hplaced, ?_⟩)
    rw [keptColumn, Bool.not_eq_true', decide_eq_false_iff_not]
    exact hkept
  obtain ⟨⟨row, rowIndex⟩, hrow, hcell⟩ := List.mem_flatMap.1 hentry
  obtain ⟨cell, hcell, -⟩ := List.mem_map.1 hcell
  rw [List.all_eq_false]
  refine ⟨row, List.mem_of_getElem? (List.mem_zipIdx_iff_getElem?.1 hrow), ?_⟩
  rw [List.isEmpty_iff]
  exact List.ne_nil_of_mem hcell

/-- Columns that are removed: the cells are narrowed and erased. -/
theorem removeTableColumns_eq [Inhabited Text] {titleEmpty : Bool}
    (hwhole : (buildTableGridWithin tableRows limits).Whole tableRows)
    (haccepted : removeTableColumns limits titleEmpty tableRows range ≠ .rejected)
    (hleft : range.columnTill - range.columnFrom <
      (buildTableGridWithin tableRows limits).columnCount) :
    removeTableColumns limits titleEmpty tableRows range =
        .rows (eraseColumns limits tableRows range)
      ∧ (range.rowFrom = 0 ∧ range.rowTill = (buildTableGridWithin tableRows limits).rowCount
        ∧ 0 < (buildTableGridWithin tableRows limits).rowCount)
      ∧ (0 ≤ range.columnFrom ∧ range.columnFrom < range.columnTill
        ∧ range.columnTill ≤ (buildTableGridWithin tableRows limits).columnCount) := by
  unfold removeTableColumns removeStructuralTableCells at haccepted ⊢
  cases hvalid : validateTableCellRange tableRows limits range with
  | none => rw [hvalid] at haccepted; exact absurd rfl haccepted
  | some validated =>
    obtain ⟨rfl, hrows, hcolumns⟩ := eq_of_validateTableCellRange hvalid
    rw [hvalid] at haccepted
    dsimp only at haccepted ⊢
    by_cases hspans : tableGridRangeSpansAllRows (buildTableGridWithin tableRows limits)
      validated = false
    · rw [if_pos hspans] at haccepted
      exact absurd rfl haccepted
    rw [if_neg hspans, if_neg hspans] at haccepted
    rw [if_neg hspans, if_neg hspans]
    rw [tableGridRangeSpansAllRows] at hspans
    simp only [Bool.not_eq_false, Bool.and_eq_true, decide_eq_true_eq] at hspans
    have hnonempty : ((eraseColumns limits tableRows validated).all fun row =>
        row.cells.isEmpty) = false :=
      not_all_isEmpty hwhole hspans.1.1.1.1 hspans.1.1.1.2 (by omega) hcolumns hleft
    by_cases hselected : (selectedTableGridCells (buildTableGridWithin tableRows limits)
        validated).isEmpty = true
    · rw [if_pos hselected] at haccepted
      exact absurd rfl haccepted
    rw [if_neg hselected]
    refine ⟨?_, ⟨hspans.1.1.1.1, hspans.1.1.1.2, by omega⟩, hcolumns⟩
    change (if (eraseColumns limits tableRows validated).all (fun row => row.cells.isEmpty) then _
      else _) = _
    rw [hnonempty, if_neg Bool.false_ne_true]
    rfl

/-! ## Tables in the order of their columns -/

/-! ## The result -/

/-- **Removing rows or columns of a table.**  Of a table whose grid is whole, let an accepted range
leave a row or a column.  Removing its rows takes exactly their slots out of the grid, with the
cells cut as they should be and all others left, if and only if they are cut cleanly; removing its
columns if and only if what is left is held in place. -/
theorem table_removal [Inhabited Text] (limits : MarkdownPrepareTableRenderLimits)
    (tableRows : List (TableRow Text)) (titleEmpty : Bool) (range : TableCellRange)
    (hwhole : (buildTableGridWithin tableRows limits).Whole tableRows) :
    (removeTableRows limits titleEmpty tableRows range ≠ .rejected →
      range.rowTill - range.rowFrom < (buildTableGridWithin tableRows limits).rowCount →
      ((∃ tableRows', removeTableRows limits titleEmpty tableRows range = .rows tableRows'
          ∧ WithoutRows limits tableRows tableRows' range.rowFrom range.rowTill)
        ↔ CutsRowsCleanly limits tableRows range.rowFrom range.rowTill))
    ∧ (removeTableColumns limits titleEmpty tableRows range ≠ .rejected →
      range.columnTill - range.columnFrom < (buildTableGridWithin tableRows limits).columnCount →
      ((∃ tableRows', removeTableColumns limits titleEmpty tableRows range = .rows tableRows'
          ∧ WithoutColumns limits tableRows tableRows' range.columnFrom range.columnTill)
        ↔ KeepsColumns limits tableRows range.columnFrom range.columnTill)) := by
  refine ⟨fun haccepted hleft => ?_, fun haccepted hleft => ?_⟩
  · obtain ⟨heq, ⟨h0, hlt, htill⟩, hcolumns⟩ := removeTableRows_eq haccepted hleft
    obtain ⟨start, hstart⟩ := Int.eq_ofNat_of_zero_le h0
    obtain ⟨till, htillEq⟩ := Int.eq_ofNat_of_zero_le (h0.trans hlt.le)
    rw [heq, hstart, htillEq, Int.toNat_natCast, Int.toNat_natCast]
    rw [hstart, htillEq] at hlt hleft
    rw [htillEq] at htill
    constructor
    · rintro ⟨_, hsame, hwithout⟩
      obtain rfl := TableRemoval.rows.inj hsame
      exact cutsRowsCleanly_of_withoutRows hwhole (Int.ofNat_lt.1 hlt) htill hwithout
    · exact fun hclean => ⟨_, rfl,
        withoutRows_of_cutsRowsCleanly hwhole (Int.ofNat_lt.1 hlt) htill hleft hcolumns hclean⟩
  · obtain ⟨heq, ⟨hrowFrom, hrowTill, hrowCount⟩, h0, hlt, htill⟩ :=
      removeTableColumns_eq hwhole haccepted hleft
    have hiff := withoutColumns_iff hwhole hrowFrom hrowTill hrowCount h0 hlt htill hleft
    rw [heq]
    constructor
    · rintro ⟨_, hsame, hwithout⟩
      obtain rfl := TableRemoval.rows.inj hsame
      exact hiff.1 hwithout
    · exact fun hkeeps => ⟨_, rfl, hiff.2 hkeeps⟩

/-! ## Tables that are cut, and how -/

instance : Decidable ((buildTableGridWithin tableRows limits).Whole tableRows) :=
  decidable_of_iff
    ((∀ slot ∈ Finset.Ico 0 (buildTableGridWithin tableRows limits).rowCount
          ×ˢ Finset.Ico 0 (buildTableGridWithin tableRows limits).columnCount,
        Taken (buildTableGridWithin tableRows limits).occupancy slot)
      ∧ ∀ step ∈ steps tableRows, ∃ ref ∈ (buildTableGridWithin tableRows limits).cells,
        ref.rowIndex = step.rowIndex ∧ ref.cellIndex = step.cellIndex
          ∧ ref.rowTill = ref.rowFrom + normalizeTableSpan step.cell.rowspan
          ∧ ref.columnTill = ref.columnFrom + normalizeTableSpan step.cell.colspan)
    ⟨fun h => ⟨h.1, h.2⟩, fun h => ⟨h.filled, h.placed⟩⟩

/-- Limits of twenty rows and columns. -/
def twentyLimits : MarkdownPrepareTableRenderLimits where
  maxRows := 20
  maxColumns := 20
  maxCells := 400
  maxColumns_le := by decide

/-- A cell with a text and spans. -/
def spanning (text : Char) (colspan rowspan : ℤ) : TableCell Char where
  text := text
  colspan := colspan
  rowspan := rowspan
  header := false
  alignment := .left
  verticalAlignment := .top

/-- Two columns and three rows, with a cell in two of the rows. -/
def tallTable : List (TableRow Char) :=
  [⟨[spanning 'a' 1 2, spanning 'b' 1 1]⟩, ⟨[spanning 'c' 1 1]⟩,
    ⟨[spanning 'd' 1 1, spanning 'e' 1 1]⟩]

/-- Two columns, with a cell over both of them. -/
def wideTable : List (TableRow Char) :=
  [⟨[spanning 'a' 2 1]⟩, ⟨[spanning 'b' 1 1, spanning 'c' 1 1]⟩]

/-- Four columns, where the first cell of the second row has to go to the right of the other. -/
def crossedTable : List (TableRow Char) :=
  [⟨[spanning 'a' 1 1, spanning 'b' 1 2, spanning 'c' 1 1, spanning 'd' 1 1]⟩,
    ⟨[spanning 'e' 2 1, spanning 'f' 1 1]⟩]

/-- The last row of a table, and of another one a column that cuts a cell, are taken out of the
grid. -/
theorem table_removal_tall_wide :
    (∃ tableRows', removeTableRows twentyLimits false tallTable ⟨2, 3, 0, 2⟩ = .rows tableRows'
      ∧ WithoutRows twentyLimits tallTable tableRows' 2 3)
    ∧ ∃ tableRows', removeTableColumns twentyLimits false wideTable ⟨0, 2, 1, 2⟩ =
        .rows tableRows' ∧ WithoutColumns twentyLimits wideTable tableRows' 1 2 :=
  ⟨((table_removal twentyLimits tallTable false ⟨2, 3, 0, 2⟩ (by decide +kernel)).1
      (by decide +kernel) (by decide +kernel)).2
      ⟨by decide +kernel, by decide +kernel, by decide +kernel⟩,
    ((table_removal twentyLimits wideTable false ⟨0, 2, 1, 2⟩ (by decide +kernel)).2
      (by decide +kernel) (by decide +kernel)).2 (by decide +kernel)⟩

/-- **A row removed under a cell that reaches into it** leaves the cell as long as it was, which
pushes the cells of the next row aside; and where the cells of a row are not in the order of their
columns, a cell that is narrowed slides into the place of another one. -/
theorem removal_moves_cells :
    ((buildTableGridWithin tallTable twentyLimits).Whole tallTable
      ∧ removeTableRows twentyLimits false tallTable ⟨1, 2, 0, 2⟩ ≠ .rejected
      ∧ ¬∃ tableRows', removeTableRows twentyLimits false tallTable ⟨1, 2, 0, 2⟩ =
          .rows tableRows' ∧ WithoutRows twentyLimits tallTable tableRows' 1 2)
    ∧ (buildTableGridWithin crossedTable twentyLimits).Whole crossedTable
      ∧ removeTableColumns twentyLimits false crossedTable ⟨0, 2, 2, 3⟩ ≠ .rejected
      ∧ ¬∃ tableRows', removeTableColumns twentyLimits false crossedTable ⟨0, 2, 2, 3⟩ =
          .rows tableRows' ∧ WithoutColumns twentyLimits crossedTable tableRows' 2 3 := by
  refine ⟨⟨by decide +kernel, by decide +kernel, ?_⟩, by decide +kernel, by decide +kernel, ?_⟩
  · rintro ⟨tableRows', heq, hwithout⟩
    have hrows : removeTableRows twentyLimits false tallTable ⟨1, 2, 0, 2⟩ = .rows
        [⟨[spanning 'a' 1 2, spanning 'b' 1 1]⟩, ⟨[spanning 'd' 1 1, spanning 'e' 1 1]⟩] := by
      decide +kernel
    obtain rfl := TableRemoval.rows.inj (hrows.symm.trans heq)
    exact absurd hwithout.layout (by decide +kernel)
  · rintro ⟨tableRows', heq, hwithout⟩
    have hrows : removeTableColumns twentyLimits false crossedTable ⟨0, 2, 2, 3⟩ = .rows
        [⟨[spanning 'a' 1 1, spanning 'b' 1 2, spanning 'd' 1 1]⟩,
          ⟨[spanning 'e' 1 1, spanning 'f' 1 1]⟩] := by
      decide +kernel
    obtain rfl := TableRemoval.rows.inj (hrows.symm.trans heq)
    exact absurd hwithout.layout (by decide +kernel)

end Yunogram.Iv.Editor
