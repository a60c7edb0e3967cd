import Yunogram.Iv.PageTableRemovalExact
import Yunogram.Iv.PageTableSplit
import Yunogram.Iv.PageTableUnite

/-!
# Iv/PageTableReshape — what adding, splitting and uniting makes of the grid of a table

`table_growth` and `table_reshaping`: a row that is added to a table whose grid is whole is added to
the grid, and nothing else changes; a column, a split and a union are so exactly when the tiles that
should be are held in place. -/

open Machinery

namespace Yunogram.Iv.Editor

variable {Text : Type} {tableRows : List (TableRow Text)}
  {limits : MarkdownPrepareTableRenderLimits} {range : TableCellRange}

/-! ## The result -/

/-- A column moves cells where a row is not in the order of its columns. -/
example : ¬AllHeld ∅ (columnAdded 1 2 (textLayout crossedTable twentyLimits)) := by
  decide +kernel

/-- **Splitting and uniting cells of a table.**  Of a table whose grid is whole, let a range be
accepted.  Where one cell has slots in it, more than one altogether, splitting makes it a cell for
each of its slots, the first of which keeps the text, and leaves all others; where several have and
none reaches out of it, uniting makes them one cell with the text of the first; each if and only if
the tiles that should be are held in place. -/
theorem table_reshaping [Inhabited Text] (limits : MarkdownPrepareTableRenderLimits)
    (tableRows : List (TableRow Text)) (range : TableCellRange)
    (hwhole : (buildTableGridWithin tableRows limits).Whole tableRows)
    (hvalid : (validateTableCellRange tableRows limits range).isSome)
    (hfits : limits.Fits tableRows.length (buildTableGridWithin tableRows limits).columnCount) :
    (∀ selected, (textLayout tableRows limits).filter (Tile.meets range) = [selected] →
      1 < selected.rowTill - selected.rowFrom ∨ 1 < selected.columnTill - selected.columnFrom →
      ((∃ tableRows', splitTableCell limits tableRows range = some tableRows'
        ∧ LaidOutAs limits tableRows' (buildTableGridWithin tableRows limits).rowCount
          (buildTableGridWithin tableRows limits).columnCount
          (cellSplit selected tableRows.length (textLayout tableRows limits)))
        ↔ AllHeld ∅ (cellSplit selected tableRows.length (textLayout tableRows limits))))
    ∧ (range.Clean (textLayout tableRows limits) →
      1 < ((textLayout tableRows limits).filter (Tile.meets range)).length →
      ((∃ tableRows', uniteTableCells limits tableRows range = some tableRows'
        ∧ LaidOutAs limits tableRows' (buildTableGridWithin tableRows limits).rowCount
          (buildTableGridWithin tableRows limits).columnCount
          (cellsUnited range (textLayout tableRows limits)))
        ↔ AllHeld ∅ (cellsUnited range (textLayout tableRows limits)))) := by
  obtain ⟨validated, hvalid⟩ := Option.isSome_iff_exists.1 hvalid
  obtain rfl := (eq_of_validateTableCellRange hvalid).1
  refine ⟨fun selected hselected hslots => ?_, fun hclean hseveral => ?_⟩
  · obtain ⟨tableRows', hsplit, -, hcells⟩ :=
      splitTableCell_cellsOf hwhole hvalid hfits hselected hslots
    rw [← hcells.laidOutAs_iff, hsplit]
    exact ⟨fun ⟨_, heq, hlaidOut⟩ => Option.some.inj heq ▸ hlaidOut,
      fun hlaidOut => ⟨tableRows', rfl, hlaidOut⟩⟩
  · obtain ⟨tableRows', hunited, -, hcells⟩ :=
      uniteTableCells_cellsOf hwhole hvalid hfits hclean hseveral
    rw [← hcells.laidOutAs_iff, hunited]
    exact ⟨fun ⟨_, heq, hlaidOut⟩ => Option.some.inj heq ▸ hlaidOut,
      fun hlaidOut => ⟨tableRows', rfl, hlaidOut⟩⟩

/-- A cell of two rows is split, and the cells of a row are united. -/
theorem table_reshaping_tall :
    (∃ tableRows', splitTableCell twentyLimits tallTable ⟨0, 1, 0, 1⟩ = some tableRows'
      ∧ LaidOutAs twentyLimits tableRows' 3 2
        (cellSplit ⟨(spanning 'a' 1 1), 0, 2, 0, 1⟩ 3 (textLayout tallTable twentyLimits)))
    ∧ ∃ tableRows', uniteTableCells twentyLimits tallTable ⟨2, 3, 0, 2⟩ = some tableRows'
      ∧ LaidOutAs twentyLimits tableRows' 3 2
        (cellsUnited ⟨2, 3, 0, 2⟩ (textLayout tallTable twentyLimits)) := by
  obtain ⟨rows, hsplit, hrows⟩ := ((table_reshaping twentyLimits tallTable ⟨0, 1, 0, 1⟩
    (by decide +kernel) (by decide +kernel)
    ⟨by decide, by decide, by decide +kernel, by decide +kernel⟩).1
    ⟨(spanning 'a' 1 1), 0, 2, 0, 1⟩ (by decide +kernel) (by decide)).2 (by decide +kernel)
  obtain ⟨rows', hunited, hrows'⟩ := ((table_reshaping twentyLimits tallTable ⟨2, 3, 0, 2⟩
    (by decide +kernel) (by decide +kernel)
    ⟨by decide, by decide, by decide +kernel, by decide +kernel⟩).2
    (by decide +kernel) (by decide +kernel)).2 (by decide +kernel)
  exact ⟨⟨rows, hsplit, hrows.rowCount.trans (by decide +kernel),
    hrows.columnCount.trans (by decide +kernel), hrows.layout⟩,
    ⟨rows', hunited, hrows'.rowCount.trans (by decide +kernel),
      hrows'.columnCount.trans (by decide +kernel), hrows'.layout⟩⟩

end Yunogram.Iv.Editor
