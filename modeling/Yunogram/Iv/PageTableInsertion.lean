import Mathlib
import Yunogram.Iv.PageTableRowGrowth

/-!
# Iv/PageTableInsertion — where a cell goes in its row

A cell is put in before the first one of its row, in the order of the table, that starts at its
column or after it; so the cells in front of it are the first ones that start before the column.
-/

open Machinery

namespace Yunogram.Iv.Editor

variable {Text : Type} {tableRows : List (TableRow Text)}
  {limits : MarkdownPrepareTableRenderLimits}

section Whole

variable (hwhole : (buildTableGridWithin tableRows limits).Whole tableRows)

include hwhole

/-- The steps of a row with their tiles. -/
theorem map_fst_ownTiled (row : ℕ) : (ownTiled tableRows limits row).map Prod.fst =
    (steps tableRows).filter fun step => step.rowIndex = row := by
  rw [← map_fst_tiled hwhole, List.filter_map]
  rfl

/-- The places of the cells of a row. -/
theorem cellIndex_ownTiled (row : ℕ) :
    (ownTiled tableRows limits row).map (fun placed => placed.1.cellIndex) =
      List.range (ownTiled tableRows limits row).length := by
  have hcells : ∃ cells : List (TableCell Text),
      (steps tableRows).filter (fun step => step.rowIndex = row) =
        cells.zipIdx.map fun entry => ⟨row, entry.2, entry.1⟩ := by
    cases hrow : tableRows[row]? with
    | none =>
      refine ⟨[], List.filter_eq_nil_iff.2 fun step hmem heq => ?_⟩
      have hlt := rowIndex_lt_of_mem_steps hmem
      have hnone := List.getElem?_eq_none_iff.1 hrow
      have heq := of_decide_eq_true heq
      omega
    | some own => exact ⟨own.cells, filter_steps (List.mem_zipIdx_iff_getElem?.2 hrow)⟩
  obtain ⟨cells, hcells⟩ := hcells
  have hmap := congrArg (List.map CellStep.cellIndex) (map_fst_ownTiled hwhole row)
  rw [hcells, List.map_map, List.map_map] at hmap
  have hlength := congrArg List.length hmap
  rw [List.length_map, List.length_map, List.length_zipIdx] at hlength
  rw [hlength]
  rw [List.range_eq_range', ← List.zipIdx_map_snd 0 cells]
  exact hmap

/-- The first cell of a row that does not start before a column. -/
theorem find?_cells (row : ℕ) (column : ℤ) :
    (buildTableGridWithin tableRows limits).cells.find? (fun reference =>
        reference.rowIndex = (row : ℤ) && reference.columnFrom ≥ column) =
      (backTiled tableRows limits (startsBefore column) row).head?.map fun placed =>
        refOf placed.1 placed.2 := by
  rw [cells_eq_map_tiled hwhole, List.find?_map, backTiled, ownTiled,
    ← List.find?_not_eq_head?_dropWhile, List.find?_filter]
  refine congrArg (Option.map _) (congrArg (List.find? · _) (funext fun placed => ?_))
  rw [Function.comp, Bool.eq_iff_iff]
  simp only [refOf, startsBefore, Bool.and_eq_true, decide_eq_true_eq, Bool.not_eq_true',
    decide_eq_false_iff_not, not_lt, ge_iff_le, Int.natCast_inj]

/-- **A cell is put in** between the cells of its row that are in front of its column and the
others, next to others like it. -/
theorem insertTableCellBeforeVisualColumn_eq {own : TableRow Text} {row : ℕ} {column : ℤ}
    {cell : TableCell Text} {before after : List (TableCell Text)} {count : ℕ}
    (hcells : own.cells = before ++ List.replicate count cell ++ after)
    (hbefore : before.length = (frontTiled tableRows limits (startsBefore column) row).length)
    (hafter : after.length = (backTiled tableRows limits (startsBefore column) row).length) :
    insertTableCellBeforeVisualColumn own (buildTableGridWithin tableRows limits) row column cell =
      { cells := before ++ List.replicate (count + 1) cell ++ after } := by
  unfold insertTableCellBeforeVisualColumn
  rw [find?_cells hwhole]
  cases hback : backTiled tableRows limits (startsBefore column) row with
  | nil =>
    rw [hback] at hafter
    obtain rfl := List.eq_nil_of_length_eq_zero hafter
    rw [List.append_nil] at hcells
    rw [List.append_nil, List.head?_nil, Option.map_none]
    dsimp only
    rw [Int.toNat_natCast, insertIdx_eq_take_append_drop le_rfl, List.take_length,
      List.drop_length, hcells, List.append_assoc, List.replicate_succ']
  | cons placed back =>
    have hplace : placed.1.cellIndex = before.length := by
      have hindex := @cellIndex_ownTiled _ tableRows limits hwhole row
      have hown := @front_append_back _ tableRows limits (startsBefore column) row
      have hget := congrArg (fun l => l[before.length]?) hindex
      rw [← hown, hback, hbefore, List.map_append, List.getElem?_append_right (by simp),
        List.length_map, Nat.sub_self, List.map_cons, List.getElem?_cons_zero,
        List.getElem?_range (by simp)] at hget
      rw [hbefore]
      exact Option.some.inj hget
    rw [List.head?_cons, Option.map_some]
    dsimp only [refOf]
    rw [hplace, hcells, min_eq_left (by simp; omega), Int.toNat_natCast,
      insertIdx_eq_take_append_drop (by simp), List.append_assoc, List.take_left,
      List.drop_left, List.replicate_succ, List.append_assoc, List.cons_append]

/-- **Cells are put into a row** of a table whose cells have been changed in their places, all of
them like one another: they come between those in front of a column and the others. -/
theorem insertTableCellBeforeVisualColumn_take_drop {changed : List (TableRow Text)}
    {change : CellStep Text × Tile Text → CellStep Text}
    (hsteps : steps changed = (tiled tableRows limits).map change)
    (hindex : ∀ placed, (change placed).rowIndex = placed.1.rowIndex)
    {own : TableRow Text} {row place : ℕ} (hmem : (own, row) ∈ changed.zipIdx) (column : ℤ)
    (hplace : place = (frontTiled tableRows limits (startsBefore column) row).length)
    (cell : TableCell Text) (count : ℕ) :
    insertTableCellBeforeVisualColumn
        { cells := own.cells.take place ++ List.replicate count cell ++ own.cells.drop place }
        (buildTableGridWithin tableRows limits) row column cell =
      { cells := own.cells.take place ++ List.replicate (count + 1) cell
          ++ own.cells.drop place } := by
  have hlength : own.cells.length = place
      + (backTiled tableRows limits (startsBefore column) row).length := by
    rw [cells_eq_map_ownTiled hsteps hindex hmem, List.length_map,
      ← @front_append_back _ tableRows limits (startsBefore column) row, List.length_append, hplace]
  refine insertTableCellBeforeVisualColumn_eq hwhole rfl ?_ ?_
  · rw [List.length_take, ← hplace]
    omega
  · rw [List.length_drop]
    omega

end Whole

end Yunogram.Iv.Editor
