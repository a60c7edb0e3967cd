import Yunogram.Iv.PageTableWhole

/-!
# Iv/PageTableRemoval — the editor removes rows and columns of a table

`iv/editor/iv_editor_state.cpp`: `removeTableRows` and `removeTableColumns` take a range of slots of
the grid, check that it spans the table, and go through `removeStructuralSelection`.  That erases
the records of the rows, or narrows and erases the cells of the columns one by one.

What becomes of the selection of a text is left out; the checks here are those on the table.
-/

namespace Yunogram.Iv.Editor

variable {Text : Type}

/-! ## Ranges -/

/-- `PreparedEditTableCellRange`, and `StructuralTableCellRange`, within a table. -/
structure TableCellRange where
  rowFrom : ℤ
  rowTill : ℤ
  columnFrom : ℤ
  columnTill : ℤ
  deriving DecidableEq

/-- `PreparedEditTableCellRange::empty`. -/
def TableCellRange.empty (range : TableCellRange) : Bool :=
  range.rowFrom < 0 || range.rowTill ≤ range.rowFrom
    || range.columnFrom < 0 || range.columnTill ≤ range.columnFrom

/-- `PreparedEditTableRowRange`, and `StructuralTableRowRange`, within a table. -/
structure TableRowRange where
  start : ℤ
  till : ℤ

/-- `PreparedEditTableRowRange::empty`. -/
def TableRowRange.empty (range : TableRowRange) : Bool :=
  range.start < 0 || range.till ≤ range.start

/-- `TableGridCellIntersectsRange`. -/
def tableGridCellIntersectsRange (cell : TableGridCellReference) (range : TableCellRange) : Bool :=
  cell.rowFrom < range.rowTill && cell.rowTill > range.rowFrom
    && cell.columnFrom < range.columnTill && cell.columnTill > range.columnFrom

/-- `SelectedTableGridCells`. -/
def selectedTableGridCells (grid : TableGrid) (range : TableCellRange) :
    List TableGridCellReference :=
  grid.cells.filter fun cell => tableGridCellIntersectsRange cell range

/-- `TableGridCellContainedInRange`. -/
def tableGridCellContainedInRange (cell : TableGridCellReference) (range : TableCellRange) : Bool :=
  cell.rowFrom ≥ range.rowFrom && cell.rowTill ≤ range.rowTill
    && cell.columnFrom ≥ range.columnFrom && cell.columnTill ≤ range.columnTill

/-- `TableGridCellColumnIntersection`. -/
def tableGridCellColumnIntersection (cell : TableGridCellReference) (range : TableCellRange) : ℤ :=
  let start := max cell.columnFrom range.columnFrom
  let till := min cell.columnTill range.columnTill
  max (till - start) 0

/-- `TableGridRangeSpansAllRows`. -/
def tableGridRangeSpansAllRows (grid : TableGrid) (range : TableCellRange) : Bool :=
  range.rowFrom = 0 && range.rowTill = grid.rowCount && range.columnFrom ≥ 0
    && range.columnTill > range.columnFrom && range.columnTill ≤ grid.columnCount

/-- `TableGridRangeSpansAllColumns`. -/
def tableGridRangeSpansAllColumns (grid : TableGrid) (range : TableCellRange) : Bool :=
  range.rowFrom ≥ 0 && range.rowTill > range.rowFrom && range.rowTill ≤ grid.rowCount
    && range.columnFrom = 0 && range.columnTill = grid.columnCount

/-- `State::validateTableRowRange`. -/
def validateTableRowRange (tableRows : List (TableRow Text)) (range : TableRowRange) :
    Option TableRowRange :=
  if range.empty then none
  else if range.start < 0 ∨ range.till > tableRows.length then none
  else some range

/-- `State::validateTableCellRange`. -/
def validateTableCellRange (tableRows : List (TableRow Text))
    (tableRenderLimits : MarkdownPrepareTableRenderLimits) (range : TableCellRange) :
    Option TableCellRange :=
  if range.empty then none
  else
    let grid := buildTableGridWithin tableRows tableRenderLimits
    if range.rowFrom < 0 ∨ range.rowTill > grid.rowCount
        ∨ range.columnFrom < 0 ∨ range.columnTill > grid.columnCount then none
    else if (selectedTableGridCells grid range).isEmpty then none
    else some range

/-! ## Changes of a table -/

/-- A cell that a reference is to is changed in its place. -/
def modifyCell (tableRows : List (TableRow Text)) (reference : TableGridCellReference)
    (change : TableCell Text → TableCell Text) : List (TableRow Text) :=
  tableRows.modify reference.rowIndex.toNat fun row =>
    { cells := row.cells.modify reference.cellIndex.toNat change }

/-- `row.cells.erase`, of a cell that a reference is to. -/
def eraseCell (tableRows : List (TableRow Text)) (reference : TableGridCellReference) :
    List (TableRow Text) :=
  tableRows.modify reference.rowIndex.toNat fun row =>
    { cells := row.cells.eraseIdx reference.cellIndex.toNat }

/-- `MakeDefaultTableCell`, without a header and with one. -/
def makeDefaultTableCell [Inhabited Text] (header : Bool) : TableCell Text where
  text := default
  colspan := 1
  rowspan := 1
  header := header
  alignment := .left
  verticalAlignment := .top

/-- The order in which cells are erased: the last one first. -/
def erasedBefore (a b : TableGridCellReference) : Bool :=
  if a.rowIndex ≠ b.rowIndex then a.rowIndex > b.rowIndex else a.cellIndex ≥ b.cellIndex

/-- What a removal makes of a table: nothing where it is rejected, the whole block is removed, or
these are its rows. -/
inductive TableRemoval (Text : Type)
  | rejected
  | blockRemoved
  | rows (tableRows : List (TableRow Text))
  deriving DecidableEq

/-- `State::removeStructuralSelection` of `TableRows`. -/
def removeStructuralTableRows (titleEmpty : Bool) (tableRows : List (TableRow Text))
    (selection : TableRowRange) : TableRemoval Text :=
  match validateTableRowRange tableRows selection with
  | none => .rejected
  | some range =>
    let tableRows := tableRows.take range.start.toNat ++ tableRows.drop range.till.toNat
    if tableRows.isEmpty && titleEmpty then .blockRemoved else .rows tableRows

/-- The loop over the selected cells: those in the range are to be erased, the others narrowed. -/
def narrowCells (tableRows : List (TableRow Text)) (range : TableCellRange)
    (selected : List TableGridCellReference) : List (TableRow Text) × List TableGridCellReference :=
  selected.foldl (fun (tableRows, toErase) reference =>
    if tableGridCellContainedInRange reference range then (tableRows, toErase ++ [reference])
    else
      let intersection := tableGridCellColumnIntersection reference range
      if intersection ≤ 0 then (tableRows, toErase)
      else
        (modifyCell tableRows reference fun cell => { cell with
          colspan := max (reference.columnTill - reference.columnFrom - intersection) 1 }, toErase))
    (tableRows, [])

/-- `State::removeStructuralSelection` of `TableCells`. -/
def removeStructuralTableCells [Inhabited Text]
    (tableRenderLimits : MarkdownPrepareTableRenderLimits) (titleEmpty : Bool)
    (tableRows : List (TableRow Text)) (selection : TableCellRange) : TableRemoval Text :=
  match validateTableCellRange tableRows tableRenderLimits selection with
  | none => .rejected
  | some range =>
    let grid := buildTableGridWithin tableRows tableRenderLimits
    if tableGridRangeSpansAllRows grid range = false then .rejected
    else
      let selected := selectedTableGridCells grid range
      if selected.isEmpty then .rejected
      else
        let (tableRows, toErase) := narrowCells tableRows range selected
        let tableRows := (toErase.mergeSort erasedBefore).foldl eraseCell tableRows
        if tableRows.all fun row => row.cells.isEmpty then
          if titleEmpty then .blockRemoved
          else .rows [{ cells := [makeDefaultTableCell false] }]
        else .rows tableRows

/-- `State::removeTableRows`. -/
def removeTableRows (tableRenderLimits : MarkdownPrepareTableRenderLimits) (titleEmpty : Bool)
    (tableRows : List (TableRow Text)) (range : TableCellRange) : TableRemoval Text :=
  match validateTableCellRange tableRows tableRenderLimits range with
  | none => .rejected
  | some validated =>
    if tableGridRangeSpansAllColumns (buildTableGridWithin tableRows tableRenderLimits)
        validated = false then .rejected
    else removeStructuralTableRows titleEmpty tableRows
      { start := validated.rowFrom, till := validated.rowTill }

/-- `State::removeTableColumns`. -/
def removeTableColumns [Inhabited Text] (tableRenderLimits : MarkdownPrepareTableRenderLimits)
    (titleEmpty : Bool) (tableRows : List (TableRow Text)) (range : TableCellRange) :
    TableRemoval Text :=
  match validateTableCellRange tableRows tableRenderLimits range with
  | none => .rejected
  | some validated =>
    if tableGridRangeSpansAllRows (buildTableGridWithin tableRows tableRenderLimits)
        validated = false then .rejected
    else removeStructuralTableCells tableRenderLimits titleEmpty tableRows range

/-! ## A grid without a range -/

/-- Where a line between rows or between columns is once the ones of a range are gone. -/
def cutLine (start till line : ℤ) : ℤ :=
  if line ≤ start then line else if line ≤ till then start else line - (till - start)

/-- A tile cut by the rows of a range. -/
def Tile.cutRows (start till : ℤ) (tile : Tile Text) : Tile Text :=
  { tile with
    rowFrom := cutLine start till tile.rowFrom
    rowTill := cutLine start till tile.rowTill }

/-- A tile cut by the columns of a range. -/
def Tile.cutColumns (start till : ℤ) (tile : Tile Text) : Tile Text :=
  { tile with
    columnFrom := cutLine start till tile.columnFrom
    columnTill := cutLine start till tile.columnTill }

/-- A tile once the rows of a range are gone: it goes with them, or is cut by them. -/
def Tile.withoutRows (start till : ℤ) (tile : Tile Text) : Option (Tile Text) :=
  if start ≤ tile.rowFrom ∧ tile.rowTill ≤ till then none else some (tile.cutRows start till)

/-- A tile once the columns of a range are gone. -/
def Tile.withoutColumns (start till : ℤ) (tile : Tile Text) : Option (Tile Text) :=
  if start ≤ tile.columnFrom ∧ tile.columnTill ≤ till then none
  else some (tile.cutColumns start till)

section

variable (limits : MarkdownPrepareTableRenderLimits) (tableRows tableRows' : List (TableRow Text))
  (start till : ℤ)

/-- **The grid of a table is that of another one without a range of rows**: the cells within the
range are gone, those that stick out of it are cut and the others are as they were, those after the
range moved up. -/
structure WithoutRows : Prop where
  rowCount : (buildTableGridWithin tableRows' limits).rowCount =
    (buildTableGridWithin tableRows limits).rowCount - (till - start)
  columnCount : (buildTableGridWithin tableRows' limits).columnCount =
    (buildTableGridWithin tableRows limits).columnCount
  layout : layout tableRows' (buildTableGridWithin tableRows' limits) =
    (layout tableRows (buildTableGridWithin tableRows limits)).filterMap
      (Tile.withoutRows start till)

/-- **The grid of a table is that of another one without a range of columns.** -/
structure WithoutColumns : Prop where
  rowCount : (buildTableGridWithin tableRows' limits).rowCount =
    (buildTableGridWithin tableRows limits).rowCount
  columnCount : (buildTableGridWithin tableRows' limits).columnCount =
    (buildTableGridWithin tableRows limits).columnCount - (till - start)
  layout : layout tableRows' (buildTableGridWithin tableRows' limits) =
    (layout tableRows (buildTableGridWithin tableRows limits)).filterMap
      (Tile.withoutColumns start till)

end

end Yunogram.Iv.Editor
