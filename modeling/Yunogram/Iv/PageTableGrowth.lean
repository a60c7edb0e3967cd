import Yunogram.Iv.PageTableCells

/-!
# Iv/PageTableGrowth — the editor adds rows and columns to a table, splits and unites its cells

`iv/editor/iv_editor_state.cpp`: `addTableRow` and `addTableColumn` extend the cells that cross the
new line and put empty cells into the other slots; `splitTableCell` puts empty cells next to the
cell of several slots; `uniteTableCells` erases all cells of a range but the first one.  A new cell
goes into its row before the first cell, in the order of the table, that is at or after its column.

Next to each is what should become of the tiles of the grid.
-/

open Machinery
open scoped Machinery.Computed

namespace Yunogram.Iv.Editor

variable {Text : Type}

/-! ## The code -/

/-- `IncrementTableSpan`. -/
def incrementTableSpan (span : ℤ) : ℤ :=
  let normalized := normalizeTableSpan span
  if normalized = intMax then normalized else normalized + 1

/-- `TableGridCellAt`. -/
def tableGridCellAt (tableRows : List (TableRow Text)) (grid : TableGrid) (row column : ℤ) :
    Option (TableCell Text) :=
  if row < 0 ∨ row ≥ grid.rowCount ∨ column < 0 then none
  else (grid.cells.find? fun reference => reference.rowFrom ≤ row && reference.rowTill > row
    && reference.columnFrom ≤ column && reference.columnTill > column).bind (referredCell tableRows)

/-- `source ? source->header : false`. -/
def headerOf (source : Option (TableCell Text)) : Bool := (source.map TableCell.header).getD false

/-- `InsertTableCellBeforeVisualColumn`. -/
def insertTableCellBeforeVisualColumn (row : TableRow Text) (grid : TableGrid)
    (rowIndex column : ℤ) (insertedCell : TableCell Text) : TableRow Text :=
  let insertAt := match grid.cells.find? fun reference =>
      reference.rowIndex = rowIndex && reference.columnFrom ≥ column with
    | some reference => min reference.cellIndex row.cells.length
    | none => row.cells.length
  { cells := row.cells.insertIdx insertAt.toNat insertedCell }

/-- The loop over the grid of `addTableRowUnchecked` and `addTableColumnUnchecked`: the cells that
cross the line are extended, and the rows or columns they are in are flagged. -/
def extendCrossing (crosses : TableGridCellReference → Bool)
    (extended : TableCell Text → TableCell Text) (flagged : TableGridCellReference → Finset ℤ)
    (cells : List TableGridCellReference) (tableRows : List (TableRow Text)) :
    List (TableRow Text) × Finset ℤ :=
  cells.foldl (fun (tableRows, covered) reference =>
    if crosses reference then
      (modifyCell tableRows reference extended, covered ∪ flagged reference)
    else (tableRows, covered)) (tableRows, ∅)

/-- `State::addTableRowUnchecked`. -/
def addTableRowUnchecked [Inhabited Text] (tableRenderLimits : MarkdownPrepareTableRenderLimits)
    (tableRows : List (TableRow Text)) (range : TableCellRange) (after : Bool) :
    Option (List (TableRow Text)) :=
  match validateTableCellRange tableRows tableRenderLimits range with
  | none => none
  | some validated =>
    let insertAt := if after then validated.rowTill else validated.rowFrom
    let grid := buildTableGridWithin tableRows tableRenderLimits
    if insertAt < 0 ∨ insertAt > tableRows.length then none
    else
      let sourceRow := if after then validated.rowTill - 1 else validated.rowFrom
      let (tableRows, coveredColumns) := extendCrossing
        (fun reference => !(reference.rowFrom ≥ insertAt || reference.rowTill ≤ insertAt))
        (fun cell => { cell with rowspan := incrementTableSpan cell.rowspan })
        (fun reference => Finset.Ico reference.columnFrom reference.columnTill) grid.cells tableRows
      let row : TableRow Text :=
        if grid.columnCount ≤ 0 then { cells := [makeDefaultTableCell false] }
        else { cells := (List.range grid.columnCount.toNat).filterMap fun (column : ℕ) =>
          if (column : ℤ) ∈ coveredColumns then none
          else some (makeDefaultTableCell
            (headerOf (tableGridCellAt tableRows grid sourceRow column))) }
      some (tableRows.insertIdx insertAt.toNat row)

/-- `State::addTableColumnUnchecked`. -/
def addTableColumnUnchecked [Inhabited Text] (tableRenderLimits : MarkdownPrepareTableRenderLimits)
    (tableRows : List (TableRow Text)) (range : TableCellRange) (after : Bool) :
    Option (List (TableRow Text)) :=
  match validateTableCellRange tableRows tableRenderLimits range with
  | none => none
  | some validated =>
    let insertAt := if after then validated.columnTill else validated.columnFrom
    let grid := buildTableGridWithin tableRows tableRenderLimits
    let sourceColumn := if after then validated.columnTill - 1 else validated.columnFrom
    let (tableRows, coveredRows) := extendCrossing
      (fun reference => !(reference.columnFrom ≥ insertAt || reference.columnTill ≤ insertAt))
      (fun cell => { cell with colspan := incrementTableSpan cell.colspan })
      (fun reference => Finset.Ico reference.rowFrom reference.rowTill) grid.cells tableRows
    some ((List.range tableRows.length).foldl (fun tableRows (rowIndex : ℕ) =>
      if (rowIndex : ℤ) ∈ coveredRows then tableRows
      else
        let source := tableGridCellAt tableRows grid rowIndex sourceColumn
        tableRows.modify rowIndex fun row => insertTableCellBeforeVisualColumn row grid rowIndex
          insertAt (makeDefaultTableCell (headerOf source))) tableRows)

/-- The columns of a cell in a row, from the last one on, that a cell is to be put into when it is
split. -/
def splitColumns (reference : TableGridCellReference) (rowIndex : ℤ) : List ℤ :=
  ((List.range (reference.columnTill - reference.columnFrom).toNat).map fun (offset : ℕ) =>
    reference.columnTill - 1 - offset).filter fun currentColumn =>
      !(rowIndex = reference.rowFrom && currentColumn = reference.columnFrom)

/-- `State::splitTableCell`. -/
def splitTableCell [Inhabited Text] (tableRenderLimits : MarkdownPrepareTableRenderLimits)
    (tableRows : List (TableRow Text)) (range : TableCellRange) : Option (List (TableRow Text)) :=
  match validateTableCellRange tableRows tableRenderLimits range with
  | none => none
  | some validated =>
    let grid := buildTableGridWithin tableRows tableRenderLimits
    match selectedTableGridCells grid validated with
    | [reference] =>
      match referredCell tableRows reference with
      | none => none
      | some cell =>
        if cell.rowspan ≤ 1 ∧ cell.colspan ≤ 1 then none
        else
          let header := cell.header
          let tableRows := modifyCell tableRows reference fun cell =>
            { cell with rowspan := 1, colspan := 1 }
          some ((List.range (reference.rowTill - reference.rowFrom).toNat).foldl
            (fun tableRows (offset : ℕ) =>
              let rowIndex := reference.rowFrom + offset
              (splitColumns reference rowIndex).foldl (fun tableRows currentColumn =>
                tableRows.modify rowIndex.toNat fun row => insertTableCellBeforeVisualColumn row
                  grid rowIndex currentColumn (makeDefaultTableCell header)) tableRows) tableRows)
    | _ => none

/-- `TableGridRangeCovered`. -/
def tableGridRangeCovered (grid : TableGrid) (range : TableCellRange) : Bool :=
  if range.rowFrom < 0 ∨ range.rowTill ≤ range.rowFrom ∨ range.columnFrom < 0
      ∨ range.columnTill ≤ range.columnFrom ∨ range.rowTill > grid.rowCount
      ∨ range.columnTill > grid.columnCount then false
  else (List.range (range.rowTill - range.rowFrom).toNat).all fun (i : ℕ) =>
    let row := range.rowFrom + i
    if row ≥ grid.occupancy.length then false
    else
      let occupied := grid.occupancy.getD row.toNat []
      (List.range (range.columnTill - range.columnFrom).toNat).all fun (j : ℕ) =>
        let column := range.columnFrom + j
        !(column ≥ occupied.length || !occupied.getD column.toNat false)

/-- `CleanTableGridUniteRange`. -/
def cleanTableGridUniteRange (grid : TableGrid) (range : TableCellRange) : Bool :=
  let selected := selectedTableGridCells grid range
  if selected.isEmpty then false
  else if selected.any fun cell => !tableGridCellContainedInRange cell range then false
  else tableGridRangeCovered grid range

/-- The order in which the first cell of a range is looked for. -/
def keptBefore (a b : TableGridCellReference) : Bool :=
  if a.rowFrom ≠ b.rowFrom then a.rowFrom < b.rowFrom
  else if a.columnFrom ≠ b.columnFrom then a.columnFrom < b.columnFrom
  else if a.rowIndex ≠ b.rowIndex then a.rowIndex < b.rowIndex
  else a.cellIndex < b.cellIndex

/-- `std::min_element`, of a list that is not empty. -/
def minElement {α : Type} (before : α → α → Bool) (first : α) (rest : List α) : α :=
  rest.foldl (fun smallest a => if before a smallest then a else smallest) first

/-- `State::uniteTableCells`. -/
def uniteTableCells (tableRenderLimits : MarkdownPrepareTableRenderLimits)
    (tableRows : List (TableRow Text)) (range : TableCellRange) : Option (List (TableRow Text)) :=
  match validateTableCellRange tableRows tableRenderLimits range with
  | none => none
  | some validated =>
    let grid := buildTableGridWithin tableRows tableRenderLimits
    match selectedTableGridCells grid validated with
    | first :: second :: rest =>
      if cleanTableGridUniteRange grid validated = false then none
      else
        let selected := first :: second :: rest
        let keeper := minElement keptBefore first (second :: rest)
        let tableRows := modifyCell tableRows keeper fun cell => { cell with
          rowspan := validated.rowTill - validated.rowFrom
          colspan := validated.columnTill - validated.columnFrom }
        let toErase := selected.filter fun cell =>
          !(cell.rowIndex = keeper.rowIndex && cell.cellIndex = keeper.cellIndex)
        some ((toErase.mergeSort erasedBefore).foldl eraseCell tableRows)
    | _ => none

/-! ## What should become of the tiles -/

/-- A cell of which the text is all that matters. -/
def TableCell.textOnly (cell : TableCell Text) : TableCell Text where
  text := cell.text
  colspan := 1
  rowspan := 1
  header := false
  alignment := .left
  verticalAlignment := .top

/-- A tile with the text of its cell only. -/
def Tile.textOnly (tile : Tile Text) : Tile Text := { tile with cell := tile.cell.textOnly }

/-- The texts of a table with the rectangles they are laid out in, in the order of the table. -/
def textLayout (tableRows : List (TableRow Text)) (limits : MarkdownPrepareTableRenderLimits) :
    List (Tile Text) :=
  (layout tableRows (buildTableGridWithin tableRows limits)).map Tile.textOnly

/-- A new empty cell in one slot. -/
def newTile [Inhabited Text] (row column : ℤ) : Tile Text where
  cell := makeDefaultTableCell false
  rowFrom := row
  rowTill := row + 1
  columnFrom := column
  columnTill := column + 1

/-- A tile once a row is put in at a line: one that crosses the line is extended. -/
def Tile.openRow (line : ℤ) (tile : Tile Text) : Tile Text :=
  { tile with
    rowFrom := if line ≤ tile.rowFrom then tile.rowFrom + 1 else tile.rowFrom
    rowTill := if line < tile.rowTill then tile.rowTill + 1 else tile.rowTill }

/-- A tile once a column is put in at a line. -/
def Tile.openColumn (line : ℤ) (tile : Tile Text) : Tile Text :=
  { tile with
    columnFrom := if line ≤ tile.columnFrom then tile.columnFrom + 1 else tile.columnFrom
    columnTill := if line < tile.columnTill then tile.columnTill + 1 else tile.columnTill }

/-- No tile that crosses a line between rows is in a column. -/
def freeColumn (line : ℤ) (tiles : List (Tile Text)) (column : ℕ) : Bool :=
  !tiles.any fun tile => tile.rowFrom < line && line < tile.rowTill
    && tile.columnFrom ≤ column && column < tile.columnTill

/-- **The tiles with a row put in** at a line, its cells after those of the rows before it. -/
def rowAdded [Inhabited Text] (line columnCount : ℤ) (tiles : List (Tile Text)) :
    List (Tile Text) :=
  (tiles.filter fun tile => tile.rowFrom < line).map (Tile.openRow line)
    ++ ((List.range columnCount.toNat).filter (freeColumn line tiles)).map (fun (column : ℕ) =>
      newTile line column)
    ++ (tiles.filter fun tile => line ≤ tile.rowFrom).map (Tile.openRow line)

/-- New tiles put into the rows of the table, in each after the first tiles of the row that are in
front. -/
def spliceRows (rowCount : ℕ) (front : Tile Text → Bool) (change : Tile Text → Tile Text)
    (inserted : ℕ → List (Tile Text)) (tiles : List (Tile Text)) : List (Tile Text) :=
  (List.range rowCount).flatMap fun (row : ℕ) =>
    let own := tiles.filter fun tile => tile.rowFrom = (row : ℤ)
    (own.takeWhile front).map change ++ inserted row ++ (own.dropWhile front).map change

/-- A tile starts before a column. -/
def startsBefore (column : ℤ) (tile : Tile Text) : Bool := tile.columnFrom < column

/-- No tile that crosses a line between columns is in a row. -/
def freeRow (line : ℤ) (tiles : List (Tile Text)) (row : ℕ) : Bool :=
  !tiles.any fun tile => tile.columnFrom < line && line < tile.columnTill
    && tile.rowFrom ≤ row && row < tile.rowTill

/-- **The tiles with a column put in** at a line, its cells before the first ones of their rows that
are after the line. -/
def columnAdded [Inhabited Text] (line : ℤ) (rowCount : ℕ) (tiles : List (Tile Text)) :
    List (Tile Text) :=
  spliceRows rowCount (startsBefore line) (Tile.openColumn line)
    (fun row => if freeRow line tiles row then [newTile row line] else []) tiles

/-- The tile of a cell that is split, the first of its slots. -/
def Tile.firstSlot (tile : Tile Text) : Tile Text :=
  { tile with rowTill := tile.rowFrom + 1, columnTill := tile.columnFrom + 1 }

/-- The new tiles in a row of a cell that is split. -/
def splitTiles [Inhabited Text] (selected : Tile Text) (row : ℤ) : List (Tile Text) :=
  ((List.range (selected.columnTill - selected.columnFrom).toNat).map fun (offset : ℕ) =>
    newTile row (selected.columnFrom + offset)).filter fun tile =>
      selected.rowFrom ≤ row && row < selected.rowTill
        && !(row = selected.rowFrom && tile.columnFrom = selected.columnFrom)

/-- **The tiles with one split** into its slots, the first of which keeps the text. -/
def cellSplit [Inhabited Text] (selected : Tile Text) (rowCount : ℕ) (tiles : List (Tile Text)) :
    List (Tile Text) :=
  spliceRows rowCount (startsBefore (selected.columnFrom + 1))
    (fun tile => if selected.rowFrom = tile.rowFrom ∧ selected.columnFrom = tile.columnFrom then
      tile.firstSlot else tile) (fun row => splitTiles selected row) tiles

/-- A tile has a slot in a range. -/
def Tile.meets (range : TableCellRange) (tile : Tile Text) : Bool :=
  tile.rowFrom < range.rowTill && tile.rowTill > range.rowFrom
    && tile.columnFrom < range.columnTill && tile.columnTill > range.columnFrom

/-- **The tiles with those of a range united**: the one at its first slot takes the range, the
others of the range are gone. -/
def cellsUnited (range : TableCellRange) (tiles : List (Tile Text)) : List (Tile Text) :=
  tiles.filterMap fun tile =>
    if tile.meets range = false then some tile
    else if tile.rowFrom = range.rowFrom ∧ tile.columnFrom = range.columnFrom then
      some { tile with
        rowFrom := range.rowFrom, rowTill := range.rowTill
        columnFrom := range.columnFrom, columnTill := range.columnTill }
    else none

/-- **A table is laid out** as given texts in their rectangles, in a grid of a size. -/
structure LaidOutAs (limits : MarkdownPrepareTableRenderLimits) (tableRows : List (TableRow Text))
    (rowCount columnCount : ℤ) (tiles : List (Tile Text)) : Prop where
  rowCount : (buildTableGridWithin tableRows limits).rowCount = rowCount
  columnCount : (buildTableGridWithin tableRows limits).columnCount = columnCount
  layout : textLayout tableRows limits = tiles

/-- A grid of a size is within the limits; the number of its rows is an `int`. -/
structure MarkdownPrepareTableRenderLimits.Fits (limits : MarkdownPrepareTableRenderLimits)
    (rowCount columnCount : ℤ) : Prop where
  rows : rowCount ≤ limits.maxRows
  rows_int : rowCount ≤ intMax
  columns : columnCount ≤ limits.maxColumns
  cells : rowCount * columnCount ≤ limits.maxCells

end Yunogram.Iv.Editor
