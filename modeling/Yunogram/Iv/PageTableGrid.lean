import Yunogram.Machinery.Packing

/-!
# Iv/PageTableGrid — a table is laid out on a grid, cell by cell

`iv/editor/iv_editor_page_table_grid.cpp`: each cell takes the first column from which its spans
find no slot taken, the spans cut off at the last row and at the last column, and is left out where
there is no such column.  The grid without limits has as many columns as the widest row.

An `int` is an integer; the only sum that could leave its range wraps around (`addInt`).
-/

open Machinery

namespace Yunogram.Iv.Editor

/-- `std::numeric_limits<int>::max()`. -/
def intMax : ℤ := 2 ^ 31 - 1

/-- The sum of two `int` values, in 32 bits. -/
def addInt (a b : ℤ) : ℤ := (a + b).bmod (2 ^ 32)

/-! ## Tables -/

/-- `RichPage::TableAlignment`. -/
inductive TableAlignment
  | left | center | right

/-- `RichPage::TableVerticalAlignment`. -/
inductive TableVerticalAlignment
  | top | middle | bottom

/-- `RichPage::TableCell`, over what its text is. -/
structure TableCell (Text : Type) where
  text : Text
  colspan : ℤ
  rowspan : ℤ
  header : Bool
  alignment : TableAlignment
  verticalAlignment : TableVerticalAlignment

/-- `RichPage::TableRow`. -/
structure TableRow (Text : Type) where
  cells : List (TableCell Text)

/-- `MarkdownPrepareTableRenderLimits`, whose fields are `int` values. -/
structure MarkdownPrepareTableRenderLimits where
  maxRows : ℤ
  maxColumns : ℤ
  maxCells : ℤ
  maxColumns_le : maxColumns ≤ intMax

/-! ## Spans and slots -/

/-- `NormalizeTableSpan`. -/
def normalizeTableSpan (span : ℤ) : ℤ := max span 1

/-- What `ClampTableRowspan` and `ClampTableColspan` do along their axis. -/
def clampTableSpan (rawSpan position count : ℤ) : ℤ :=
  if position < 0 ∨ position ≥ count ∨ count ≤ 0 then 0
  else
    let remaining := count - position
    min (normalizeTableSpan rawSpan) remaining

/-- `ClampTableRowspan`. -/
def clampTableRowspan (rawRowspan row rowCount : ℤ) : ℤ := clampTableSpan rawRowspan row rowCount

/-- `ClampTableColspan`. -/
def clampTableColspan (rawColspan column maxColumns : ℤ) : ℤ :=
  clampTableSpan rawColspan column maxColumns

/-- `TableGridOccupancy`. -/
abbrev TableGridOccupancy := List (List Bool)

/-- What `for (auto i = start; i < till; ++i)` goes over, from a value that is not negative. -/
def indices (start till : ℤ) : List ℕ := List.range' start.toNat (till - start).toNat

/-- `CanOccupyTableSlots`. -/
def canOccupyTableSlots (occupancy : TableGridOccupancy) (row column rowspan colspan : ℤ) : Bool :=
  if row < 0 ∨ column < 0 ∨ rowspan ≤ 0 ∨ colspan ≤ 0 ∨ row ≥ occupancy.length then false
  else
    let rowLimit := min (row + rowspan) occupancy.length
    let columnLimit64 := column + colspan
    if columnLimit64 ≤ column then false
    else
      let columnLimit := min columnLimit64 intMax
      (indices row rowLimit).all fun currentRow =>
        let occupied := occupancy.getD currentRow []
        let occupiedLimit := min columnLimit occupied.length
        (indices column occupiedLimit).all fun currentColumn => !occupied.getD currentColumn false

/-- `FirstAvailableTableColumn`. -/
def firstAvailableTableColumn (occupancy : TableGridOccupancy)
    (row rowspan colspan maxColumns : ℤ) : ℤ :=
  if row < 0 ∨ row ≥ occupancy.length ∨ rowspan ≤ 0 ∨ colspan ≤ 0 ∨ maxColumns ≤ 0 then -1
  else
    let found := (indices 0 maxColumns).find? fun column : ℕ =>
      let effectiveColspan := clampTableColspan colspan column maxColumns
      !decide (effectiveColspan ≤ 0)
        && canOccupyTableSlots occupancy row column rowspan effectiveColspan
    match found with
    | some column => column
    | none => -1

/-- A row of `MarkTableSlots`. -/
def markTableRow (occupied : List Bool) (column columnLimit : ℤ) : List Bool :=
  let resized :=
    if columnLimit > occupied.length then
      occupied ++ List.replicate (columnLimit - occupied.length).toNat false
    else occupied
  resized.mapIdx fun currentColumn value =>
    if column ≤ currentColumn ∧ currentColumn < columnLimit then true else value

/-- `MarkTableSlots`. -/
def markTableSlots (occupancy : TableGridOccupancy) (row column rowspan colspan : ℤ) :
    TableGridOccupancy :=
  if row < 0 ∨ column < 0 ∨ rowspan ≤ 0 ∨ colspan ≤ 0 ∨ row ≥ occupancy.length then occupancy
  else
    let rowLimit := min (row + rowspan) occupancy.length
    let columnLimit64 := column + colspan
    if columnLimit64 ≤ column then occupancy
    else
      let columnLimit := min columnLimit64 intMax
      occupancy.mapIdx fun currentRow occupied =>
        if row ≤ currentRow ∧ currentRow < rowLimit then markTableRow occupied column columnLimit
        else occupied

/-- `TableGridColumnCount`. -/
def tableGridColumnCount (occupancy : TableGridOccupancy) : ℤ :=
  occupancy.foldl (fun result row => max result (row.length : ℤ)) 0

variable {Text : Type}

/-- The columns of a row in `TableMaxColumns`. -/
def rowColumns (row : TableRow Text) : ℤ :=
  row.cells.foldl (fun columns cell => addInt columns (normalizeTableSpan cell.colspan)) 0

/-- `TableMaxColumns`. -/
def tableMaxColumns (tableRows : List (TableRow Text)) : ℤ :=
  tableRows.foldl (fun result row => max result (rowColumns row)) 0

/-! ## Grids -/

/-- `TableGridCellReference`. -/
structure TableGridCellReference where
  rowIndex : ℤ
  cellIndex : ℤ
  rowFrom : ℤ
  rowTill : ℤ
  columnFrom : ℤ
  columnTill : ℤ
  deriving DecidableEq

/-- `TableGrid`. -/
structure TableGrid where
  cells : List TableGridCellReference
  occupancy : TableGridOccupancy
  rowCount : ℤ
  columnCount : ℤ
  deriving DecidableEq

/-- What the loops of `BuildTableGrid` go on with. -/
structure Building where
  cells : List TableGridCellReference
  occupancy : TableGridOccupancy
  occupiedSlotCountSoFar : ℤ

/-- The body of the inner loop of both overloads of `BuildTableGrid`; `admits` is the check of the
number of slots, of those occupied so far and of the growth. -/
def placeCell (rowCount maxColumns : ℤ) (admits : ℤ → ℤ → Bool) (building : Building)
    (rowIndex cellIndex : ℕ) (cell : TableCell Text) : Building :=
  let normalizedColspan := normalizeTableSpan cell.colspan
  let rowspan := clampTableRowspan cell.rowspan rowIndex rowCount
  if rowspan ≤ 0 then building
  else
    let column := firstAvailableTableColumn building.occupancy rowIndex rowspan normalizedColspan
      maxColumns
    if column < 0 then building
    else
      let colspan := clampTableColspan normalizedColspan column maxColumns
      if colspan ≤ 0 then building
      else
        let occupiedSlotGrowth := rowspan * colspan
        if admits building.occupiedSlotCountSoFar occupiedSlotGrowth = false then building
        else {
          cells := building.cells ++ [{
            rowIndex := rowIndex
            cellIndex := cellIndex
            rowFrom := rowIndex
            rowTill := rowIndex + rowspan
            columnFrom := column
            columnTill := column + colspan }]
          occupancy := markTableSlots building.occupancy rowIndex column rowspan colspan
          occupiedSlotCountSoFar := building.occupiedSlotCountSoFar + occupiedSlotGrowth }

/-- The inner loop. -/
def placeRow (rowCount maxColumns : ℤ) (admits : ℤ → ℤ → Bool) (building : Building)
    (rowIndex : ℕ) (row : TableRow Text) : Building :=
  row.cells.zipIdx.foldl (fun building (cell, cellIndex) =>
    placeCell rowCount maxColumns admits building rowIndex cellIndex cell) building

/-- The outer loop, over the first rows. -/
def placeRows (rowCount maxColumns : ℤ) (admits : ℤ → ℤ → Bool) (tableRows : List (TableRow Text)) :
    Building :=
  (tableRows.take rowCount.toNat).zipIdx.foldl (fun building (row, rowIndex) =>
    placeRow rowCount maxColumns admits building rowIndex row)
    { cells := [], occupancy := List.replicate rowCount.toNat [], occupiedSlotCountSoFar := 0 }

/-- The grid that the loops end with. -/
def Building.grid (building : Building) (rowCount : ℤ) : TableGrid where
  cells := building.cells
  occupancy := building.occupancy
  rowCount := rowCount
  columnCount := tableGridColumnCount building.occupancy

/-- The check of `limits.maxCells`. -/
def MarkdownPrepareTableRenderLimits.admits (limits : MarkdownPrepareTableRenderLimits)
    (occupiedSlotCountSoFar occupiedSlotGrowth : ℤ) : Bool :=
  !(decide (occupiedSlotGrowth > limits.maxCells)
    || decide (occupiedSlotCountSoFar + occupiedSlotGrowth > limits.maxCells))

/-- `BuildTableGrid`, with limits. -/
def buildTableGridWithin (tableRows : List (TableRow Text))
    (limits : MarkdownPrepareTableRenderLimits) : TableGrid :=
  let rowCount := min (tableRows.length : ℤ) limits.maxRows
  let rowCount := if rowCount < 0 then 0 else rowCount
  (placeRows rowCount limits.maxColumns limits.admits tableRows).grid rowCount

/-- `BuildTableGrid`, without limits. -/
def buildTableGrid (tableRows : List (TableRow Text)) : TableGrid :=
  let rowCount : ℤ := tableRows.length
  let maxColumns := tableMaxColumns tableRows
  if rowCount ≤ 0 ∨ maxColumns ≤ 0 then {
    cells := []
    occupancy := List.replicate rowCount.toNat []
    rowCount := rowCount
    columnCount := 0 }
  else (placeRows rowCount maxColumns (fun _ _ => true) tableRows).grid rowCount

end Yunogram.Iv.Editor
