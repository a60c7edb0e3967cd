import Yunogram.Iv.PageTableLimits
import Yunogram.Machinery.Lockstep

/-!
# Iv/NativeIvTable — the view of a table has the cells of the editor's grid

`PrepareCanonicalNativeIvTableBlock` lays a table out for the view, with helpers of its own that are
those of the grid, word for word.  It prepares the texts on the way and gives up where one of them
is refused; preparing a text is a parameter.

The result is `table_grids`, on the grids of the editor and of the view together.
-/

open Machinery

namespace Yunogram.Iv.Markdown

open Editor

/-! ## The helpers -/

/-- `NativeIvTableOccupancyGrid`. -/
abbrev NativeIvTableOccupancyGrid := TableGridOccupancy

/-- `NormalizeNativeIvTableSpan`. -/
def normalizeNativeIvTableSpan (span : ℤ) : ℤ := normalizeTableSpan span

/-- `ClampNativeIvTableRowspan`. -/
def clampNativeIvTableRowspan (rawRowspan row rowCount : ℤ) : ℤ :=
  clampTableRowspan rawRowspan row rowCount

/-- `ClampNativeIvTableColspan`. -/
def clampNativeIvTableColspan (rawColspan column maxColumns : ℤ) : ℤ :=
  clampTableColspan rawColspan column maxColumns

/-- `FirstAvailableNativeIvTableColumn`, over `CanOccupyNativeIvTableSlots`. -/
def firstAvailableNativeIvTableColumn (occupancy : NativeIvTableOccupancyGrid)
    (row rowspan colspan maxColumns : ℤ) : ℤ :=
  firstAvailableTableColumn occupancy row rowspan colspan maxColumns

/-- `MarkNativeIvTableSlots`. -/
def markNativeIvTableSlots (occupancy : NativeIvTableOccupancyGrid)
    (row column rowspan colspan : ℤ) : NativeIvTableOccupancyGrid :=
  markTableSlots occupancy row column rowspan colspan

/-- `NativeIvTableColumnCount`. -/
def nativeIvTableColumnCount (occupancy : NativeIvTableOccupancyGrid) : ℤ :=
  tableGridColumnCount occupancy

/-! ## Prepared tables -/

/-- `TableAlignment` of a prepared table. -/
inductive PreparedTableAlignment
  | none | left | center | right

/-- `PreparedTableCellVerticalAlignment`. -/
inductive PreparedTableCellVerticalAlignment
  | top | middle | bottom

variable {Text Rich State Path : Type}

/-- `NativeIvTableAlignment`. -/
def nativeIvTableAlignment (cell : TableCell Text) : PreparedTableAlignment :=
  match cell.alignment with
  | .center => .center
  | .right => .right
  | .left => .left

/-- `NativeIvTableVerticalAlignment`. -/
def nativeIvTableVerticalAlignment (cell : TableCell Text) : PreparedTableCellVerticalAlignment :=
  match cell.verticalAlignment with
  | .middle => .middle
  | .bottom => .bottom
  | .top => .top

/-- The phrases that `ApplyNativeIvEditPlaceholderText` sets for a cell. -/
inductive EditPlaceholderText
  | empty | lngArticleTableHeader | lngArticlePlaceholderCell

/-- `PreparedEditTableCellSource`. -/
structure PreparedEditTableCellSource (Path : Type) where
  block : Path
  tableRowIndex : ℤ
  tableCellIndex : ℤ
  column : ℤ
  colspan : ℤ
  rowspan : ℤ

/-- `PreparedEditLeafSource` of the text of a cell. -/
structure PreparedEditLeafSource (Path : Type) where
  block : Path
  tableRowIndex : ℤ
  tableCellIndex : ℤ

/-- `PreparedTableCell`; `rich` are its text and links, where the cell has a text. -/
structure PreparedTableCell (Rich Path : Type) where
  rich : Option Rich
  column : ℤ
  alignment : PreparedTableAlignment
  header : Bool
  verticalAlignment : PreparedTableCellVerticalAlignment
  colspan : ℤ
  rowspan : ℤ
  editCell : PreparedEditTableCellSource Path
  editLeaf : PreparedEditLeafSource Path
  editPlaceholderText : EditPlaceholderText

/-- `PreparedTableRow`; `editRow` is the source of the row. -/
structure PreparedTableRow (Rich Path : Type) where
  cells : List (PreparedTableCell Rich Path)
  header : Bool
  editRow : Path × ℤ

/-- What a `PreparedBlock` has for a table. -/
structure PreparedTableBlock (Rich Path : Type) where
  title : Rich
  tableRows : List (PreparedTableRow Rich Path)
  tableColumnCount : ℤ
  tableAlignments : List PreparedTableAlignment

/-- Why a table is not prepared: a vector of a negative size, or a text that is refused. -/
inductive PrepareFailure
  | lengthError | textRefused

/-- `PrepareNativeIvRichText`, for the title of a table and for a text in a cell. -/
structure TextPreparer (Text Rich State : Type) where
  empty : Text → Bool
  prepareTitle : State → Text → Option (Rich × State)
  prepareCell : State → Text → (header : Bool) → Option (Rich × State)

/-! ## `PrepareCanonicalNativeIvTableBlock` -/

/-- What the loop over the cells of a row goes on with. -/
structure PreparingRow (Rich State Path : Type) where
  occupancy : NativeIvTableOccupancyGrid
  occupiedSlotCountSoFar : ℤ
  cells : List (PreparedTableCell Rich Path)
  state : State

/-- The text of a cell is prepared, unless it is empty. -/
def prepareText (preparer : TextPreparer Text Rich State) (state : State) (cell : TableCell Text) :
    Option (Option Rich × State) :=
  if preparer.empty cell.text then some (none, state)
  else (preparer.prepareCell state cell.text cell.header).map fun (rich, state) =>
    (some rich, state)

/-- `ApplyNativeIvEditPlaceholderText` for a cell, in the edit mode. -/
def nativeIvEditPlaceholderText (editMode : Bool) (cell : TableCell Text) : EditPlaceholderText :=
  if editMode = false then .empty
  else if cell.header then .lngArticleTableHeader
  else .lngArticlePlaceholderCell

/-- The body of the inner loop. -/
def prepareTableCell (preparer : TextPreparer Text Rich State)
    (limits : MarkdownPrepareTableRenderLimits) (editMode : Bool) (path : Path) (rowCount : ℤ)
    (rowIndex : ℕ) (preparing : PreparingRow Rich State Path) (cell : TableCell Text)
    (cellIndex : ℕ) : Except PrepareFailure (PreparingRow Rich State Path) :=
  let normalizedColspan := normalizeNativeIvTableSpan cell.colspan
  let rowspan := clampNativeIvTableRowspan cell.rowspan rowIndex rowCount
  if rowspan ≤ 0 then .ok preparing
  else
    let column := firstAvailableNativeIvTableColumn preparing.occupancy rowIndex rowspan
      normalizedColspan limits.maxColumns
    if column < 0 then .ok preparing
    else
      let colspan := clampNativeIvTableColspan normalizedColspan column limits.maxColumns
      if colspan ≤ 0 then .ok preparing
      else
        let occupiedSlotGrowth := rowspan * colspan
        if occupiedSlotGrowth > limits.maxCells
            ∨ preparing.occupiedSlotCountSoFar + occupiedSlotGrowth > limits.maxCells then
          .ok preparing
        else
          match prepareText preparer preparing.state cell with
          | none => .error .textRefused
          | some (rich, state) => .ok {
              occupancy :=
                markNativeIvTableSlots preparing.occupancy rowIndex column rowspan colspan
              occupiedSlotCountSoFar := preparing.occupiedSlotCountSoFar + occupiedSlotGrowth
              cells := preparing.cells ++ [{
                rich := rich
                column := column
                alignment := nativeIvTableAlignment cell
                header := cell.header
                verticalAlignment := nativeIvTableVerticalAlignment cell
                colspan := colspan
                rowspan := rowspan
                editCell := ⟨path, rowIndex, cellIndex, column, colspan, rowspan⟩
                editLeaf := ⟨path, rowIndex, cellIndex⟩
                editPlaceholderText := nativeIvEditPlaceholderText editMode cell }]
              state := state }

/-- What the loop over the rows goes on with. -/
structure PreparingTable (Rich State Path : Type) where
  occupancy : NativeIvTableOccupancyGrid
  occupiedSlotCountSoFar : ℤ
  tableRows : List (PreparedTableRow Rich Path)
  state : State

/-- The body of the outer loop.  The cells of a row are reserved first. -/
def prepareTableRow (preparer : TextPreparer Text Rich State)
    (limits : MarkdownPrepareTableRenderLimits) (editMode : Bool) (path : Path) (rowCount : ℤ)
    (preparing : PreparingTable Rich State Path) (row : TableRow Text) (rowIndex : ℕ) :
    Except PrepareFailure (PreparingTable Rich State Path) :=
  if min (row.cells.length : ℤ) limits.maxColumns < 0 then .error .lengthError
  else do
    let prepared ← row.cells.zipIdx.foldlM (fun preparing (cell, cellIndex) =>
      prepareTableCell preparer limits editMode path rowCount rowIndex preparing cell cellIndex)
      ⟨preparing.occupancy, preparing.occupiedSlotCountSoFar, [], preparing.state⟩
    .ok {
      occupancy := prepared.occupancy
      occupiedSlotCountSoFar := prepared.occupiedSlotCountSoFar
      tableRows := preparing.tableRows ++ [{
        cells := prepared.cells
        header := !prepared.cells.isEmpty && prepared.cells.all fun cell => cell.header
        editRow := (path, rowIndex) }]
      state := prepared.state }

/-- The alignments of the columns: each cell sets those of its columns. -/
def tableAlignments (tableColumnCount : ℤ) (tableRows : List (PreparedTableRow Rich Path)) :
    List PreparedTableAlignment :=
  (tableRows.flatMap fun row => row.cells).foldl (fun alignments cell =>
    (indices (max cell.column 0) (min (cell.column + cell.colspan) tableColumnCount)).foldl
      (fun alignments column => alignments.set column cell.alignment) alignments)
    (List.replicate tableColumnCount.toNat .left)

/-- `PrepareCanonicalNativeIvTableBlock`; the block is what it adds to the result, and a refused
text is where it returns `false`. -/
def prepareCanonicalNativeIvTableBlock (preparer : TextPreparer Text Rich State)
    (limits : MarkdownPrepareTableRenderLimits) (editMode : Bool) (path : Path) (state : State)
    (text : Text) (tableRows : List (TableRow Text)) :
    Except PrepareFailure (PreparedTableBlock Rich Path × State) :=
  match preparer.prepareTitle state text with
  | none => .error .textRefused
  | some (title, state) =>
    let rowCount := min (tableRows.length : ℤ) limits.maxRows
    if rowCount < 0 then .error .lengthError
    else do
      let prepared ← (tableRows.take rowCount.toNat).zipIdx.foldlM
        (fun preparing (row, rowIndex) =>
          prepareTableRow preparer limits editMode path rowCount preparing row rowIndex)
        ⟨List.replicate rowCount.toNat [], 0, [], state⟩
      let tableColumnCount := nativeIvTableColumnCount prepared.occupancy
      .ok ({
        title := title
        tableRows := prepared.tableRows
        tableColumnCount := tableColumnCount
        tableAlignments := tableAlignments tableColumnCount prepared.tableRows }, prepared.state)

/-! ## The view follows the editor -/

variable {preparer : TextPreparer Text Rich State} {limits : MarkdownPrepareTableRenderLimits}
  {editMode : Bool} {path : Path} {rowCount : ℤ} {rowIndex cellIndex : ℕ}
  {preparing preparing' : PreparingRow Rich State Path} {building : Building}
  {cell : TableCell Text} {done : List (PreparedTableCell Rich Path)}

/-- The place of a prepared cell, as the grid has it. -/
def PreparedTableCell.reference (cell : PreparedTableCell Rich Path) : TableGridCellReference where
  rowIndex := cell.editCell.tableRowIndex
  cellIndex := cell.editCell.tableCellIndex
  rowFrom := cell.editCell.tableRowIndex
  rowTill := cell.editCell.tableRowIndex + cell.rowspan
  columnFrom := cell.column
  columnTill := cell.column + cell.colspan

/-- A prepared cell has one address for the editor and for the view. -/
structure PreparedTableCell.Addressed (rowIndex : ℤ) (cell : PreparedTableCell Rich Path) :
    Prop where
  row : cell.editCell.tableRowIndex = rowIndex
  column : cell.editCell.column = cell.column
  colspan : cell.editCell.colspan = cell.colspan
  rowspan : cell.editCell.rowspan = cell.rowspan

/-- The two loops over the cells of a row are in step. -/
structure PreparingRow.Follows (rowIndex : ℕ) (done : List (PreparedTableCell Rich Path))
    (preparing : PreparingRow Rich State Path) (building : Building) : Prop where
  occupancy : preparing.occupancy = building.occupancy
  count : preparing.occupiedSlotCountSoFar = building.occupiedSlotCountSoFar
  cells : (done ++ preparing.cells).map PreparedTableCell.reference = building.cells
  addressed : ∀ cell ∈ preparing.cells, cell.Addressed rowIndex

/-- **A cell is placed by both in the same way**, unless its text is refused. -/
theorem PreparingRow.Follows.step (h : preparing.Follows rowIndex done building)
    (hprepared : prepareTableCell preparer limits editMode path rowCount rowIndex preparing cell
      cellIndex = .ok preparing') :
    preparing'.Follows rowIndex done (placeCell rowCount limits.maxColumns limits.admits building
      rowIndex cellIndex cell) := by
  have hadmits : ∀ soFar growth, limits.admits soFar growth = false
      ↔ growth > limits.maxCells ∨ soFar + growth > limits.maxCells := by
    intro soFar growth
    simp [MarkdownPrepareTableRenderLimits.admits, or_iff_not_imp_left]
  unfold prepareTableCell at hprepared
  unfold placeCell
  simp only [normalizeNativeIvTableSpan, clampNativeIvTableRowspan, clampNativeIvTableColspan,
    firstAvailableNativeIvTableColumn, markNativeIvTableSlots, h.occupancy, h.count] at hprepared
  simp only [hadmits]
  split_ifs at hprepared ⊢ with hrowspan hcolumn hcolspan hcells
  · exact Except.ok.inj hprepared ▸ h
  · exact Except.ok.inj hprepared ▸ h
  · exact Except.ok.inj hprepared ▸ h
  · exact Except.ok.inj hprepared ▸ h
  · cases htext : prepareText preparer preparing.state cell with
    | none => rw [htext] at hprepared; exact absurd hprepared (fun h => by cases h)
    | some prepared =>
      rw [htext] at hprepared
      obtain rfl := Except.ok.inj hprepared
      refine ⟨rfl, rfl, ?_, ?_⟩
      · rw [← List.append_assoc, List.map_append, h.cells]
        rfl
      · intro cell' hmem
        rcases List.mem_append.1 hmem with hold | hnew
        · exact h.addressed cell' hold
        · obtain rfl := List.mem_singleton.1 hnew
          exact ⟨rfl, rfl, rfl, rfl⟩

/-- The two loops over the rows are in step. -/
structure PreparingTable.Follows (preparing : PreparingTable Rich State Path)
    (building : Building) : Prop where
  occupancy : preparing.occupancy = building.occupancy
  count : preparing.occupiedSlotCountSoFar = building.occupiedSlotCountSoFar
  cells : (preparing.tableRows.flatMap fun row => row.cells).map PreparedTableCell.reference =
    building.cells

/-- The rows are prepared in their order, and their cells are addressed by them. -/
structure PreparingTable.Addressed (preparing : PreparingTable Rich State Path) (rows : List ℤ) :
    Prop where
  rows : (preparing.tableRows.map fun row => row.editRow.2) = rows
  addressed : ∀ row ∈ preparing.tableRows, ∀ cell ∈ row.cells, cell.Addressed row.editRow.2

variable {table table' : PreparingTable Rich State Path} {row : TableRow Text}

/-- **A row is placed by both in the same way**, unless a text in it is refused. -/
theorem PreparingTable.Follows.step (h : table.Follows building)
    (hprepared : prepareTableRow preparer limits editMode path rowCount table row rowIndex =
      .ok table') :
    table'.Follows (placeRow rowCount limits.maxColumns limits.admits building rowIndex row)
      ∧ ∃ prepared, table'.tableRows = table.tableRows ++ [prepared]
        ∧ prepared.editRow.2 = (rowIndex : ℤ)
        ∧ ∀ cell ∈ prepared.cells, cell.Addressed rowIndex := by
  unfold prepareTableRow at hprepared
  split_ifs at hprepared
  obtain ⟨prepared, hcells, hprepared⟩ := bind_ok hprepared
  obtain rfl := Except.ok.inj hprepared
  have hrow : prepared.Follows rowIndex (table.tableRows.flatMap fun row => row.cells)
      (placeRow rowCount limits.maxColumns limits.admits building rowIndex row) := by
    refine foldlM_follows (fun a _ b c b' hfollows hstep => hfollows.step hstep) ?_ hcells
    refine ⟨h.occupancy, h.count, ?_, fun cell hmem => absurd hmem List.not_mem_nil⟩
    rw [List.append_nil, h.cells]
  refine ⟨⟨hrow.occupancy, hrow.count, ?_⟩, _, rfl, rfl, hrow.addressed⟩
  rw [List.flatMap_append, List.flatMap_singleton, hrow.cells]

/-- **The cells of a block are those of a grid**, by row, cell, column and spans, and stand in their
rows. -/
structure PreparedTableBlock.SameCells (block : PreparedTableBlock Rich Path) (grid : TableGrid) :
    Prop where
  cells : (block.tableRows.flatMap fun row => row.cells).map PreparedTableCell.reference =
    grid.cells
  columnCount : block.tableColumnCount = grid.columnCount
  rows : (block.tableRows.map fun row => row.editRow.2) =
    (List.range grid.rowCount.toNat).map fun rowIndex : ℕ => (rowIndex : ℤ)
  addressed : ∀ row ∈ block.tableRows, ∀ cell ∈ row.cells, cell.Addressed row.editRow.2

variable {tableRows : List (TableRow Text)} {state state' : State} {text : Text}
  {block : PreparedTableBlock Rich Path}

/-- Prepared rows are those of some state of the editor's loop. -/
theorem PreparingTable.exists_follows (table : PreparingTable Rich State Path) :
    ∃ building, table.Follows building :=
  ⟨⟨_, _, _⟩, rfl, rfl, rfl⟩

/-- A row is added with its index. -/
theorem PreparingTable.Addressed.step {rows : List ℤ} (h : table.Addressed rows)
    (hprepared : prepareTableRow preparer limits editMode path rowCount table row rowIndex =
      .ok table') : table'.Addressed (rows ++ [(rowIndex : ℤ)]) := by
  obtain ⟨building, hfollows⟩ := table.exists_follows
  obtain ⟨-, prepared, hadded, hindex, haddressed⟩ := hfollows.step hprepared
  constructor
  · rw [hadded, List.map_append, h.rows, List.map_singleton, hindex]
  · intro row hmem
    rw [hadded] at hmem
    rcases List.mem_append.1 hmem with hold | hnew
    · exact h.addressed row hold
    · obtain rfl := List.mem_singleton.1 hnew
      rw [hindex]
      exact haddressed

/-- **A prepared block has the cells of the grid** under the same limits. -/
theorem sameCells_of_prepared (hprepared : prepareCanonicalNativeIvTableBlock preparer limits
    editMode path state text tableRows = .ok (block, state')) :
    block.SameCells (buildTableGridWithin tableRows limits) := by
  unfold prepareCanonicalNativeIvTableBlock at hprepared
  cases htitle : preparer.prepareTitle state text with
  | none => rw [htitle] at hprepared; exact absurd hprepared (fun h => nomatch h)
  | some prepared =>
    rw [htitle] at hprepared
    dsimp only at hprepared
    split_ifs at hprepared with hnegative
    obtain ⟨table, hrows, hblock⟩ := bind_ok hprepared
    obtain ⟨rfl, -⟩ := Prod.mk.inj (Except.ok.inj hblock)
    have hfollows : table.Follows (placeRows (min (tableRows.length : ℤ) limits.maxRows)
        limits.maxColumns limits.admits tableRows) :=
      foldlM_follows (fun a _ b c b' h hstep => (h.step hstep).1) ⟨rfl, rfl, rfl⟩ hrows
    have haddressed : table.Addressed
        ((tableRows.take (min (tableRows.length : ℤ) limits.maxRows).toNat).zipIdx.foldl
          (fun rows entry => rows ++ [(entry.2 : ℤ)]) []) :=
      foldlM_follows (fun a _ b c b' h hstep => h.step hstep)
        ⟨rfl, fun row hmem => absurd hmem List.not_mem_nil⟩ hrows
    have hgrid : buildTableGridWithin tableRows limits =
        (placeRows (min (tableRows.length : ℤ) limits.maxRows) limits.maxColumns limits.admits
          tableRows).grid (min (tableRows.length : ℤ) limits.maxRows) := by
      rw [buildTableGridWithin, if_neg hnegative]
    rw [hgrid]
    refine ⟨hfollows.cells, ?_, ?_, haddressed.addressed⟩
    · exact congrArg tableGridColumnCount hfollows.occupancy
    · have hindices : ((tableRows.take (min (tableRows.length : ℤ)
          limits.maxRows).toNat).zipIdx.map Prod.snd) =
            List.range (min (tableRows.length : ℤ) limits.maxRows).toNat := by
        rw [List.zipIdx_map_snd, List.length_take, min_eq_left (by omega), List.range_eq_range']
      refine haddressed.rows.trans ?_
      rw [List.foldl_append_eq_append, List.nil_append, ← List.flatMap_def, ← List.map_eq_flatMap,
        Building.grid, ← hindices, List.map_map]
      rfl

/-- Why a table is not prepared: a negative limit, or a text that is refused. -/
def PrepareFailure.Explained (preparer : TextPreparer Text Rich State)
    (limits : MarkdownPrepareTableRenderLimits) : PrepareFailure → Prop
  | .lengthError => limits.maxRows < 0 ∨ limits.maxColumns < 0
  | .textRefused => (∃ state text, preparer.prepareTitle state text = none)
      ∨ ∃ state text header, preparer.prepareCell state text header = none

variable {failure : PrepareFailure}

theorem explained_of_prepareTableCell
    (hfailed : prepareTableCell preparer limits editMode path rowCount rowIndex preparing cell
      cellIndex = .error failure) : failure.Explained preparer limits := by
  unfold prepareTableCell at hfailed
  dsimp only at hfailed
  split_ifs at hfailed
  cases htext : prepareText preparer preparing.state cell with
  | some prepared => rw [htext] at hfailed; exact absurd hfailed (fun h => nomatch h)
  | none =>
    rw [htext] at hfailed
    obtain rfl := Except.error.inj hfailed
    refine .inr ⟨preparing.state, cell.text, cell.header, ?_⟩
    rw [prepareText] at htext
    split_ifs at htext
    exact Option.map_eq_none_iff.1 htext

theorem explained_of_prepareTableRow
    (hfailed : prepareTableRow preparer limits editMode path rowCount table row rowIndex =
      .error failure) : failure.Explained preparer limits := by
  unfold prepareTableRow at hfailed
  split_ifs at hfailed with hreserved
  · obtain rfl := Except.error.inj hfailed
    exact .inr (by omega)
  rcases of_bind_error hfailed with hcells | ⟨row, -, hadded⟩
  · exact foldlM_error (fun entry _ preparing failure hcell =>
      explained_of_prepareTableCell hcell) hcells
  · exact absurd hadded (fun h => nomatch h)

/-- **A table fails** for a negative limit, or for a text that is refused. -/
theorem explained_of_failed
    (hfailed : prepareCanonicalNativeIvTableBlock preparer limits editMode path state text
      tableRows = .error failure) : failure.Explained preparer limits := by
  unfold prepareCanonicalNativeIvTableBlock at hfailed
  cases htitle : preparer.prepareTitle state text with
  | none =>
    rw [htitle] at hfailed
    obtain rfl := Except.error.inj hfailed
    exact .inl ⟨state, text, htitle⟩
  | some prepared =>
    rw [htitle] at hfailed
    dsimp only at hfailed
    split_ifs at hfailed with hnegative
    · obtain rfl := Except.error.inj hfailed
      exact .inl (by omega)
    rcases of_bind_error hfailed with hrows | ⟨table, -, hblock⟩
    · exact foldlM_error (fun entry _ table failure hrow =>
        explained_of_prepareTableRow hrow) hrows
    · exact absurd hblock (fun h => nomatch h)

/-! ## The grids together -/

/-- **The grids of a table.**  The grid without limits is sound, is laid out by first fit within the
columns of the widest row, and has every cell of a row that no span from above reaches into, as wide
as it is.  Limits that hold the rows, the columns and the slots of the table leave it as it is, if
they have its columns or if it has all cells as wide as they are.  The view prepares the cells of
the grid under its limits, unless these are negative or a text is refused. -/
theorem table_grids (tableRows : List (TableRow Text))
    (hspans : ∀ row ∈ tableRows, spanSum row.cells < 2 ^ 31) :
    (buildTableGrid tableRows).Sound tableRows
      ∧ (buildTableGrid tableRows).FirstFit tableRows (tableMaxColumns tableRows)
      ∧ (∀ step ∈ steps tableRows, (buildTableGrid tableRows).Unreached step.rowIndex →
        ∃ ref ∈ (buildTableGrid tableRows).cells,
          ref.rowIndex = step.rowIndex ∧ ref.cellIndex = step.cellIndex
            ∧ ref.columnTill = ref.columnFrom + normalizeTableSpan step.cell.colspan)
      ∧ (∀ limits : MarkdownPrepareTableRenderLimits, (tableRows.length : ℤ) ≤ limits.maxRows →
        ((buildTableGrid tableRows).occupiedSlots.card : ℤ) ≤ limits.maxCells →
        limits.maxColumns = tableMaxColumns tableRows
          ∨ tableMaxColumns tableRows ≤ limits.maxColumns
            ∧ (buildTableGrid tableRows).Full tableRows →
        buildTableGridWithin tableRows limits = buildTableGrid tableRows)
      ∧ ∀ (preparer : TextPreparer Text Rich State) (limits : MarkdownPrepareTableRenderLimits)
          (editMode : Bool) (path : Path) (state : State) (text : Text),
        (∀ block state', prepareCanonicalNativeIvTableBlock preparer limits editMode path state text
            tableRows = .ok (block, state') →
          block.SameCells (buildTableGridWithin tableRows limits))
        ∧ ∀ failure, prepareCanonicalNativeIvTableBlock preparer limits editMode path state text
            tableRows = .error failure →
          failure.Explained preparer limits := by
  have hmax := tableMaxColumns_le hspans
  obtain ⟨hsound, hfit⟩ : (buildTableGrid tableRows).Sound tableRows
      ∧ (buildTableGrid tableRows).FirstFit tableRows (tableMaxColumns tableRows) := by
    rw [buildTableGrid_eq hspans]
    exact run_firstFit rfl hmax
  refine ⟨hsound, hfit, fun step hmem hunreached => ?_, fun limits hrows hcells hcolumns =>
    within_eq_of_fits hspans hrows hcells hcolumns, fun preparer limits editMode path state text =>
    ⟨fun block state' => sameCells_of_prepared, fun failure => explained_of_failed⟩⟩
  obtain ⟨row, hrow, hcell⟩ := mem_steps.1 hmem
  have hmemRow := List.mem_of_getElem? hrow
  have hwide := rowColumns_le_tableMaxColumns hmemRow
  rw [rowColumns_eq (hspans row hmemRow)] at hwide
  have hcount : (step.rowIndex : ℤ) < (buildTableGrid tableRows).rowCount := by
    rw [buildTableGrid_eq hspans]
    exact Int.ofNat_lt.2 (rowIndex_lt_of_mem_steps hmem)
  obtain ⟨ref, href, hindex, hplace, -, htill⟩ :=
    hfit.unreached hsound hrow hunreached hwide hcount hcell
  exact ⟨ref, href, hindex, hplace, htill⟩

/-- A cell of one column that is as high as a number of rows. -/
def sampleCell (rowspan : ℤ) : TableCell Unit := ⟨(), 1, rowspan, false, .left, .top⟩

/-- The grids of a table of one row. -/
theorem table_grids_row : (∀ row ∈ [TableRow.mk [sampleCell 1, sampleCell 1]],
      spanSum row.cells < 2 ^ 31)
    ∧ (buildTableGrid [TableRow.mk [sampleCell 1, sampleCell 1]]).Sound
      [TableRow.mk [sampleCell 1, sampleCell 1]] :=
  ⟨by decide, (@table_grids Unit Unit Unit Unit _ (by decide)).1⟩

/-- A cell two rows high over a cell. -/
def pushedOut : List (TableRow Unit) := [⟨[sampleCell 2]⟩, ⟨[sampleCell 1]⟩]

/-- Limits of two rows, of two columns and of four slots. -/
def twoByTwo : MarkdownPrepareTableRenderLimits := ⟨2, 2, 4, by decide⟩

/-- **A cell is left out**, and limits that hold the whole grid find place for it. -/
theorem pushed_out_cell : (∀ row ∈ pushedOut, spanSum row.cells < 2 ^ 31)
    ∧ (∀ ref ∈ (buildTableGrid pushedOut).cells, ref.rowIndex ≠ 1)
    ∧ (buildTableGrid pushedOut).rowCount ≤ twoByTwo.maxRows
    ∧ (buildTableGrid pushedOut).columnCount ≤ twoByTwo.maxColumns
    ∧ (buildTableGrid pushedOut).occupiedSlots.card ≤ twoByTwo.maxCells
    ∧ buildTableGridWithin pushedOut twoByTwo ≠ buildTableGrid pushedOut := by
  decide

end Yunogram.Iv.Markdown
