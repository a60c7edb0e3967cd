import Yunogram.Iv.FinalSubmit
import Yunogram.Iv.PageTableWhole

/-!
# Iv/RichMessageLimits — a message is checked against its limits

`iv_rich_page.cpp` walks over the blocks of a page, gathers its metrics and compares them with the
limits; the columns of a table are those that its cells take by first fit, measured up to one more
than are allowed.  `iv_markdown_prepare.cpp` makes the limits of the grid from those of the message.

The helpers are those of the editor's grid with sums of an `int`, which the clamps before them keep
in range.  The counts of a page are integers: each counts things that are in memory. -/

namespace Yunogram.Iv.RichMessage

open Editor (TableRow TableCell intMax normalizeTableSpan clampTableRowspan clampTableColspan
  indices markTableRow MarkdownPrepareTableRenderLimits)
open FinalSubmit (RichText GroupedMediaItem)
open SimpleText (BlockKind)

/-! ## Columns of a table -/

/-- `TableOccupancyGrid`. -/
abbrev TableOccupancyGrid := List (List Bool)

/-- `CanOccupyTableSlots`. -/
def canOccupyTableSlots (occupancy : TableOccupancyGrid) (row column rowspan colspan : ℤ) : Bool :=
  if row < 0 ∨ column < 0 ∨ rowspan ≤ 0 ∨ colspan ≤ 0 ∨ row ≥ occupancy.length then false
  else
    let rowLimit := min (row + rowspan) occupancy.length
    let columnLimit := column + colspan
    (indices row rowLimit).all fun currentRow =>
      let occupied := occupancy.getD currentRow []
      let occupiedLimit := min columnLimit occupied.length
      (indices column occupiedLimit).all fun currentColumn => !occupied.getD currentColumn false

/-- `FirstAvailableTableColumn`. -/
def firstAvailableTableColumn (occupancy : TableOccupancyGrid)
    (row rowspan colspan maxColumns : ℤ) : ℤ :=
  if row < 0 ∨ row ≥ occupancy.length ∨ rowspan ≤ 0 ∨ colspan ≤ 0 ∨ maxColumns ≤ 0 then -1
  else
    let found := (indices 0 maxColumns).find? fun column : ℕ =>
      let effectiveColspan := clampTableColspan colspan column maxColumns
      !decide (effectiveColspan ≤ 0)
        && canOccupyTableSlots occupancy row column rowspan effectiveColspan
    match found with
    | some column => column
    | none => -1

/-- `MarkTableSlots`. -/
def markTableSlots (occupancy : TableOccupancyGrid) (row column rowspan colspan : ℤ) :
    TableOccupancyGrid :=
  if row < 0 ∨ column < 0 ∨ rowspan ≤ 0 ∨ colspan ≤ 0 ∨ row ≥ occupancy.length then occupancy
  else
    let rowLimit := min (row + rowspan) occupancy.length
    let columnLimit := column + colspan
    occupancy.mapIdx fun currentRow occupied =>
      if row ≤ currentRow ∧ currentRow < rowLimit then markTableRow occupied column columnLimit
      else occupied

/-- `TableColumnCount`. -/
def tableColumnCount (occupancy : TableOccupancyGrid) : ℤ :=
  occupancy.foldl (fun result row => max result (row.length : ℤ)) 0

/-- `TableColumnMeasurementLimit`. -/
def tableColumnMeasurementLimit (maxTableCols : ℤ) : ℤ :=
  if maxTableCols ≤ 0 then 1
  else if maxTableCols = intMax then maxTableCols
  else maxTableCols + 1

variable {Text : Type}

/-- The body of the inner loop of `EffectiveTableColumns`; there is no value where the columns do
not hold the cell. -/
def measureCell (rowCount maxColumns : ℤ) (rowIndex : ℕ) (occupancy : TableOccupancyGrid)
    (cell : TableCell Text) : Option TableOccupancyGrid :=
  let normalizedColspan := normalizeTableSpan cell.colspan
  let rowspan := clampTableRowspan cell.rowspan rowIndex rowCount
  if rowspan ≤ 0 then some occupancy
  else
    let column := firstAvailableTableColumn occupancy rowIndex rowspan normalizedColspan maxColumns
    if column < 0 then none
    else
      let colspan := clampTableColspan normalizedColspan column maxColumns
      if colspan ≠ normalizedColspan then none
      else some (markTableSlots occupancy rowIndex column rowspan colspan)

/-- The loops of `EffectiveTableColumns`. -/
def measureRows (maxColumns : ℤ) (rows : List (TableRow Text)) : Option TableOccupancyGrid :=
  rows.zipIdx.foldlM (fun occupancy (row, rowIndex) =>
    row.cells.foldlM (measureCell rows.length maxColumns rowIndex) occupancy)
    (List.replicate rows.length [])

/-- `EffectiveTableColumns`. -/
def effectiveTableColumns (rows : List (TableRow Text)) (maxColumns : ℤ) : ℤ :=
  if rows.isEmpty ∨ maxColumns ≤ 0 then 0
  else
    match measureRows maxColumns rows with
    | some occupancy => tableColumnCount occupancy
    | none => maxColumns

/-! ## Metrics of a page -/

/-- What a `RichPage::Block` has of its own, as far as it is measured. -/
structure BlockData where
  kind : BlockKind
  text : RichText := {}
  caption : RichText := {}
  formula : QString := []
  mediaItems : List GroupedMediaItem := []
  tableRows : List (TableRow RichText) := []
  buttons : List RichText := []

/-- `RichPage::ListItem`, with blocks of such a type. -/
structure ListItem (Block : Type) where
  text : RichText := {}
  blocks : List Block := []

/-- `RichPage::Block`. -/
structure Block where
  own : BlockData
  blocks : List Block := []
  listItems : List (ListItem Block) := []

/-- `RichPage`. -/
structure RichPage where
  blocks : List Block := []

/-- `RichMessageMetrics`. -/
structure RichMessageMetrics where
  textLength : ℤ := 0
  blockCount : ℤ := 0
  maxDepth : ℤ := 0
  mediaCount : ℤ := 0
  maxTableColumns : ℤ := 0
  maxRowButtons : ℤ := 0
  tableColumnMeasurementLimit : ℤ := 0

/-- `IsMediaKind`. -/
def isMediaKind : BlockKind → Bool
  | .photo | .video | .audio | .file => true
  | _ => false

/-- `AccumulateTextLength`. -/
def accumulateTextLength (metrics : RichMessageMetrics) (text : QString) : RichMessageMetrics :=
  { metrics with textLength := metrics.textLength + text.length }

/-- One more block. -/
def countBlock (metrics : RichMessageMetrics) : RichMessageMetrics :=
  { metrics with blockCount := metrics.blockCount + 1 }

/-- One more of the media, if it is of such a kind. -/
def countMedia (metrics : RichMessageMetrics) (kind : BlockKind) : RichMessageMetrics :=
  if isMediaKind kind then { metrics with mediaCount := metrics.mediaCount + 1 } else metrics

/-- What `AccumulateBlockMetrics` does in front of the blocks below. -/
def accumulateFront (metrics : RichMessageMetrics) (own : BlockData) (depth : ℤ) :
    RichMessageMetrics :=
  let metrics := countBlock metrics
  let metrics := { metrics with maxDepth := max metrics.maxDepth depth }
  let metrics := accumulateTextLength metrics own.text.text.text
  let metrics := accumulateTextLength metrics own.caption.text.text
  let metrics := accumulateTextLength metrics own.formula
  let metrics := own.buttons.foldl
    (fun metrics button => accumulateTextLength metrics button.text.text) metrics
  let metrics := { metrics with maxRowButtons := max metrics.maxRowButtons own.buttons.length }
  countMedia metrics own.kind

/-- A row of a table is counted. -/
def accumulateRow (metrics : RichMessageMetrics) (row : TableRow RichText) : RichMessageMetrics :=
  row.cells.foldl (fun metrics cell => accumulateTextLength metrics cell.text.text.text)
    (countBlock metrics)

/-- What `AccumulateBlockMetrics` does after the blocks below. -/
def accumulateBack (metrics : RichMessageMetrics) (own : BlockData) : RichMessageMetrics :=
  let metrics := own.mediaItems.foldl (fun metrics item => countMedia metrics item.kind) metrics
  let metrics := own.tableRows.foldl accumulateRow metrics
  { metrics with
    maxTableColumns := max metrics.maxTableColumns
      (effectiveTableColumns own.tableRows metrics.tableColumnMeasurementLimit) }

mutual

/-- `AccumulateBlockMetrics`, of a block. -/
def accumulateBlock (metrics : RichMessageMetrics) : Block → ℤ → RichMessageMetrics
  | ⟨own, blocks, listItems⟩, depth =>
    let metrics := accumulateFront metrics own depth
    let metrics := accumulateBlockMetrics metrics blocks (depth + 1)
    let metrics := accumulateItems metrics listItems depth
    accumulateBack metrics own

/-- `AccumulateBlockMetrics`, of blocks. -/
def accumulateBlockMetrics (metrics : RichMessageMetrics) : List Block → ℤ → RichMessageMetrics
  | [], _ => metrics
  | block :: rest, depth => accumulateBlockMetrics (accumulateBlock metrics block depth) rest depth

/-- The loop over the items of a list. -/
def accumulateItem (metrics : RichMessageMetrics) : ListItem Block → ℤ → RichMessageMetrics
  | ⟨text, blocks⟩, depth =>
    accumulateBlockMetrics (accumulateTextLength (countBlock metrics) text.text.text) blocks
      (depth + 1)

/-- The loop over the items of a list. -/
def accumulateItems (metrics : RichMessageMetrics) :
    List (ListItem Block) → ℤ → RichMessageMetrics
  | [], _ => metrics
  | item :: rest, depth => accumulateItems (accumulateItem metrics item depth) rest depth

end

/-! ## Limits -/

/-- `RichMessageLimits`, whose fields are `int` values. -/
structure RichMessageLimits where
  lengthLimit : ℤ := 32768
  maxBlocks : ℤ := 500
  maxDepth : ℤ := 16
  maxMedia : ℤ := 50
  maxTableCols : ℤ := 20
  maxButtons : ℤ := 8
  maxTableCols_le : maxTableCols ≤ intMax := by decide

/-- `RichMessageLimitError`. -/
inductive RichMessageLimitError
  | length | blocks | depth | media | tableColumns | buttons
  deriving DecidableEq

/-- `ComputeRichMessageMetrics`. -/
def computeRichMessageMetrics (page : RichPage) (limits : RichMessageLimits) :
    RichMessageMetrics :=
  accumulateBlockMetrics
    { tableColumnMeasurementLimit := tableColumnMeasurementLimit limits.maxTableCols } page.blocks 1

/-- `ValidateRichMessage`. -/
def validateRichMessage (page : RichPage) (limits : RichMessageLimits) :
    Option RichMessageLimitError :=
  let metrics := computeRichMessageMetrics page limits
  if metrics.textLength > limits.lengthLimit then some .length
  else if metrics.blockCount > limits.maxBlocks then some .blocks
  else if metrics.maxDepth > limits.maxDepth then some .depth
  else if metrics.mediaCount > limits.maxMedia then some .media
  else if metrics.maxTableColumns > limits.maxTableCols then some .tableColumns
  else if metrics.maxRowButtons > limits.maxButtons then some .buttons
  else none

/-- `PositiveLimit`. -/
def positiveLimit (value fallback : ℤ) : ℤ := if value > 0 then value else fallback

/-- `LimitProduct`. -/
def limitProduct (a b : ℤ) : ℤ := min (a * b) intMax

theorem maxTableCols_le_default : (20 : ℤ) ≤ intMax := by decide

/-- `PrepareTableRenderLimitsForRichMessage`. -/
def prepareTableRenderLimitsForRichMessage (limits : RichMessageLimits) :
    MarkdownPrepareTableRenderLimits :=
  let fallback : RichMessageLimits := { maxTableCols_le := maxTableCols_le_default }
  let maxRows := positiveLimit limits.maxBlocks fallback.maxBlocks
  let maxColumns := positiveLimit limits.maxTableCols fallback.maxTableCols
  { maxRows
    maxColumns
    maxCells := limitProduct maxRows maxColumns
    maxColumns_le := by
      have hle := limits.maxTableCols_le
      unfold maxColumns positiveLimit
      split_ifs
      · exact hle
      · decide }

end Yunogram.Iv.RichMessage
