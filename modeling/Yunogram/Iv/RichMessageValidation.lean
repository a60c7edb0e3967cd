import Yunogram.Iv.RichMessageTables

/-!
# Iv/RichMessageValidation — a valid message has only tables that are laid out in full

The metrics of a page are gathered block by block.  Of a walk over blocks it is enough to know that
it counts the rows of every table and takes the most columns of all (`Gathers`); a table has no more
columns than are allowed if and only if its grid is full (`effectiveTableColumns_le_iff`).

The result is `valid_message_tables`. -/

open Machinery

namespace Yunogram.Iv.RichMessage

open Editor hiding canOccupyTableSlots firstAvailableTableColumn markTableSlots
open FinalSubmit (RichText)

/-! ## Tables -/

section Tables

variable {Text : Type} {tableRows : List (TableRow Text)}
  {limits : MarkdownPrepareTableRenderLimits}

theorem effectiveTableColumns_eq {maxColumns : ℤ} (h0 : 0 < maxColumns) :
    effectiveTableColumns tableRows maxColumns =
      match measureRows maxColumns tableRows with
      | some occupancy => tableColumnCount occupancy
      | none => maxColumns := by
  cases tableRows with
  | nil => rfl
  | cons row tableRows =>
    rw [effectiveTableColumns, if_neg (by simpa using h0)] <;> rfl

theorem Widens.sound {rowCount maxColumns : ℤ} {building building' : Building}
    {list : List (Editor.CellStep Text)} (h : Widens rowCount maxColumns building list building')
    (hsound : building.Sound rowCount maxColumns) (hmax : maxColumns ≤ intMax)
    (hrows : ∀ step ∈ list, (step.rowIndex : ℤ) < rowCount) :
    building'.Sound rowCount maxColumns := by
  induction h with
  | nil building => exact hsound
  | cons first wide _ ih =>
    obtain ⟨hrow, hrows⟩ := List.forall_mem_cons.1 hrows
    exact ih (hsound.add_refAt hmax hrow first.nonneg first.lt first.fits) hrows

/-- **A full grid has as many columns as are measured**, and no more than are allowed. -/
theorem columnCount_eq_of_full (h0 : 0 < limits.maxColumns) (hlt : limits.maxColumns < intMax)
    (hrowCount : (tableRows.length : ℤ) ≤ limits.maxRows)
    (hcells : tableRows.length * limits.maxColumns ≤ limits.maxCells)
    (hfull : (buildTableGridWithin tableRows limits).Full tableRows) :
    (buildTableGridWithin tableRows limits).columnCount =
        effectiveTableColumns tableRows (limits.maxColumns + 1)
      ∧ (buildTableGridWithin tableRows limits).columnCount ≤ limits.maxColumns := by
  have hstart := fun maxColumns : ℤ =>
    sound_start (Int.natCast_nonneg tableRows.length) maxColumns
  have hrows : ∀ step ∈ steps tableRows, (step.rowIndex : ℤ) < (tableRows.length : ℤ) :=
    fun step hmem => Int.ofNat_lt.2 (rowIndex_lt_of_mem_steps hmem)
  have hwidens := widens_of_full h0.le hrowCount hcells hfull
  have hsound := hwidens.sound (hstart _) limits.maxColumns_le hrows
  have hle : limits.maxColumns ≤ limits.maxColumns + 1 := by omega
  obtain ⟨hmore, -⟩ := (widens_iff hle fun ref hmem => absurd hmem List.not_mem_nil).1 hwidens
  have hmeasured := (foldlM_measure_iff (hstart (limits.maxColumns + 1)) (by omega) hrows).2
    ⟨_, hmore, rfl⟩
  constructor
  · rw [effectiveTableColumns_eq (by omega), measureRows_eq, buildTableGridWithin_eq hrowCount]
    rw [Int.toNat_natCast] at hmeasured
    rw [hmeasured]
    rfl
  · refine columnCount_le h0.le fun ref hmem => ?_
    rw [buildTableGridWithin_eq hrowCount] at hmem
    exact (hsound.columns ref hmem).2.2

/-- **A table has no more columns than are allowed if and only if its grid is full.** -/
theorem effectiveTableColumns_le_iff (h0 : 0 < limits.maxColumns) (hlt : limits.maxColumns < intMax)
    (hrowCount : (tableRows.length : ℤ) ≤ limits.maxRows)
    (hcells : tableRows.length * limits.maxColumns ≤ limits.maxCells) :
    effectiveTableColumns tableRows (limits.maxColumns + 1) ≤ limits.maxColumns ↔
      (buildTableGridWithin tableRows limits).Full tableRows := by
  constructor
  · intro hle
    have hrows : ∀ step ∈ steps tableRows, (step.rowIndex : ℤ) < (tableRows.length : ℤ) :=
      fun step hmem => Int.ofNat_lt.2 (rowIndex_lt_of_mem_steps hmem)
    have hstart := fun maxColumns : ℤ =>
      sound_start (Int.natCast_nonneg tableRows.length) maxColumns
    rw [effectiveTableColumns_eq (by omega), measureRows_eq] at hle
    cases hmeasured : (steps tableRows).foldlM (measure tableRows.length (limits.maxColumns + 1))
      (List.replicate tableRows.length []) with
    | none =>
      rw [hmeasured] at hle
      exact absurd hle (not_le.2 (lt_add_one limits.maxColumns))
    | some occupancy =>
      rw [hmeasured] at hle
      rw [← Int.toNat_natCast tableRows.length] at hmeasured
      obtain ⟨building, hwidens, rfl⟩ :=
        (foldlM_measure_iff (hstart (limits.maxColumns + 1)) (by omega) hrows).1 hmeasured
      have hsound := hwidens.sound (hstart _) (by omega) hrows
      have hfewer := (widens_iff (show limits.maxColumns ≤ limits.maxColumns + 1 by omega)
        fun ref hmem => absurd hmem List.not_mem_nil).2 ⟨hwidens, fun ref hmem =>
          ((hsound.wide ref hmem).trans length_le_tableGridColumnCount).trans hle⟩
      have hrun := hfewer.foldl_place (hstart _) h0.le hrows hcells
      rw [buildTableGridWithin_eq hrowCount]
      intro step hmem
      obtain ⟨ref, href, hindex⟩ := hfewer.exists_ref step hmem
      exact ⟨ref, hrun ▸ href, hindex⟩
  · intro hfull
    obtain ⟨heq, hle⟩ := columnCount_eq_of_full h0 hlt hrowCount hcells hfull
    exact heq ▸ hle

end Tables

/-! ## Blocks -/

mutual

/-- What the blocks of a page have of their own, at all depths. -/
def Block.owns : Block → List BlockData
  | ⟨own, blocks, listItems⟩ => ownsOf blocks ++ (ownsOfItems listItems ++ [own])

def ownsOf : List Block → List BlockData
  | [] => []
  | block :: rest => block.owns ++ ownsOf rest

def ListItem.owns : ListItem Block → List BlockData
  | ⟨_, blocks⟩ => ownsOf blocks

def ownsOfItems : List (ListItem Block) → List BlockData
  | [] => []
  | item :: rest => item.owns ++ ownsOfItems rest

end

/-- What a walk over blocks does to what is measured of their tables. -/
structure Gathers (owns : List BlockData) (metrics metrics' : RichMessageMetrics) : Prop where
  limit : metrics'.tableColumnMeasurementLimit = metrics.tableColumnMeasurementLimit
  blocks : metrics.blockCount ≤ metrics'.blockCount
  rows : ∀ own ∈ owns, metrics.blockCount + own.tableRows.length ≤ metrics'.blockCount
  columns : ∀ bound, metrics'.maxTableColumns ≤ bound ↔ metrics.maxTableColumns ≤ bound
    ∧ ∀ own ∈ owns,
      effectiveTableColumns own.tableRows metrics.tableColumnMeasurementLimit ≤ bound

section Walk

variable {owns owns' : List BlockData} {metrics metrics' metrics'' : RichMessageMetrics}

theorem Gathers.trans (h : Gathers owns metrics metrics') (h' : Gathers owns' metrics' metrics'') :
    Gathers (owns ++ owns') metrics metrics'' where
  limit := h'.limit.trans h.limit
  blocks := h.blocks.trans h'.blocks
  rows := List.forall_mem_append.2 ⟨fun own hmem => (h.rows own hmem).trans h'.blocks,
    fun own hmem => (Int.add_le_add_right h.blocks _).trans (h'.rows own hmem)⟩
  columns := fun bound => by
    rw [h'.columns, h.columns, h.limit, List.forall_mem_append, and_assoc]

theorem Gathers.onward (h : Gathers owns metrics metrics') (h' : Gathers [] metrics' metrics'') :
    Gathers owns metrics metrics'' :=
  List.append_nil owns ▸ h.trans h'

/-- What leaves the fields alone gathers nothing. -/
theorem Gathers.of_eq (hlimit : metrics'.tableColumnMeasurementLimit =
      metrics.tableColumnMeasurementLimit) (hblocks : metrics.blockCount ≤ metrics'.blockCount)
    (hcolumns : metrics'.maxTableColumns = metrics.maxTableColumns) :
    Gathers [] metrics metrics' where
  limit := hlimit
  blocks := hblocks
  rows := fun _ hmem => absurd hmem List.not_mem_nil
  columns := fun bound => by rw [hcolumns, and_iff_left fun _ hmem => absurd hmem List.not_mem_nil]

theorem Gathers.refl (metrics : RichMessageMetrics) : Gathers [] metrics metrics :=
  .of_eq rfl le_rfl rfl

theorem gathers_foldl {α : Type} {f : RichMessageMetrics → α → RichMessageMetrics}
    (hf : ∀ metrics a, Gathers [] metrics (f metrics a)) (list : List α)
    (metrics : RichMessageMetrics) : Gathers [] metrics (list.foldl f metrics) := by
  induction list generalizing metrics with
  | nil => exact .refl metrics
  | cons a list ih => exact (hf metrics a).trans (ih _)

theorem gathers_accumulateTextLength (metrics : RichMessageMetrics) (text : QString) :
    Gathers [] metrics (accumulateTextLength metrics text) := .of_eq rfl le_rfl rfl

theorem gathers_countBlock (metrics : RichMessageMetrics) :
    Gathers [] metrics (countBlock metrics) := .of_eq rfl (Int.le_add_one le_rfl) rfl

theorem gathers_countMedia (metrics : RichMessageMetrics) (kind : SimpleText.BlockKind) :
    Gathers [] metrics (countMedia metrics kind) := by
  unfold countMedia
  split_ifs <;> exact .of_eq rfl le_rfl rfl

theorem gathers_maxRowButtons (metrics : RichMessageMetrics) (maxRowButtons : ℤ) :
    Gathers [] metrics { metrics with maxRowButtons } := .of_eq rfl le_rfl rfl

theorem gathers_accumulateFront (metrics : RichMessageMetrics) (own : BlockData) (depth : ℤ) :
    Gathers [] metrics (accumulateFront metrics own depth) := by
  have hcounted : Gathers [] metrics
      { countBlock metrics with maxDepth := max metrics.maxDepth depth } :=
    .of_eq rfl (Int.le_add_one le_rfl) rfl
  have htexts := ((hcounted.onward (gathers_accumulateTextLength _ own.text.text.text)).onward
    (gathers_accumulateTextLength _ own.caption.text.text)).onward
      (gathers_accumulateTextLength _ own.formula)
  have hbuttons := htexts.onward (gathers_foldl (fun metrics (button : RichText) =>
    gathers_accumulateTextLength metrics button.text.text) own.buttons _)
  exact (hbuttons.onward (gathers_maxRowButtons _ _)).onward (gathers_countMedia _ own.kind)

/-- A row of a table is one more block. -/
theorem accumulateRow_spec (metrics : RichMessageMetrics) (row : TableRow RichText) :
    (accumulateRow metrics row).blockCount = metrics.blockCount + 1
      ∧ (accumulateRow metrics row).maxTableColumns = metrics.maxTableColumns
      ∧ (accumulateRow metrics row).tableColumnMeasurementLimit =
        metrics.tableColumnMeasurementLimit :=
  List.foldlRecOn row.cells _ (motive := fun result : RichMessageMetrics =>
    result.blockCount = metrics.blockCount + 1 ∧ result.maxTableColumns = metrics.maxTableColumns
      ∧ result.tableColumnMeasurementLimit = metrics.tableColumnMeasurementLimit)
    ⟨rfl, rfl, rfl⟩ fun _ h _ _ => h

theorem foldl_accumulateRow_spec (rows : List (TableRow RichText)) (metrics : RichMessageMetrics) :
    (rows.foldl accumulateRow metrics).blockCount = metrics.blockCount + rows.length
      ∧ (rows.foldl accumulateRow metrics).maxTableColumns = metrics.maxTableColumns
      ∧ (rows.foldl accumulateRow metrics).tableColumnMeasurementLimit =
        metrics.tableColumnMeasurementLimit := by
  induction rows generalizing metrics with
  | nil => exact ⟨(add_zero _).symm, rfl, rfl⟩
  | cons row rows ih =>
    obtain ⟨hblocks, hcolumns, hlimit⟩ := accumulateRow_spec metrics row
    obtain ⟨hblocks', hcolumns', hlimit'⟩ := ih (accumulateRow metrics row)
    refine ⟨?_, hcolumns'.trans hcolumns, hlimit'.trans hlimit⟩
    rw [List.foldl_cons, hblocks', hblocks, List.length_cons]
    push_cast
    ring

theorem gathers_accumulateBack (metrics : RichMessageMetrics) (own : BlockData) :
    Gathers [own] metrics (accumulateBack metrics own) := by
  have hmedia : Gathers [] metrics (own.mediaItems.foldl (fun metrics item =>
      countMedia metrics item.kind) metrics) :=
    gathers_foldl (fun metrics item => gathers_countMedia metrics _) _ _
  refine hmedia.trans ?_
  unfold accumulateBack
  dsimp only
  generalize own.mediaItems.foldl (fun metrics item => countMedia metrics item.kind) metrics =
    metrics
  obtain ⟨hblocks, hcolumns, hlimit⟩ := foldl_accumulateRow_spec own.tableRows metrics
  refine ⟨hlimit, ?_, List.forall_mem_singleton.2 hblocks.ge, fun bound => ?_⟩
  · exact (le_add_of_nonneg_right (Int.natCast_nonneg _)).trans_eq hblocks.symm
  · rw [← hcolumns, ← hlimit, List.forall_mem_singleton]
    exact max_le_iff

mutual

/-- **A walk over blocks** counts the rows of every table and takes the most columns of all. -/
theorem gathers_accumulateBlock (metrics : RichMessageMetrics) : (block : Block) → (depth : ℤ) →
    Gathers block.owns metrics (accumulateBlock metrics block depth)
  | ⟨own, blocks, listItems⟩, depth =>
    (gathers_accumulateFront metrics own depth).trans
      ((gathers_accumulateBlockMetrics _ blocks (depth + 1)).trans
        ((gathers_accumulateItems _ listItems depth).trans (gathers_accumulateBack _ own)))

theorem gathers_accumulateBlockMetrics (metrics : RichMessageMetrics) : (blocks : List Block) →
    (depth : ℤ) → Gathers (ownsOf blocks) metrics (accumulateBlockMetrics metrics blocks depth)
  | [], _ => .refl metrics
  | block :: rest, depth =>
    (gathers_accumulateBlock metrics block depth).trans
      (gathers_accumulateBlockMetrics _ rest depth)

theorem gathers_accumulateItem (metrics : RichMessageMetrics) : (item : ListItem Block) →
    (depth : ℤ) → Gathers item.owns metrics (accumulateItem metrics item depth)
  | ⟨text, blocks⟩, depth =>
    ((gathers_countBlock metrics).trans (gathers_accumulateTextLength _ text.text.text)).trans
      (gathers_accumulateBlockMetrics _ blocks (depth + 1))

theorem gathers_accumulateItems (metrics : RichMessageMetrics) :
    (listItems : List (ListItem Block)) → (depth : ℤ) →
      Gathers (ownsOfItems listItems) metrics (accumulateItems metrics listItems depth)
  | [], _ => .refl metrics
  | item :: rest, depth =>
    (gathers_accumulateItem metrics item depth).trans (gathers_accumulateItems _ rest depth)

end

end Walk

/-! ## The result -/

theorem validateRichMessage_eq_none {page : RichPage} {limits : RichMessageLimits}
    (h : validateRichMessage page limits = none) :
    (computeRichMessageMetrics page limits).blockCount ≤ limits.maxBlocks
      ∧ (computeRichMessageMetrics page limits).maxTableColumns ≤ limits.maxTableCols := by
  unfold validateRichMessage at h
  dsimp only at h
  split_ifs at h with _ hblocks _ _ hcolumns
  exact ⟨not_lt.1 hblocks, not_lt.1 hcolumns⟩

theorem validateRichMessage_eq_tableColumns {page : RichPage} {limits : RichMessageLimits}
    (h : validateRichMessage page limits = some .tableColumns) :
    (computeRichMessageMetrics page limits).blockCount ≤ limits.maxBlocks
      ∧ limits.maxTableCols < (computeRichMessageMetrics page limits).maxTableColumns := by
  unfold validateRichMessage at h
  dsimp only at h
  split_ifs at h with _ hblocks _ _ hcolumns <;> cases h
  exact ⟨not_lt.1 hblocks, hcolumns⟩

/-- **The tables of a message that is checked.**  Let there be columns allowed, and limits of which
the product is an `int`.  Of a valid message, every table at any depth is laid out with each cell as
wide as it is, in as many columns as were measured; of one that is refused for its columns, some
table is not. -/
theorem valid_message_tables (page : RichPage) (limits : RichMessageLimits)
    (h0 : 0 < limits.maxTableCols) (hlt : limits.maxTableCols < intMax)
    (hproduct : limits.maxBlocks * limits.maxTableCols ≤ intMax) :
    (validateRichMessage page limits = none → ∀ own ∈ ownsOf page.blocks,
      (buildTableGridWithin own.tableRows (prepareTableRenderLimitsForRichMessage limits)).Full
          own.tableRows
        ∧ (buildTableGridWithin own.tableRows
            (prepareTableRenderLimitsForRichMessage limits)).columnCount =
          effectiveTableColumns own.tableRows (tableColumnMeasurementLimit limits.maxTableCols))
    ∧ (validateRichMessage page limits = some .tableColumns → ∃ own ∈ ownsOf page.blocks,
      ¬(buildTableGridWithin own.tableRows (prepareTableRenderLimitsForRichMessage limits)).Full
          own.tableRows) := by
  have hgathers := gathers_accumulateBlockMetrics
    { tableColumnMeasurementLimit := tableColumnMeasurementLimit limits.maxTableCols } page.blocks 1
  have hmeasured : tableColumnMeasurementLimit limits.maxTableCols = limits.maxTableCols + 1 := by
    rw [tableColumnMeasurementLimit, if_neg (by omega), if_neg (by omega)]
  have hcolumns : (prepareTableRenderLimitsForRichMessage limits).maxColumns =
      limits.maxTableCols := if_pos h0
  -- Every table has its rows among the blocks, so the limits hold them.
  have hlimits : (computeRichMessageMetrics page limits).blockCount ≤ limits.maxBlocks →
      ∀ own ∈ ownsOf page.blocks,
        (own.tableRows.length : ℤ) ≤ (prepareTableRenderLimitsForRichMessage limits).maxRows
          ∧ own.tableRows.length * (prepareTableRenderLimitsForRichMessage limits).maxColumns ≤
            (prepareTableRenderLimitsForRichMessage limits).maxCells := by
    intro hblocks own hmem
    have hrows : (0 : ℤ) + own.tableRows.length ≤ limits.maxBlocks :=
      (hgathers.rows own hmem).trans hblocks
    rw [zero_add] at hrows
    have hle : (own.tableRows.length : ℤ) ≤
        (prepareTableRenderLimitsForRichMessage limits).maxRows := by
      change _ ≤ positiveLimit limits.maxBlocks 500
      unfold positiveLimit
      split_ifs with hpositive <;> omega
    refine ⟨hle, le_min (Int.mul_le_mul_of_nonneg_right hle (by omega)) ?_⟩
    rw [hcolumns]
    exact (Int.mul_le_mul_of_nonneg_right hrows h0.le).trans hproduct
  have hfull : (computeRichMessageMetrics page limits).blockCount ≤ limits.maxBlocks →
      ∀ own ∈ ownsOf page.blocks,
        (effectiveTableColumns own.tableRows (limits.maxTableCols + 1) ≤ limits.maxTableCols ↔
          (buildTableGridWithin own.tableRows
            (prepareTableRenderLimitsForRichMessage limits)).Full own.tableRows) := by
    intro hblocks own hmem
    obtain ⟨hrows, hcells⟩ := hlimits hblocks own hmem
    rw [← hcolumns]
    exact effectiveTableColumns_le_iff (hcolumns ▸ h0) (hcolumns ▸ hlt) hrows hcells
  rw [hmeasured] at hgathers ⊢
  constructor
  · intro hvalid own hmem
    obtain ⟨hblocks, hmost⟩ := validateRichMessage_eq_none hvalid
    rw [computeRichMessageMetrics, hmeasured] at hmost
    have hown := (hfull hblocks own hmem).1 (((hgathers.columns _).1 hmost).2 own hmem)
    obtain ⟨hrows, hcells⟩ := hlimits hblocks own hmem
    refine ⟨hown, (columnCount_eq_of_full (hcolumns ▸ h0) (hcolumns ▸ hlt) hrows hcells
      hown).1.trans ?_⟩
    rw [hcolumns]
  · intro hrefused
    obtain ⟨hblocks, hmost⟩ := validateRichMessage_eq_tableColumns hrefused
    rw [computeRichMessageMetrics, hmeasured] at hmost
    by_contra hnone
    refine not_le.2 hmost ((hgathers.columns _).2 ⟨h0.le, fun own hmem => ?_⟩)
    refine (hfull hblocks own hmem).2 (not_not.1 fun hnot => hnone ⟨own, hmem, hnot⟩)

/-- A cell of one row. -/
def sampleCell (colspan : ℤ) : TableCell RichText := ⟨{}, colspan, 1, false, .left, .top⟩

/-- A page with a table under a heading that can be folded. -/
def tablePage (tableRows : List (TableRow RichText)) : RichPage where
  blocks := [{ own := { kind := .details }, blocks := [{ own := { kind := .table, tableRows } }] }]

/-- A table of two columns is laid out, and one of twenty-one is refused. -/
theorem valid_message_tables_two :
    (buildTableGridWithin [⟨[sampleCell 2]⟩, ⟨[sampleCell 1, sampleCell 1]⟩]
        (prepareTableRenderLimitsForRichMessage {})).Full
          [⟨[sampleCell 2]⟩, ⟨[sampleCell 1, sampleCell 1]⟩]
      ∧ ∃ own ∈ ownsOf (tablePage [⟨[sampleCell 21]⟩]).blocks,
        ¬(buildTableGridWithin own.tableRows (prepareTableRenderLimitsForRichMessage {})).Full
          own.tableRows := by
  refine ⟨((valid_message_tables
    (tablePage [⟨[sampleCell 2]⟩, ⟨[sampleCell 1, sampleCell 1]⟩]) {} (by decide) (by decide)
      (by decide)).1 (by decide +kernel) ⟨.table, {}, {}, [], [], _, []⟩ ?_).1,
    (valid_message_tables (tablePage [⟨[sampleCell 21]⟩]) {} (by decide) (by decide)
      (by decide)).2 (by decide +kernel)⟩
  exact List.mem_cons_self

end Yunogram.Iv.RichMessage
