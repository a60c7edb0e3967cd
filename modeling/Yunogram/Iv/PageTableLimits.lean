import Mathlib
import Yunogram.Iv.PageTableFirstFit

/-!
# Iv/PageTableLimits — limits that a table fits into leave its grid as it is

The grid with limits is that without, if the limits hold its rows and its slots and their columns
are those of the table, or more where all cells are as wide as they are.  Where a span from above
has pushed a cell out of the table, a wider limit does find place for it.
-/

open Machinery
open scoped Machinery.Computed

namespace Yunogram.Iv.Editor

variable {Text : Type} {tableRows : List (TableRow Text)} {building : Building}
  {grid : TableGrid} {rowCount maxColumns : ℤ}

/-- The slots that the occupancy of a grid has true. -/
def TableGrid.occupiedSlots (grid : TableGrid) : Finset (ℤ × ℤ) :=
  (Finset.Ico 0 grid.rowCount ×ˢ Finset.Ico 0 grid.columnCount).filter (Taken grid.occupancy)

/-- A grid that has all cells of the table, as wide as they are. -/
def TableGrid.Full (tableRows : List (TableRow Text)) (grid : TableGrid) : Prop :=
  ∀ step ∈ steps tableRows, ∃ ref ∈ grid.cells,
    ref.rowIndex = step.rowIndex ∧ ref.cellIndex = step.cellIndex
      ∧ ref.columnTill = ref.columnFrom + normalizeTableSpan step.cell.colspan

theorem tableMaxColumns_le (hspans : ∀ row ∈ tableRows, spanSum row.cells < 2 ^ 31) :
    tableMaxColumns tableRows ≤ intMax := by
  refine (foldl_max_le_iff rowColumns tableRows 0 intMax).2 ⟨by decide, fun row hmem => ?_⟩
  have hlt := hspans row hmem
  rw [rowColumns_eq hlt, intMax]
  omega

/-- The grid without limits is that of the loops. -/
theorem buildTableGrid_eq (hspans : ∀ row ∈ tableRows, spanSum row.cells < 2 ^ 31) :
    buildTableGrid tableRows = ((steps tableRows).foldl
      (place tableRows.length (tableMaxColumns tableRows) fun _ _ => true)
      (.start tableRows.length)).grid tableRows.length := by
  unfold buildTableGrid
  dsimp only
  split_ifs with hempty
  · have hsteps : steps tableRows = [] := by
      refine List.eq_nil_iff_forall_not_mem.2 fun step hmem => ?_
      obtain ⟨row, hrow, hcell⟩ := mem_steps.1 hmem
      have hlt := (List.getElem?_eq_some_iff.1 hrow).1
      have hlength := (List.getElem?_eq_some_iff.1 hcell).1
      have hmemRow := List.mem_of_getElem? hrow
      have hcells := length_le_spanSum row.cells
      have hcolumns := rowColumns_le_tableMaxColumns hmemRow
      rw [rowColumns_eq (hspans row hmemRow)] at hcolumns
      omega
    rw [hsteps, List.foldl_nil, Building.grid, Building.start]
    congr 1
    refine le_antisymm ((foldl_max_le_iff _ _ 0 _).1 le_rfl).1
      ((foldl_max_le_iff _ _ 0 _).2 ⟨le_rfl, fun row hmem => ?_⟩)
    rw [List.eq_of_mem_replicate hmem]
    rfl
  · rw [placeRows_eq, Int.toNat_natCast, List.take_length]

/-- The grid with limits that hold the rows is that of the loops. -/
theorem buildTableGridWithin_eq {limits : MarkdownPrepareTableRenderLimits}
    (hrows : (tableRows.length : ℤ) ≤ limits.maxRows) :
    buildTableGridWithin tableRows limits = ((steps tableRows).foldl
      (place tableRows.length limits.maxColumns limits.admits)
      (.start tableRows.length)).grid tableRows.length := by
  rw [buildTableGridWithin, min_eq_left hrows, if_neg (by omega), placeRows_eq, Int.toNat_natCast,
    List.take_length]

/-- A cell that ends inside of the columns is the same under more of them. -/
theorem refAt_congr {maxColumns' column : ℤ} {rowIndex cellIndex : ℕ} {cell : TableCell Text}
    (h0 : 0 ≤ column) (hend : column + normalizeTableSpan cell.colspan ≤ maxColumns)
    (hle : maxColumns ≤ maxColumns') :
    refAt rowCount maxColumns' rowIndex cellIndex cell column =
      refAt rowCount maxColumns rowIndex cellIndex cell column := by
  have hspan := one_le_normalizeTableSpan cell.colspan
  have hclamp : clampTableColspan (normalizeTableSpan cell.colspan) column maxColumns' =
      clampTableColspan (normalizeTableSpan cell.colspan) column maxColumns := by
    rw [clampTableColspan, clampTableColspan, clampTableSpan_eq h0 (by omega),
      clampTableSpan_eq h0 (by omega), normalizeTableSpan_normalizeTableSpan,
      min_eq_left (by omega), min_eq_left (by omega)]
  rw [refAt, refAt, hclamp]

/-- **A step under wider limits**, of a cell that is as wide as it is under narrower ones, places it
in the same way. -/
theorem placeCell_wider (hlength : (building.occupancy.length : ℤ) = rowCount)
    {rowIndex cellIndex : ℕ} {cell : TableCell Text} (hrow : (rowIndex : ℤ) < rowCount)
    {maxColumns' column : ℤ} (hmax : maxColumns' ≤ intMax) (hle : maxColumns ≤ maxColumns')
    (hend : column + normalizeTableSpan cell.colspan ≤ maxColumns)
    (hfirst : IsFirst (fun column => Free building.occupancy
      (refAt rowCount maxColumns rowIndex cellIndex cell column).slots) maxColumns column)
    {admits : ℤ → ℤ → Bool} (hadmits : admits building.occupiedSlotCountSoFar
      (refAt rowCount maxColumns rowIndex cellIndex cell column).area = true) :
    placeCell rowCount maxColumns' admits building rowIndex cellIndex cell =
      building.add (refAt rowCount maxColumns rowIndex cellIndex cell column) := by
  have hcongr : ∀ before, 0 ≤ before → before ≤ column →
      refAt rowCount maxColumns' rowIndex cellIndex cell before =
        refAt rowCount maxColumns rowIndex cellIndex cell before := fun before h0 hbefore =>
    refAt_congr h0 (by omega) hle
  have hfirst' : IsFirst (fun column => Free building.occupancy
      (refAt rowCount maxColumns' rowIndex cellIndex cell column).slots) maxColumns' column := by
    refine ⟨hfirst.nonneg, hfirst.lt.trans_le hle, ?_, fun before h0 hlt => ?_⟩
    · rw [hcongr column hfirst.nonneg le_rfl]
      exact hfirst.fits
    · rw [hcongr before h0 hlt.le]
      exact hfirst.first before h0 hlt
  rcases placeCell_cases hlength hrow hmax admits cellIndex cell with
    ⟨column', hcolumn', heq⟩ | ⟨hnone, -⟩
  · obtain rfl := hcolumn'.unique hfirst'
    rw [heq, hcongr column' hfirst.nonneg le_rfl, if_pos hadmits]
  · exact absurd hfirst'.fits (hnone column hfirst'.nonneg hfirst'.lt)

/-- The slots that are taken in a sound grid are as many as the loops have counted. -/
theorem Building.Sound.card_occupiedSlots (h : building.Sound rowCount maxColumns) :
    ((building.grid rowCount).occupiedSlots.card : ℤ) = building.occupiedSlotCountSoFar := by
  rw [h.count]
  congr 2
  ext slot
  rw [TableGrid.occupiedSlots, Finset.mem_filter, Finset.mem_product, Finset.mem_Ico,
    Finset.mem_Ico, ← h.taken]
  refine ⟨fun hslot => hslot.2, fun htaken => ⟨?_, htaken⟩⟩
  obtain ⟨_, hmem, hslot⟩ := mem_covered.1 ((h.taken slot).1 htaken)
  obtain ⟨ref, href, rfl⟩ := List.mem_map.1 hmem
  have hrows := h.rows ref href
  have hcolumns := h.columns ref href
  have hwide := (h.wide ref href).trans length_le_tableGridColumnCount
  rw [mem_slots] at hslot
  change (0 ≤ slot.1 ∧ slot.1 < rowCount)
    ∧ 0 ≤ slot.2 ∧ slot.2 < tableGridColumnCount building.occupancy
  omega

/-- Cells that are added take slots that are counted. -/
theorem Building.Sound.count_le {building' : Building} (h : building.Sound rowCount maxColumns)
    (h' : building'.Sound rowCount maxColumns) {later : List TableGridCellReference}
    (hcells : building'.cells = building.cells ++ later) :
    building.occupiedSlotCountSoFar ≤ building'.occupiedSlotCountSoFar := by
  rw [h.count, h'.count, hcells, List.map_append]
  refine Int.ofNat_le.2 (Finset.card_le_card fun slot hslot => ?_)
  obtain ⟨set, hmem, hin⟩ := mem_covered.1 hslot
  exact mem_covered.2 ⟨set, List.mem_append_left _ hmem, hin⟩

/-- Slots that keep the number of slots within the limit are admitted. -/
theorem admits_of_le {limits : MarkdownPrepareTableRenderLimits} {soFar growth : ℤ}
    (hsoFar : 0 ≤ soFar) (h : soFar + growth ≤ limits.maxCells) :
    limits.admits soFar growth = true := by
  rw [MarkdownPrepareTableRenderLimits.admits, decide_eq_false (by omega),
    decide_eq_false (by omega)]
  rfl

/-- **A step within the limits** does what a step without them does, where the columns are the same
or the cell is placed as wide as it is. -/
theorem place_within (hsound : building.Sound rowCount maxColumns) (hmax : maxColumns ≤ intMax)
    {step : CellStep Text} (hrow : (step.rowIndex : ℤ) < rowCount)
    {limits : MarkdownPrepareTableRenderLimits}
    (hcount : (place rowCount maxColumns (fun _ _ => true) building step).occupiedSlotCountSoFar
      ≤ limits.maxCells)
    (hcolumns : limits.maxColumns = maxColumns ∨ maxColumns ≤ limits.maxColumns
      ∧ ∃ ref ∈ (place rowCount maxColumns (fun _ _ => true) building step).cells,
        ref ∉ building.cells
          ∧ ref.columnTill = ref.columnFrom + normalizeTableSpan step.cell.colspan) :
    place rowCount limits.maxColumns limits.admits building step =
      place rowCount maxColumns (fun _ _ => true) building step := by
  have hsoFar : 0 ≤ building.occupiedSlotCountSoFar := by
    rw [hsound.count]
    exact Int.natCast_nonneg _
  unfold place at hcount hcolumns ⊢
  rcases placeCell_cases hsound.length hrow hmax (fun _ _ => true) step.cellIndex step.cell with
    ⟨column, hfirst, heq⟩ | ⟨hnone, heq⟩
  · rw [if_pos rfl] at heq
    rw [heq] at hcount hcolumns ⊢
    have hadmits := admits_of_le hsoFar hcount
    rcases hcolumns with hsame | ⟨hle, ref, hmem, hnew, hwide⟩
    · rw [hsame]
      rcases placeCell_cases hsound.length hrow hmax limits.admits step.cellIndex step.cell with
        ⟨column', hcolumn', heq'⟩ | ⟨hnone, -⟩
      · obtain rfl := hcolumn'.unique hfirst
        rw [heq', if_pos hadmits]
      · exact absurd hfirst.fits (hnone column hfirst.nonneg hfirst.lt)
    · obtain rfl := List.mem_singleton.1 ((List.mem_append.1 hmem).resolve_left hnew)
      have hend : column + clampTableColspan (normalizeTableSpan step.cell.colspan) column
          maxColumns ≤ maxColumns := add_clampTableSpan_le hfirst.nonneg hfirst.lt _
      exact placeCell_wider hsound.length hrow limits.maxColumns_le hle (hwide ▸ hend) hfirst
        hadmits
  · rw [heq] at hcolumns ⊢
    rcases hcolumns with hsame | ⟨-, ref, hmem, hnew, -⟩
    · rw [hsame]
      rcases placeCell_cases hsound.length hrow hmax limits.admits step.cellIndex step.cell with
        ⟨column', hcolumn', -⟩ | ⟨-, heq'⟩
      · exact absurd hcolumn'.fits (hnone column' hcolumn'.nonneg hcolumn'.lt)
      · exact heq'
    · exact absurd hmem hnew

/-- **Limits that a table fits into leave its grid as it is.** -/
theorem within_eq_of_fits (hspans : ∀ row ∈ tableRows, spanSum row.cells < 2 ^ 31)
    {limits : MarkdownPrepareTableRenderLimits} (hrows : (tableRows.length : ℤ) ≤ limits.maxRows)
    (hcells : ((buildTableGrid tableRows).occupiedSlots.card : ℤ) ≤ limits.maxCells)
    (hcolumns : limits.maxColumns = tableMaxColumns tableRows
      ∨ tableMaxColumns tableRows ≤ limits.maxColumns ∧ (buildTableGrid tableRows).Full tableRows) :
    buildTableGridWithin tableRows limits = buildTableGrid tableRows := by
  have hmax := tableMaxColumns_le hspans
  rw [buildTableGrid_eq hspans] at hcells hcolumns ⊢
  rw [buildTableGridWithin_eq hrows]
  have hindices : ∀ step ∈ steps tableRows, (step.rowIndex : ℤ) < (tableRows.length : ℤ) :=
    fun step hmem => Int.ofNat_lt.2 (rowIndex_lt_of_mem_steps hmem)
  have hstart : (Building.start tableRows.length).Sound tableRows.length
      (tableMaxColumns tableRows) := sound_start (Int.natCast_nonneg _) _
  have hfinal := hstart.run hmax (fun _ _ => true) hindices
  rw [hfinal.card_occupiedSlots] at hcells
  suffices hall : ∀ earlier after, steps tableRows = earlier ++ after →
      earlier.foldl (place tableRows.length limits.maxColumns limits.admits)
          (.start tableRows.length) =
        earlier.foldl (place tableRows.length (tableMaxColumns tableRows) fun _ _ => true)
          (.start tableRows.length) by
    rw [hall (steps tableRows) [] (List.append_nil _).symm]
  intro earlier
  induction earlier using List.reverseRecOn with
  | nil => exact fun _ _ => rfl
  | append_singleton earlier step ih =>
    intro after hsplit
    rw [List.append_assoc, List.singleton_append] at hsplit
    obtain ⟨later, hlater, hbefore, hafter⟩ := hstart.split hmax (fun _ _ => true) hindices hsplit
    have hmem : step ∈ steps tableRows := by
      rw [hsplit]
      exact List.mem_append_right _ (List.mem_cons_self ..)
    have hat : (earlier.foldl (place tableRows.length (tableMaxColumns tableRows) fun _ _ => true)
        (.start tableRows.length)).Sound tableRows.length (tableMaxColumns tableRows) :=
      hstart.run hmax _ fun step' hmem' => hindices step' (by
        rw [hsplit]
        exact List.mem_append_left _ hmem')
    rw [List.foldl_append, List.foldl_append, ih _ hsplit, List.foldl_cons, List.foldl_nil,
      List.foldl_cons, List.foldl_nil]
    refine place_within hat hmax (hindices step hmem) ?_ (hcolumns.imp_right ?_)
    · exact ((hat.step hmax (hindices step hmem) _ _ _).count_le hfinal hlater).trans hcells
    · rintro ⟨hle, hfull⟩
      obtain ⟨ref, href, hrow, hcell, hwide⟩ := hfull step hmem
      have hself := not_before_self (step.rowIndex : ℤ) step.cellIndex
      rw [Building.grid, hlater, List.mem_append] at href
      refine ⟨hle, ref, href.resolve_right fun hmem => hself ?_, fun hmem => hself ?_, hwide⟩
      · have hnew := hafter ref hmem
        rwa [hrow, hcell] at hnew
      · have hold := hbefore ref hmem
        rwa [hrow, hcell] at hold

end Yunogram.Iv.Editor
