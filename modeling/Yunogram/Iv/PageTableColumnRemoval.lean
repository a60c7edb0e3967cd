import Yunogram.Iv.PageTableCells

/-!
# Iv/PageTableColumnRemoval — when the columns of a range are taken out of the grid, and no more

Cells within the range are erased one by one, the last one first, and those that stick out of it
narrowed.  Every cell that is left has the spans that it should have; but a cell that stood behind
one that comes later in its row may slide to the left, into the place of that one.
-/

open Machinery

namespace Yunogram.Iv.Editor

variable {Text : Type} {tableRows : List (TableRow Text)}
  {limits : MarkdownPrepareTableRenderLimits} {range : TableCellRange}

/-! ## The cells that are left -/

/-- The rows that narrowing leaves, and the cells that are to be erased. -/
def narrowed (tableRows : List (TableRow Text)) (range : TableCellRange)
    (reference : TableGridCellReference) : List (TableRow Text) :=
  modifyCell tableRows reference fun cell => { cell with
    colspan := max (reference.columnTill - reference.columnFrom
      - tableGridCellColumnIntersection reference range) 1 }

/-- A cell that sticks out of the range and is narrowed. -/
def isNarrowed (range : TableCellRange) (reference : TableGridCellReference) : Bool :=
  !tableGridCellContainedInRange reference range
    && decide (0 < tableGridCellColumnIntersection reference range)

theorem narrowCells_eq (tableRows : List (TableRow Text)) (range : TableCellRange)
    (selected : List TableGridCellReference) :
    narrowCells tableRows range selected =
      ((selected.filter (isNarrowed range)).foldl (narrowed · range ·) tableRows,
        selected.filter fun reference => tableGridCellContainedInRange reference range) := by
  have hrun : ∀ (tableRows : List (TableRow Text)) (toErase : List TableGridCellReference),
      selected.foldl (fun state reference =>
        if tableGridCellContainedInRange reference range then (state.1, state.2 ++ [reference])
        else
          let intersection := tableGridCellColumnIntersection reference range
          if intersection ≤ 0 then (state.1, state.2)
          else
            (modifyCell state.1 reference fun cell => { cell with
              colspan := max (reference.columnTill - reference.columnFrom - intersection) 1 },
              state.2)) (tableRows, toErase) =
        ((selected.filter (isNarrowed range)).foldl (narrowed · range ·) tableRows,
          toErase ++ selected.filter fun reference =>
            tableGridCellContainedInRange reference range) := by
    induction selected with
    | nil => exact fun _ _ => by simp
    | cons reference selected ih =>
      intro tableRows toErase
      rw [List.foldl_cons, List.filter_cons, List.filter_cons, isNarrowed]
      dsimp only
      by_cases hin : tableGridCellContainedInRange reference range = true
      · rw [if_pos hin, ih, if_pos hin, if_neg (by simp [hin]), List.append_assoc,
          List.singleton_append]
      · rw [if_neg hin, if_neg hin]
        by_cases hinter : tableGridCellColumnIntersection reference range ≤ 0
        · rw [if_pos hinter, ih, if_neg (by simp [hinter])]
        · rw [if_neg hinter, ih, if_pos (by simp at hin; simp [hin]; omega), List.foldl_cons]
          rfl
  exact (hrun tableRows []).trans (by rw [List.nil_append])

/-- The table that is left by the loops over the selected cells. -/
def eraseColumns (limits : MarkdownPrepareTableRenderLimits) (tableRows : List (TableRow Text))
    (range : TableCellRange) : List (TableRow Text) :=
  let selected := selectedTableGridCells (buildTableGridWithin tableRows limits) range
  let (tableRows, toErase) := narrowCells tableRows range selected
  (toErase.mergeSort erasedBefore).foldl eraseCell tableRows

/-- A tile is not within the columns of a range. -/
def keptColumn (range : TableCellRange) (placed : CellStep Text × Tile Text) : Bool :=
  !decide (range.columnFrom ≤ placed.2.columnFrom ∧ placed.2.columnTill ≤ range.columnTill)

/-- The step of a cell that is left: it is narrowed by the columns that are gone. -/
def stepLeft (range : TableCellRange) (placed : CellStep Text × Tile Text) : CellStep Text :=
  if tableGridCellIntersectsRange (refOf placed.1 placed.2) range
      && isNarrowed range (refOf placed.1 placed.2) then
    { placed.1 with cell := { placed.1.cell with
      colspan := max (placed.2.columnTill - placed.2.columnFrom
        - tableGridCellColumnIntersection (refOf placed.1 placed.2) range) 1 } }
  else placed.1

/-- Where a slot of the grid that is left was. -/
def columnLift (start till : ℤ) (slot : ℤ × ℤ) : ℤ × ℤ :=
  (slot.1, if slot.2 < start then slot.2 else slot.2 + (till - start))

theorem mem_cutColumns_iff {start till : ℤ} (hle : start ≤ till) {tile : Tile Text}
    {slot : ℤ × ℤ} :
    slot ∈ (tile.cutColumns start till).slots ↔ columnLift start till slot ∈ tile.slots := by
  rw [Tile.mem_slots, Tile.mem_slots]
  simp only [Tile.cutColumns, columnLift, cutLine]
  refine and_congr_right fun _ => ?_
  split_ifs <;> omega

/-- What a tile is once columns are gone. -/
theorem eq_cutColumns_of_withoutColumns {start till : ℤ} {tile tile' : Tile Text}
    (h : tile.withoutColumns start till = some tile') :
    ¬(start ≤ tile.columnFrom ∧ tile.columnTill ≤ till)
      ∧ tile.cutColumns start till = tile' := by
  rw [Tile.withoutColumns] at h
  split_ifs at h with hin
  exact ⟨hin, Option.some.inj h⟩

theorem length_eraseColumns :
    (eraseColumns limits tableRows range).length = tableRows.length := by
  rw [eraseColumns, narrowCells_eq]
  dsimp only
  rw [length_foldl_eraseCell]
  generalize (selectedTableGridCells (buildTableGridWithin tableRows limits) range).filter
    (isNarrowed range) = refs
  induction refs generalizing tableRows with
  | nil => rfl
  | cons ref refs ih => rw [List.foldl_cons, ih, narrowed, length_modifyCell]

/-- The tiles that are left lie where the grid was. -/
theorem bounds_withoutColumns (h0 : 0 ≤ range.columnFrom)
    (hlt : range.columnFrom < range.columnTill)
    (htill : range.columnTill ≤ (buildTableGridWithin tableRows limits).columnCount)
    (tile : Tile Text)
    (hmem : tile ∈ (layout tableRows (buildTableGridWithin tableRows limits)).filterMap
      (Tile.withoutColumns range.columnFrom range.columnTill)) :
    (0 ≤ tile.rowFrom ∧ tile.rowFrom ≤ tile.rowTill
        ∧ tile.rowTill ≤ limitedRowCount tableRows limits)
      ∧ (0 ≤ tile.columnFrom ∧ tile.columnFrom ≤ tile.columnTill
        ∧ tile.columnTill ≤ (buildTableGridWithin tableRows limits).columnCount
          - (range.columnTill - range.columnFrom))
      ∧ tile.columnTill ≤ limits.maxColumns := by
  obtain ⟨tile', hmem', hsome⟩ := List.mem_filterMap.1 hmem
  obtain ⟨-, rfl⟩ := eq_cutColumns_of_withoutColumns hsome
  have hbounds := layout_bounds hmem'
  dsimp only [Tile.cutColumns, cutLine]
  split_ifs <;> omega

section Whole

variable (hwhole : (buildTableGridWithin tableRows limits).Whole tableRows)

include hwhole

/-- The cells that are left, from the cells of a whole grid with their tiles. -/
theorem entriesFrom_eraseColumns (hrowFrom : range.rowFrom = 0)
    (hrowTill : range.rowTill = limitedRowCount tableRows limits) :
    entriesFrom 0 (eraseColumns limits tableRows range) =
      ((tiled tableRows limits).filter (keptColumn range)).map fun placed =>
        (stepLeft range placed).entry := by
  have herased : ∀ placed ∈ tiled tableRows limits,
      (tableGridCellIntersectsRange (refOf placed.1 placed.2) range
        && tableGridCellContainedInRange (refOf placed.1 placed.2) range) =
        !keptColumn range placed := by
    intro placed hmem
    have hbounds := layout_bounds (snd_mem_layout hwhole hmem)
    rw [keptColumn, Bool.not_not, Bool.eq_iff_iff, Bool.and_eq_true, decide_eq_true_eq]
    rw [tableGridCellIntersectsRange, tableGridCellContainedInRange]
    simp only [Bool.and_eq_true, decide_eq_true_eq]
    dsimp only [refOf]
    omega
  have hnarrowed : (((tiled tableRows limits).filter fun placed =>
      tableGridCellIntersectsRange (refOf placed.1 placed.2) range).filter fun placed =>
        isNarrowed range (refOf placed.1 placed.2)) =
      (tiled tableRows limits).filter fun placed =>
        tableGridCellIntersectsRange (refOf placed.1 placed.2) range
          && isNarrowed range (refOf placed.1 placed.2) := by
    rw [List.filter_filter]
    exact List.filter_congr fun _ _ => Bool.and_comm ..
  have hgone : (((tiled tableRows limits).filter fun placed =>
      tableGridCellIntersectsRange (refOf placed.1 placed.2) range).filter fun placed =>
        tableGridCellContainedInRange (refOf placed.1 placed.2) range) =
      (tiled tableRows limits).filter fun placed => !keptColumn range placed := by
    rw [List.filter_filter]
    exact List.filter_congr fun placed hmem => by rw [Bool.and_comm, herased placed hmem]
  have hsteps := steps_foldl_modifyCell_tiled hwhole (fun placed cell => { cell with
      colspan := max (placed.2.columnTill - placed.2.columnFrom
        - tableGridCellColumnIntersection (refOf placed.1 placed.2) range) 1 })
    fun placed => tableGridCellIntersectsRange (refOf placed.1 placed.2) range
      && isNarrowed range (refOf placed.1 placed.2)
  rw [eraseColumns, narrowCells_eq, selectedTableGridCells, cells_eq_map_tiled hwhole]
  simp only [List.filter_map, Function.comp_def, List.foldl_map]
  rw [hnarrowed, hgone]
  refine (entriesFrom_eraseCells hwhole (stepLeft range) hsteps (fun placed => ?_)
    fun placed => !keptColumn range placed).trans ?_
  · rw [stepLeft]
    split_ifs <;> exact ⟨rfl, rfl⟩
  · simp only [Bool.not_not]

/-- The tiles that are left, from the cells of a whole grid with their tiles. -/
theorem tiles_withoutColumns :
    (layout tableRows (buildTableGridWithin tableRows limits)).filterMap
        (Tile.withoutColumns range.columnFrom range.columnTill) =
      ((tiled tableRows limits).filter (keptColumn range)).map fun placed =>
        placed.2.cutColumns range.columnFrom range.columnTill := by
  rw [← map_snd_tiled hwhole, List.filterMap_map]
  refine filterMap_eq_map_filter fun placed _ => ?_
  rw [Function.comp, Tile.withoutColumns, keptColumn]
  split_ifs with hin hkept hkept
  · simp [hin] at hkept
  · rfl
  · rfl
  · simp [hin] at hkept

/-- **A tile that is cut** is what its narrowed cell is placed as. -/
theorem shaped_stepLeft (hrowFrom : range.rowFrom = 0)
    (hrowTill : range.rowTill = limitedRowCount tableRows limits)
    (hlt : range.columnFrom < range.columnTill) {placed : CellStep Text × Tile Text}
    (hmem : placed ∈ tiled tableRows limits) (hkept : keptColumn range placed) :
    Shaped (limitedRowCount tableRows limits) (stepLeft range placed).entry.1
      (stepLeft range placed).entry.2
      (placed.2.cutColumns range.columnFrom range.columnTill) := by
  have hshape : Shaped (limitedRowCount tableRows limits) placed.1.rowIndex placed.1.cell
      placed.2 := List.forall₂_zip hwhole.shaped hmem
  have hbounds := layout_bounds (snd_mem_layout hwhole hmem)
  have hcolumnTill := hshape.columnTill
  have hspan := one_le_normalizeTableSpan placed.1.cell.colspan
  rw [keptColumn, Bool.not_eq_true', decide_eq_false_iff_not] at hkept
  have hinter : tableGridCellColumnIntersection (refOf placed.1 placed.2) range =
      max (min placed.2.columnTill range.columnTill - max placed.2.columnFrom range.columnFrom) 0 :=
    rfl
  have hcut : ∀ line, cutLine range.columnFrom range.columnTill line =
      line - (min (max line range.columnFrom) range.columnTill - range.columnFrom) := fun line => by
    rw [cutLine]
    split_ifs <;> omega
  rw [stepLeft]
  split_ifs with hnarrow
  · refine ⟨hshape.content, hshape.rowFrom, hshape.rowTill, ?_⟩
    simp only [isNarrowed, Bool.and_eq_true, decide_eq_true_eq] at hnarrow
    simp only [Tile.cutColumns, CellStep.entry, hcut, normalizeTableSpan, hinter]
    omega
  · refine ⟨hshape.content, hshape.rowFrom, hshape.rowTill, ?_⟩
    have hzero : tableGridCellColumnIntersection (refOf placed.1 placed.2) range ≤ 0 := by
      rw [tableGridCellIntersectsRange, isNarrowed, tableGridCellContainedInRange] at hnarrow
      simp only [Bool.and_eq_true, Bool.not_eq_true', Bool.and_eq_false_iff, decide_eq_true_eq,
        decide_eq_false_iff_not, hinter] at hnarrow
      dsimp only [refOf] at hnarrow
      rw [hinter]
      omega
    simp only [Tile.cutColumns, CellStep.entry, hcut]
    omega

/-- The last column that is left is that of a tile that is. -/
theorem exists_lastColumnLeft (hrowCount : 0 < limitedRowCount tableRows limits)
    (h0 : 0 ≤ range.columnFrom) (hlt : range.columnFrom < range.columnTill)
    (htill : range.columnTill ≤ (buildTableGridWithin tableRows limits).columnCount)
    (hleft : range.columnTill - range.columnFrom <
      (buildTableGridWithin tableRows limits).columnCount) :
    ∃ tile ∈ layout tableRows (buildTableGridWithin tableRows limits),
      ¬(range.columnFrom ≤ tile.columnFrom ∧ tile.columnTill ≤ range.columnTill)
        ∧ cutLine range.columnFrom range.columnTill tile.columnTill =
          (buildTableGridWithin tableRows limits).columnCount
            - (range.columnTill - range.columnFrom) := by
  obtain ⟨column, hcolumn0, hcolumnLt, hlast⟩ : ∃ column : ℤ, 0 ≤ column
      ∧ column < (buildTableGridWithin tableRows limits).columnCount
      ∧ (range.columnTill < (buildTableGridWithin tableRows limits).columnCount
          ∧ column = (buildTableGridWithin tableRows limits).columnCount - 1
        ∨ range.columnTill = (buildTableGridWithin tableRows limits).columnCount
          ∧ column = range.columnFrom - 1) := by
    by_cases hend : range.columnTill < (buildTableGridWithin tableRows limits).columnCount
    · exact ⟨(buildTableGridWithin tableRows limits).columnCount - 1, by omega⟩
    · exact ⟨range.columnFrom - 1, by omega⟩
  obtain ⟨tile, hmem, hslot⟩ := hwhole.covered (0, column)
    (Finset.mem_product.2 ⟨Finset.mem_Ico.2 ⟨le_rfl, hrowCount⟩,
      Finset.mem_Ico.2 ⟨hcolumn0, hcolumnLt⟩⟩)
  have hbounds := layout_bounds hmem
  rw [Tile.mem_slots] at hslot
  dsimp only at hslot
  refine ⟨tile, hmem, by omega, ?_⟩
  rw [cutLine]
  split_ifs <;> omega

/-- **The grid that is left by columns** is the one without them exactly when the tiles that are
left are held in place. -/
theorem withoutColumns_iff (hrowFrom : range.rowFrom = 0)
    (hrowTill : range.rowTill = limitedRowCount tableRows limits)
    (hrowCount : 0 < limitedRowCount tableRows limits) (h0 : 0 ≤ range.columnFrom)
    (hlt : range.columnFrom < range.columnTill)
    (htill : range.columnTill ≤ (buildTableGridWithin tableRows limits).columnCount)
    (hleft : range.columnTill - range.columnFrom <
      (buildTableGridWithin tableRows limits).columnCount) :
    WithoutColumns limits tableRows (eraseColumns limits tableRows range) range.columnFrom
        range.columnTill
      ↔ AllHeld ∅ ((layout tableRows (buildTableGridWithin tableRows limits)).filterMap
        (Tile.withoutColumns range.columnFrom range.columnTill)) := by
  have hentries := entriesFrom_eraseColumns hwhole hrowFrom hrowTill
  have hcount : limitedRowCount (eraseColumns limits tableRows range) limits =
      limitedRowCount tableRows limits := by
    rw [limitedRowCount, length_eraseColumns, limitedRowCount]
  have hrows : ∀ step ∈ steps (eraseColumns limits tableRows range), (step.rowIndex : ℤ) <
      limitedRowCount (eraseColumns limits tableRows range) limits := fun step hmem => by
    have hentry : step.entry ∈ entriesFrom 0 (eraseColumns limits tableRows range) := by
      rw [← map_entry_steps]
      exact List.mem_map_of_mem hmem
    rw [hentries] at hentry
    obtain ⟨placed, hplaced, heq⟩ := List.mem_map.1 hentry
    have hlt := hwhole.rowIndex_lt _ (fst_mem_steps hwhole (List.mem_filter.1 hplaced).1)
    have hrowIndex : (stepLeft range placed).rowIndex = placed.1.rowIndex := by
      rw [stepLeft]
      split_ifs <;> rfl
    rw [hcount, ← show (stepLeft range placed).entry.1 = step.rowIndex from congrArg Prod.fst heq]
    change ((stepLeft range placed).rowIndex : ℤ) < _
    rwa [hrowIndex]
  have hshape : List.Forall₂ (fun (step : CellStep Text) tile =>
      Shaped (limitedRowCount (eraseColumns limits tableRows range) limits) step.rowIndex step.cell
        tile)
      (steps (eraseColumns limits tableRows range))
      ((layout tableRows (buildTableGridWithin tableRows limits)).filterMap
        (Tile.withoutColumns range.columnFrom range.columnTill)) := by
    rw [tiles_withoutColumns hwhole, hcount]
    refine (forall₂_steps_iff (R := fun entry tile => Shaped _ entry.1 entry.2 tile)
      hentries).2 fun placed hmem => ?_
    obtain ⟨hmem, hkept⟩ := List.mem_filter.1 hmem
    exact shaped_stepLeft hwhole hrowFrom hrowTill hlt hmem hkept
  have hbounds := @bounds_withoutColumns _ tableRows limits range h0 hlt htill
  have hclears : AllClear ∅ ((layout tableRows (buildTableGridWithin tableRows limits)).filterMap
      (Tile.withoutColumns range.columnFrom range.columnTill)) := by
    refine hwhole.clear_held.1.filterMap (columnLift range.columnFrom range.columnTill)
      (fun tile _ tile' hsome slot hslot => ?_)
      fun slot hslot => absurd hslot (Finset.notMem_empty slot)
    obtain ⟨-, rfl⟩ := eq_cutColumns_of_withoutColumns hsome
    exact (mem_cutColumns_iff hlt.le).1 hslot
  obtain ⟨last, hlast, hlastKept, hlastColumn⟩ :=
    exists_lastColumnLeft hwhole hrowCount h0 hlt htill hleft
  have hcells : (buildTableGridWithin tableRows limits).cells ≠ [] := by
    obtain ⟨ref, href, -⟩ := mem_layout hlast
    exact List.ne_nil_of_mem href
  have hareas := (hclears.sum_area_le limitedRowCount_nonneg (hleft.trans_le' (by omega)).le
    (fun tile hmem => (hbounds tile hmem).1) fun tile hmem =>
      ⟨(hbounds tile hmem).2.1.1, (hbounds tile hmem).2.1.2.1, by
        have hcolumnTill := (hbounds tile hmem).2.1.2.2
        omega⟩).trans (hwhole.card_le hcells)
  have hlayout := layout_eq_iff hrows hshape (fun tile hmem =>
    ⟨(hbounds tile hmem).2.1.1, (hbounds tile hmem).2.2⟩) hareas
  constructor
  · intro h
    exact (hlayout.1 h.layout).2
  · intro hheld
    have heq := hlayout.2 ⟨hclears, hheld⟩
    refine ⟨hcount, columnCount_eq hrows (by omega) ?_ ?_, heq⟩
    · rw [heq]
      exact fun tile hmem => (hbounds tile hmem).2.1.2.2
    · rw [heq]
      exact ⟨last.cutColumns range.columnFrom range.columnTill,
        List.mem_filterMap.2 ⟨last, hlast, if_neg hlastKept⟩, hlastColumn⟩

end Whole

end Yunogram.Iv.Editor
