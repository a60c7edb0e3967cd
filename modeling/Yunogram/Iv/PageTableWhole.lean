import Yunogram.Iv.PageTableTiles

/-!
# Iv/PageTableWhole — whole grids, and tables that are laid out as given tiles

A grid is whole where no slot is free, no cell is skipped and no span is cut off.  The tiles of a
whole grid are clear of each other and held in place; and a table whose cells have the spans of
given tiles is laid out as these tiles exactly when they are (`layout_eq_iff`).
-/

open Machinery
open scoped Machinery.Computed

namespace Yunogram.Iv.Editor

variable {Text : Type} {tableRows : List (TableRow Text)} {rowCount : ℤ}
  {limits : MarkdownPrepareTableRenderLimits} {tiles : List (Tile Text)}

/-- A grid without a free slot, a skipped cell or a span that is cut off. -/
structure TableGrid.Whole (tableRows : List (TableRow Text)) (grid : TableGrid) : Prop where
  filled : ∀ slot ∈ Finset.Ico 0 grid.rowCount ×ˢ Finset.Ico 0 grid.columnCount,
    Taken grid.occupancy slot
  placed : ∀ step ∈ steps tableRows, ∃ ref ∈ grid.cells,
    ref.rowIndex = step.rowIndex ∧ ref.cellIndex = step.cellIndex
      ∧ ref.rowTill = ref.rowFrom + normalizeTableSpan step.cell.rowspan
      ∧ ref.columnTill = ref.columnFrom + normalizeTableSpan step.cell.colspan

/-! ## The run of a grid with limits -/

/-- The number of rows of a grid with limits. -/
def limitedRowCount (tableRows : List (TableRow Text)) (limits : MarkdownPrepareTableRenderLimits) :
    ℤ :=
  if min (tableRows.length : ℤ) limits.maxRows < 0 then 0
  else min (tableRows.length : ℤ) limits.maxRows

theorem rowCount_within : (buildTableGridWithin tableRows limits).rowCount =
    limitedRowCount tableRows limits := rfl

theorem limitedRowCount_nonneg : 0 ≤ limitedRowCount tableRows limits := by
  unfold limitedRowCount
  split_ifs <;> omega

theorem limitedRowCount_eq (h : (tableRows.length : ℤ) ≤ limits.maxRows) :
    limitedRowCount tableRows limits = tableRows.length := by
  rw [limitedRowCount, min_eq_left h, if_neg (by omega)]

/-- Rows without cells have no steps. -/
theorem steps_take {count : ℤ} (hrows : ∀ step ∈ steps tableRows, (step.rowIndex : ℤ) < count) :
    steps (tableRows.take count.toNat) = steps tableRows := by
  conv_rhs => rw [← List.take_append_drop count.toNat tableRows, steps, List.zipIdx_append,
    List.flatMap_append]
  rw [steps, List.self_eq_append_right, List.flatMap_eq_nil_iff]
  rintro ⟨row, rowIndex⟩ hmem
  rw [List.mk_mem_zipIdx_iff_le_and_getElem?_sub, zero_add, List.length_take,
    List.getElem?_drop] at hmem
  obtain ⟨hle, hrow⟩ := hmem
  have hlt := (List.getElem?_eq_some_iff.1 hrow).1
  rw [show count.toNat + (rowIndex - min count.toNat tableRows.length) = rowIndex by omega] at hrow
  refine List.map_eq_nil_iff.2 (List.eq_nil_iff_forall_not_mem.2 ?_)
  rintro ⟨cell, cellIndex⟩ hcell
  have hmem : (⟨rowIndex, cellIndex, cell⟩ : CellStep Text) ∈ steps tableRows :=
    mem_steps.2 ⟨row, hrow, List.mem_zipIdx_iff_getElem?.1 hcell⟩
  have hcount := hrows _ hmem
  dsimp only at hcount
  omega

/-- The grid with limits that leave no cell's row out is that of the loops. -/
theorem within_eq_run (hrows : ∀ step ∈ steps tableRows,
      (step.rowIndex : ℤ) < limitedRowCount tableRows limits) :
    buildTableGridWithin tableRows limits = ((steps tableRows).foldl
      (place (limitedRowCount tableRows limits) limits.maxColumns limits.admits)
      (.start (limitedRowCount tableRows limits))).grid (limitedRowCount tableRows limits) := by
  change (placeRows (limitedRowCount tableRows limits) limits.maxColumns limits.admits
    tableRows).grid (limitedRowCount tableRows limits) = _
  rw [placeRows_eq, steps_take hrows]

theorem start_sound (tableRows : List (TableRow Text)) (limits : MarkdownPrepareTableRenderLimits) :
    (Building.start (limitedRowCount tableRows limits)).Sound (limitedRowCount tableRows limits)
      limits.maxColumns :=
  sound_start limitedRowCount_nonneg _

/-- The steps are in the order of their rows. -/
theorem pairwise_rowIndex (tableRows : List (TableRow Text)) :
    (steps tableRows).Pairwise fun a b => a.rowIndex ≤ b.rowIndex :=
  (pairwise_steps tableRows).imp fun h => by
    unfold Before at h
    omega

/-! ## Layouts -/

/-- A reference is to the cell of a step. -/
def RefersTo (step : CellStep Text) (ref : TableGridCellReference) : Prop :=
  ref.rowIndex = step.rowIndex ∧ ref.cellIndex = step.cellIndex

/-- A reference to the cell of a step refers to it. -/
theorem referredCell_step {step : CellStep Text} (hmem : step ∈ steps tableRows)
    {ref : TableGridCellReference} (href : RefersTo step ref) :
    referredCell tableRows ref = some step.cell := by
  obtain ⟨row, hrow', hcell'⟩ := mem_steps.1 hmem
  rw [referredCell, href.1, href.2, Int.toNat_natCast, Int.toNat_natCast, hrow', Option.bind_some,
    hcell']

/-- References to cells in the order of some steps have their tiles in that order. -/
theorem forall₂_layout {placed : List (CellStep Text)} {refs : List TableGridCellReference}
    (hmem : ∀ step ∈ placed, step ∈ steps tableRows)
    (hof : List.Forall₂ RefersTo placed refs) :
    refs.filterMap (fun ref => (referredCell tableRows ref).map (tileOf ref)) =
      List.zipWith (fun step ref => tileOf ref step.cell) placed refs := by
  induction hof with
  | nil => rfl
  | cons hindex _ ih =>
    obtain ⟨hstep, hmem⟩ := List.forall_mem_cons.1 hmem
    rw [List.filterMap_cons, referredCell_step hstep hindex, Option.map_some,
      List.zipWith_cons_cons, ih hmem]

/-- References that are those of tiles have the tiles as their layout. -/
theorem zipWith_tileOf_refOf {list : List (CellStep Text)}
    (hshape : List.Forall₂ (fun (step : CellStep Text) tile =>
      Shaped rowCount step.rowIndex step.cell tile) list tiles) :
    List.zipWith (fun step ref => tileOf ref step.cell) list (List.zipWith refOf list tiles) =
      tiles := by
  induction hshape with
  | nil => rfl
  | cons hstep _ ih =>
    rw [List.zipWith_cons_cons, List.zipWith_cons_cons, ih, tileOf, ← hstep.content]
    rfl

theorem forall₂_refersTo {list : List (CellStep Text)}
    (hshape : List.Forall₂ (fun (step : CellStep Text) tile =>
      Shaped rowCount step.rowIndex step.cell tile) list tiles) :
    List.Forall₂ RefersTo list (List.zipWith refOf list tiles) := by
  induction hshape with
  | nil => exact .nil
  | cons _ _ ih => exact .cons ⟨rfl, rfl⟩ ih

/-- References that have tiles as their layout are those of the tiles. -/
theorem eq_zipWith_refOf {list : List (CellStep Text)} {refs : List TableGridCellReference}
    (hof : List.Forall₂ RefersTo list refs) :
    refs = List.zipWith refOf list
      (List.zipWith (fun step ref => tileOf ref step.cell) list refs) := by
  induction hof with
  | nil => rfl
  | @cons step ref _ _ hindex _ ih =>
    rw [List.zipWith_cons_cons, List.zipWith_cons_cons, ← ih, refOf, ← hindex.1, ← hindex.2]
    rfl

/-- The rectangle of a reference is that of its tile. -/
theorem slots_tileOf (ref : TableGridCellReference) (cell : TableCell Text) :
    (tileOf ref cell).slots = ref.slots := rfl

/-- **The cells of a grid with limits** are placed at some of the steps, in their order. -/
theorem cells_within (hrows : ∀ step ∈ steps tableRows,
      (step.rowIndex : ℤ) < limitedRowCount tableRows limits) :
    ∃ placed, placed.Sublist (steps tableRows)
      ∧ List.Forall₂ (fun (step : CellStep Text) ref => ∃ column,
          ref = refAt (limitedRowCount tableRows limits) limits.maxColumns step.rowIndex
            step.cellIndex step.cell column)
        placed (buildTableGridWithin tableRows limits).cells := by
  obtain ⟨placed, later, hlater, hsublist, hof⟩ :=
    run_sublist (start_sound tableRows limits) limits.maxColumns_le limits.admits hrows
  refine ⟨placed, hsublist, ?_⟩
  rw [within_eq_run hrows, Building.grid, hlater]
  exact hof

/-- The tiles that a table is laid out as are clear of those before them and held in place by
them. -/
theorem clear_held_of_layout (hrows : ∀ step ∈ steps tableRows,
      (step.rowIndex : ℤ) < limitedRowCount tableRows limits)
    (hshape : List.Forall₂ (fun (step : CellStep Text) tile =>
      Shaped (limitedRowCount tableRows limits) step.rowIndex step.cell tile)
        (steps tableRows) tiles)
    (hbounds : ∀ tile ∈ tiles, 0 ≤ tile.columnFrom ∧ tile.columnTill ≤ limits.maxColumns)
    (hlayout : layout tableRows (buildTableGridWithin tableRows limits) = tiles) :
    AllClear ∅ tiles ∧ AllHeld ∅ tiles := by
  obtain ⟨placed, hsublist, hof⟩ := cells_within hrows
  have hrefers := hof.imp fun step ref href => (show RefersTo step ref by
    obtain ⟨column, rfl⟩ := href
    exact ⟨rfl, rfl⟩)
  rw [layout, forall₂_layout (fun step hmem => hsublist.subset hmem) hrefers] at hlayout
  have hlength := congrArg List.length hlayout
  rw [List.length_zipWith, ← hof.length_eq, min_self, ← hshape.length_eq] at hlength
  obtain rfl := hsublist.eq_of_length hlength
  have hcells := eq_zipWith_refOf hrefers
  rw [hlayout, within_eq_run hrows, Building.grid] at hcells
  exact clear_held_of_run (start_sound tableRows limits) hshape hrows (pairwise_rowIndex tableRows)
    (fun ref hmem => absurd hmem List.not_mem_nil) hbounds hcells

/-- **A table is laid out as tiles** of its cells exactly when each tile is clear of those before it
and held in place by them. -/
theorem layout_eq_iff (hrows : ∀ step ∈ steps tableRows,
      (step.rowIndex : ℤ) < limitedRowCount tableRows limits)
    (hshape : List.Forall₂ (fun (step : CellStep Text) tile =>
      Shaped (limitedRowCount tableRows limits) step.rowIndex step.cell tile)
        (steps tableRows) tiles)
    (hbounds : ∀ tile ∈ tiles, 0 ≤ tile.columnFrom ∧ tile.columnTill ≤ limits.maxColumns)
    (hcount : (tiles.map Tile.area).sum ≤ limits.maxCells) :
    layout tableRows (buildTableGridWithin tableRows limits) = tiles
      ↔ AllClear ∅ tiles ∧ AllHeld ∅ tiles := by
  refine ⟨clear_held_of_layout hrows hshape hbounds, ?_⟩
  rintro ⟨hclears, hhelds⟩
  have hcells := run_eq_of_clear_held (start_sound tableRows limits) hshape hrows
    (pairwise_rowIndex tableRows) (fun ref hmem => absurd hmem List.not_mem_nil) hbounds
    (by rwa [Building.start, zero_add]) hclears hhelds
  rw [layout, within_eq_run hrows, Building.grid, hcells]
  exact (forall₂_layout (fun _ => id) (forall₂_refersTo hshape)).trans (zipWith_tileOf_refOf hshape)

/-! ## Whole grids -/

theorem nodup_steps (tableRows : List (TableRow Text)) : (steps tableRows).Nodup :=
  (pairwise_steps tableRows).imp fun {a b} hbefore heq => by
    rw [heq] at hbefore
    exact not_before_self _ _ hbefore

/-- One step is that of a cell. -/
theorem eq_of_mem_steps {step step' : CellStep Text} (hmem : step ∈ steps tableRows)
    (hmem' : step' ∈ steps tableRows) (hrow : step.rowIndex = step'.rowIndex)
    (hcell : step.cellIndex = step'.cellIndex) : step = step' := by
  have href := @referredCell_step _ _ _ hmem
    (refAt 0 0 step.rowIndex step.cellIndex step.cell 0) ⟨rfl, rfl⟩
  have href' := @referredCell_step _ _ _ hmem'
    (refAt 0 0 step.rowIndex step.cellIndex step.cell 0)
    ⟨congrArg Nat.cast hrow, congrArg Nat.cast hcell⟩
  have hsame := Option.some.inj (href.symm.trans href')
  cases step
  cases step'
  dsimp only at hrow hcell hsame
  rw [hrow, hcell, hsame]

/-- A tile has the content of a cell and its spans, none of them cut off. -/
structure Unclamped (step : CellStep Text) (tile : Tile Text) : Prop where
  content : tile.cell = step.cell.content
  rowFrom : tile.rowFrom = step.rowIndex
  rowTill : tile.rowTill = tile.rowFrom + normalizeTableSpan step.cell.rowspan
  columnTill : tile.columnTill = tile.columnFrom + normalizeTableSpan step.cell.colspan

/-- No row of the occupancy is wider than the cells. -/
def Building.Narrow (building : Building) : Prop :=
  ∀ bound : ℤ, 0 ≤ bound → (∀ ref ∈ building.cells, ref.columnTill ≤ bound) →
    ∀ n, ((building.occupancy.getD n []).length : ℤ) ≤ bound

theorem narrow_start (rowCount : ℤ) : (Building.start rowCount).Narrow := by
  intro bound h0 _ n
  rw [Building.start, List.getD_eq_getElem?_getD, List.getElem?_replicate]
  split_ifs <;> exact h0

/-- **A step keeps the rows narrow.** -/
theorem Building.Narrow.step {building : Building} {step : CellStep Text} {maxColumns : ℤ}
    (h : building.Narrow) (hsound : building.Sound rowCount maxColumns)
    (hmax : maxColumns ≤ intMax) (hrow : (step.rowIndex : ℤ) < rowCount) (admits : ℤ → ℤ → Bool) :
    (place rowCount maxColumns admits building step).Narrow := by
  rcases placeCell_cases hsound.length hrow hmax admits step.cellIndex step.cell with
    ⟨column, hcolumn, heq⟩ | ⟨-, heq⟩
  · rw [place, heq]
    split_ifs
    · intro bound h0 hall n
      have hr0 : (0 : ℤ) ≤ step.rowIndex := Int.natCast_nonneg _
      have hlength := hsound.length
      have hrows := clampTableSpan_pos hr0 hrow step.cell.rowspan
      have hrowsTill := add_clampTableSpan_le hr0 hrow step.cell.rowspan
      have hcolumns := clampTableSpan_pos hcolumn.nonneg hcolumn.lt
        (normalizeTableSpan step.cell.colspan)
      have hcolumnsTill := add_clampTableSpan_le hcolumn.nonneg hcolumn.lt
        (normalizeTableSpan step.cell.colspan)
      have hold := h bound h0 (fun ref hmem => hall ref (List.mem_append_left _ hmem)) n
      have hnew : column + clampTableColspan (normalizeTableSpan step.cell.colspan) column
          maxColumns ≤ bound :=
        hall (refAt rowCount maxColumns step.rowIndex step.cellIndex step.cell column)
          (List.mem_append_right _ (List.mem_singleton_self _))
      simp only [Building.add, refAt, add_sub_cancel_left, clampTableRowspan, clampTableColspan]
        at hnew ⊢
      rw [getD_markTableSlots hr0 hcolumn.nonneg hrows hcolumns (by rw [hlength]; exact hrowsTill)
        (hcolumnsTill.trans hmax)]
      split_ifs
      · rw [length_markTableRow]
        exact max_le hold hnew
      · exact hold
    · exact h
  · rwa [place, heq]

/-- A grid with limits is that of a sound state, within the limit of its slots. -/
theorem building_within (tableRows : List (TableRow Text))
    (limits : MarkdownPrepareTableRenderLimits) :
    ∃ building : Building, building.Sound (limitedRowCount tableRows limits) limits.maxColumns
      ∧ buildTableGridWithin tableRows limits = building.grid (limitedRowCount tableRows limits)
      ∧ (building.cells = [] ∨ building.occupiedSlotCountSoFar ≤ limits.maxCells)
      ∧ building.Narrow := by
  have hrows : ∀ step ∈ steps (tableRows.take (limitedRowCount tableRows limits).toNat),
      (step.rowIndex : ℤ) < limitedRowCount tableRows limits := fun step hmem => by
    have hlt := rowIndex_lt_of_mem_steps hmem
    rw [List.length_take] at hlt
    omega
  have hsound := (start_sound tableRows limits).run limits.maxColumns_le limits.admits hrows
  refine ⟨_, hsound, congrArg (Building.grid · _) (placeRows_eq ..), ?_⟩
  refine (List.foldlRecOn (motive := fun building : Building =>
    building.Sound (limitedRowCount tableRows limits) limits.maxColumns
      ∧ (building.cells = [] ∨ building.occupiedSlotCountSoFar ≤ limits.maxCells)
      ∧ building.Narrow) _ _
    ⟨start_sound tableRows limits, .inl rfl, narrow_start _⟩ ?_).2
  rintro building ⟨hbuilding, hcount, hnarrow⟩ step hmem
  have hrow := hrows step hmem
  refine ⟨hbuilding.step limits.maxColumns_le hrow limits.admits step.cellIndex step.cell, ?_,
    hnarrow.step hbuilding limits.maxColumns_le hrow limits.admits⟩
  rcases placeCell_cases hbuilding.length hrow limits.maxColumns_le limits.admits step.cellIndex
    step.cell with ⟨column, -, heq⟩ | ⟨-, heq⟩
  · rw [place, heq]
    split_ifs with hadmits
    · rw [MarkdownPrepareTableRenderLimits.admits, Bool.not_eq_true', Bool.or_eq_false_iff,
        decide_eq_false_iff_not, decide_eq_false_iff_not, not_lt, not_lt] at hadmits
      exact .inr hadmits.2
    · exact hcount
  · rw [place, heq]
    exact hcount

/-- A grid with limits is no wider than its cells. -/
theorem columnCount_le {bound : ℤ} (h0 : 0 ≤ bound)
    (hall : ∀ ref ∈ (buildTableGridWithin tableRows limits).cells, ref.columnTill ≤ bound) :
    (buildTableGridWithin tableRows limits).columnCount ≤ bound := by
  obtain ⟨building, -, hgrid, -, hnarrow⟩ := building_within tableRows limits
  rw [hgrid] at hall ⊢
  refine (foldl_max_le_iff _ _ 0 bound).2 ⟨h0, fun row hmem => ?_⟩
  obtain ⟨n, hn, rfl⟩ := List.getElem_of_mem hmem
  have hlength := hnarrow bound h0 hall n
  rwa [List.getD_eq_getElem?_getD, List.getElem?_eq_getElem hn] at hlength

theorem exists_left_of_mem {α β : Type} {R : α → β → Prop} {l : List α} {l' : List β}
    (h : List.Forall₂ R l l') {b : β} (hmem : b ∈ l') : ∃ a ∈ l, R a b := by
  induction h with
  | nil => exact absurd hmem List.not_mem_nil
  | @cons a _ l _ hR _ ih =>
    rcases List.mem_cons.1 hmem with rfl | hmem
    · exact ⟨a, List.mem_cons_self .., hR⟩
    · obtain ⟨a', hmem', hR'⟩ := ih hmem
      exact ⟨a', List.mem_cons_of_mem a hmem', hR'⟩

/-- What holds of a reference to each cell holds of the references in their order. -/
theorem forall₂_of_forall {P : CellStep Text → TableGridCellReference → Prop}
    {list : List (CellStep Text)} {refs : List TableGridCellReference}
    (horder : list.Pairwise fun a b => Before a.rowIndex a.cellIndex b.rowIndex b.cellIndex)
    (hof : List.Forall₂ RefersTo list refs)
    (hall : ∀ step ∈ list, ∃ ref ∈ refs, RefersTo step ref ∧ P step ref) :
    List.Forall₂ P list refs := by
  induction hof with
  | nil => exact .nil
  | @cons step ref list refs hindex hrest ih =>
    obtain ⟨hfirst, horder⟩ := List.pairwise_cons.1 horder
    obtain ⟨⟨ref', hmem, hindex', hP⟩, hall⟩ := List.forall_mem_cons.1 hall
    have hdistinct : ∀ step' ∈ list, ∀ ref', RefersTo step ref' → ¬RefersTo step' ref' := by
      intro step' hmem' ref' href href'
      have hbefore := hfirst step' hmem'
      rw [← href.1, ← href.2, ← href'.1, ← href'.2] at hbefore
      exact not_before_self _ _ hbefore
    refine .cons ?_ (ih horder fun step' hmem' => ?_)
    · rcases List.mem_cons.1 hmem with rfl | hmem
      · exact hP
      · obtain ⟨step', hmem', href'⟩ := exists_left_of_mem hrest hmem
        exact absurd href' (hdistinct step' hmem' ref' hindex')
    · obtain ⟨ref'', hmem'', hindex'', hP''⟩ := hall step' hmem'
      rcases List.mem_cons.1 hmem'' with rfl | hmem''
      · exact absurd hindex'' (hdistinct step' hmem' _ hindex)
      · exact ⟨ref'', hmem'', hindex'', hP''⟩

/-- The rows of the cells of a whole grid are within the limits. -/
theorem TableGrid.Whole.rowIndex_lt
    (hwhole : (buildTableGridWithin tableRows limits).Whole tableRows) :
    ∀ step ∈ steps tableRows, (step.rowIndex : ℤ) < limitedRowCount tableRows limits := by
  intro step hmem
  obtain ⟨building, hsound, hgrid, -⟩ := building_within tableRows limits
  obtain ⟨ref, href, hrow, -⟩ := hwhole.placed step hmem
  rw [hgrid] at href
  have hrows := hsound.rows ref href
  have hstarts := hsound.startsInRow ref href
  omega

/-- **The references of a whole grid** are to all cells, in their order. -/
theorem TableGrid.Whole.refers
    (hwhole : (buildTableGridWithin tableRows limits).Whole tableRows) :
    List.Forall₂ RefersTo (steps tableRows) (buildTableGridWithin tableRows limits).cells := by
  obtain ⟨placed, hsublist, hof⟩ := cells_within hwhole.rowIndex_lt
  have hrefers := hof.imp fun step ref href => (show RefersTo step ref by
    obtain ⟨column, rfl⟩ := href
    exact ⟨rfl, rfl⟩)
  have hsubset : steps tableRows ⊆ placed := fun step hmem => by
    obtain ⟨ref, href, hrow, hcell, -⟩ := hwhole.placed step hmem
    obtain ⟨step', hmem', hrow', hcell'⟩ := exists_left_of_mem hrefers href
    rwa [eq_of_mem_steps hmem (hsublist.subset hmem') (by omega) (by omega)]
  have hlength := ((nodup_steps tableRows).subperm hsubset).length_le
  obtain rfl := hsublist.eq_of_length (le_antisymm hsublist.length_le hlength)
  exact hrefers

/-- The tiles of a layout are those of the references. -/
theorem mem_layout {grid : TableGrid} {tile : Tile Text} (hmem : tile ∈ layout tableRows grid) :
    ∃ ref ∈ grid.cells, ∃ cell, tile = tileOf ref cell := by
  obtain ⟨ref, href, hsome⟩ := List.mem_filterMap.1 hmem
  obtain ⟨cell, -, rfl⟩ := Option.map_eq_some_iff.1 hsome
  exact ⟨ref, href, cell, rfl⟩

theorem forall₂_tileOf {P : CellStep Text → TableGridCellReference → Prop}
    {Q : CellStep Text → Tile Text → Prop}
    (h : ∀ step ref, P step ref → Q step (tileOf ref step.cell))
    {list : List (CellStep Text)} {refs : List TableGridCellReference}
    (hof : List.Forall₂ P list refs) :
    List.Forall₂ Q list (List.zipWith (fun step ref => tileOf ref step.cell) list refs) := by
  induction hof with
  | nil => exact .nil
  | cons hP _ ih => exact .cons (h _ _ hP) ih

/-- **The layout of a whole grid** has the tiles of all cells, in their order. -/
theorem TableGrid.Whole.unclamped
    (hwhole : (buildTableGridWithin tableRows limits).Whole tableRows) :
    List.Forall₂ Unclamped (steps tableRows)
      (layout tableRows (buildTableGridWithin tableRows limits)) := by
  obtain ⟨building, hsound, hgrid, -⟩ := building_within tableRows limits
  have hspans := forall₂_of_forall (P := fun (step : CellStep Text) ref =>
    ref.rowFrom = step.rowIndex ∧ ref.rowTill = ref.rowFrom + normalizeTableSpan step.cell.rowspan
      ∧ ref.columnTill = ref.columnFrom + normalizeTableSpan step.cell.colspan)
    (pairwise_steps tableRows) hwhole.refers fun step hmem => by
      obtain ⟨ref, href, hrow, hcell, hrowTill, hcolumnTill⟩ := hwhole.placed step hmem
      have hstarts := hsound.startsInRow ref (by rwa [hgrid] at href)
      exact ⟨ref, href, ⟨hrow, hcell⟩, hstarts.trans hrow, hrowTill, hcolumnTill⟩
  rw [layout, forall₂_layout (fun _ => id) hwhole.refers]
  exact forall₂_tileOf (fun step ref h => ⟨rfl, h.1, h.2.1, h.2.2⟩) hspans

/-- The tiles of a grid with limits lie inside of it and of the limits. -/
theorem layout_bounds {tile : Tile Text}
    (hmem : tile ∈ layout tableRows (buildTableGridWithin tableRows limits)) :
    (0 ≤ tile.rowFrom ∧ tile.rowFrom < tile.rowTill
        ∧ tile.rowTill ≤ limitedRowCount tableRows limits)
      ∧ (0 ≤ tile.columnFrom ∧ tile.columnFrom < tile.columnTill
        ∧ tile.columnTill ≤ (buildTableGridWithin tableRows limits).columnCount)
      ∧ tile.columnTill ≤ limits.maxColumns := by
  obtain ⟨building, hsound, hgrid, -⟩ := building_within tableRows limits
  obtain ⟨ref, href, cell, rfl⟩ := mem_layout hmem
  rw [hgrid] at href
  obtain ⟨h0, hlt, htill⟩ := hsound.columns ref href
  refine ⟨hsound.rows ref href, ⟨h0, hlt, ?_⟩, htill⟩
  rw [hgrid]
  exact (hsound.wide ref href).trans length_le_tableGridColumnCount

theorem Unclamped.shaped {step : CellStep Text} {tile : Tile Text} (h : Unclamped step tile)
    (htill : tile.rowTill ≤ rowCount) : Shaped rowCount step.rowIndex step.cell tile := by
  have hspan := one_le_normalizeTableSpan step.cell.rowspan
  have hrowFrom := h.rowFrom
  have hrowTill := h.rowTill
  refine ⟨h.content, h.rowFrom, ?_, h.columnTill⟩
  rw [clampTableRowspan, clampTableSpan_eq (Int.natCast_nonneg _) (by omega)]
  omega

/-- The tiles of a whole grid are as their cells would be placed. -/
theorem TableGrid.Whole.shaped
    (hwhole : (buildTableGridWithin tableRows limits).Whole tableRows) :
    List.Forall₂ (fun (step : CellStep Text) tile =>
      Shaped (limitedRowCount tableRows limits) step.rowIndex step.cell tile) (steps tableRows)
      (layout tableRows (buildTableGridWithin tableRows limits)) :=
  ((List.forall₂_and_left _ _).2 ⟨fun _ hmem => (layout_bounds hmem).1.2.2,
    hwhole.unclamped.flip⟩).flip.imp fun _ _ h => h.2.shaped h.1

/-- **The tiles of a whole grid** are clear of each other and held in place. -/
theorem TableGrid.Whole.clear_held
    (hwhole : (buildTableGridWithin tableRows limits).Whole tableRows) :
    AllClear ∅ (layout tableRows (buildTableGridWithin tableRows limits))
      ∧ AllHeld ∅ (layout tableRows (buildTableGridWithin tableRows limits)) :=
  clear_held_of_layout hwhole.rowIndex_lt hwhole.shaped (fun _ hmem =>
    ⟨(layout_bounds hmem).2.1.1, (layout_bounds hmem).2.2⟩) rfl

/-- The slots of a whole grid are those of its tiles. -/
theorem TableGrid.Whole.covered
    (hwhole : (buildTableGridWithin tableRows limits).Whole tableRows) (slot : ℤ × ℤ)
    (hslot : slot ∈ Finset.Ico 0 (limitedRowCount tableRows limits)
      ×ˢ Finset.Ico 0 (buildTableGridWithin tableRows limits).columnCount) :
    ∃ tile ∈ layout tableRows (buildTableGridWithin tableRows limits), slot ∈ tile.slots := by
  obtain ⟨building, hsound, hgrid, -⟩ := building_within tableRows limits
  have htaken := hwhole.filled slot hslot
  rw [hgrid] at htaken
  obtain ⟨_, hmem, hin⟩ := mem_covered.1 ((hsound.taken slot).1 htaken)
  obtain ⟨ref, href, rfl⟩ := List.mem_map.1 hmem
  have hrefers := hwhole.refers
  rw [hgrid] at hrefers
  obtain ⟨step, hstep, hindex⟩ := exists_left_of_mem hrefers href
  refine ⟨tileOf ref step.cell, List.mem_filterMap.2 ⟨ref, by rw [hgrid]; exact href, ?_⟩, hin⟩
  rw [referredCell_step hstep hindex]
  rfl

/-- The slots of a whole grid are within the limit. -/
theorem TableGrid.Whole.card_le
    (hwhole : (buildTableGridWithin tableRows limits).Whole tableRows)
    (hcells : (buildTableGridWithin tableRows limits).cells ≠ []) :
    limitedRowCount tableRows limits * (buildTableGridWithin tableRows limits).columnCount
      ≤ limits.maxCells := by
  obtain ⟨building, hsound, hgrid, hcount, -⟩ := building_within tableRows limits
  have hfilled := hwhole.filled
  rw [hgrid] at hcells hfilled ⊢
  obtain ⟨ref, href⟩ := List.exists_mem_of_ne_nil _ hcells
  have hcolumns := hsound.columns ref href
  have hwide := (hsound.wide ref href).trans length_le_tableGridColumnCount
  have hcolumnCount : 0 ≤ (building.grid (limitedRowCount tableRows limits)).columnCount :=
    (hcolumns.1.trans hcolumns.2.1.le).trans hwide
  refine le_trans ?_ (hcount.resolve_left hcells)
  rw [hsound.count, ← card_rect 0 0 limitedRowCount_nonneg hcolumnCount]
  refine Int.ofNat_le.2 (Finset.card_le_card fun slot hslot => ?_)
  rw [rect, zero_add, zero_add] at hslot
  exact (hsound.taken slot).1 (hfilled slot hslot)

end Yunogram.Iv.Editor
