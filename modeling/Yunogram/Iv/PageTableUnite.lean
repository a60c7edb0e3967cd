import Yunogram.Iv.PageTableLaidOut

/-!
# Iv/PageTableUnite — when the cells of a range that are united become one cell

The cell at the first slot of the range takes all of it and the other cells of the range are erased.
The range is clean where each cell with a slot in it lies inside of it.
-/

open Machinery
open scoped Machinery.Computed

namespace Yunogram.Iv.Editor

variable {Text : Type} {tableRows : List (TableRow Text)}
  {limits : MarkdownPrepareTableRenderLimits} {range : TableCellRange}

/-! ## Tiles with those of a range united -/

section Tiles

variable {tiles : List (Tile Text)} {rowCount columnCount : ℤ} {tile : Tile Text}

/-- A range with slots, inside of a box. -/
structure TableCellRange.Within (range : TableCellRange) (rowCount columnCount : ℤ) : Prop where
  rows : 0 ≤ range.rowFrom ∧ range.rowFrom < range.rowTill ∧ range.rowTill ≤ rowCount
  columns : 0 ≤ range.columnFrom ∧ range.columnFrom < range.columnTill
    ∧ range.columnTill ≤ columnCount

/-- A range is clean: each tile with a slot in it lies inside of it. -/
def TableCellRange.Clean (range : TableCellRange) (tiles : List (Tile Text)) : Prop :=
  ∀ tile ∈ tiles, tile.meets range = true →
    (range.rowFrom ≤ tile.rowFrom ∧ tile.rowTill ≤ range.rowTill)
      ∧ range.columnFrom ≤ tile.columnFrom ∧ tile.columnTill ≤ range.columnTill

instance (tiles : List (Tile Text)) : Decidable (range.Clean tiles) :=
  List.decidableBAll _ _

/-- The tile that takes a range. -/
def Tile.spread (range : TableCellRange) (tile : Tile Text) : Tile Text :=
  { tile with
    rowFrom := range.rowFrom
    rowTill := range.rowTill
    columnFrom := range.columnFrom
    columnTill := range.columnTill }

theorem meets_iff : tile.meets range = true ↔
    (tile.rowFrom < range.rowTill ∧ range.rowFrom < tile.rowTill)
      ∧ tile.columnFrom < range.columnTill ∧ range.columnFrom < tile.columnTill := by
  rw [Tile.meets]
  simp only [Bool.and_eq_true, decide_eq_true_eq, gt_iff_lt, and_assoc]

/-- The slots of a tile that does not meet a range are outside of it. -/
theorem outside_of_not_meets (h : tile.meets range = false) {slot : ℤ × ℤ}
    (hslot : slot ∈ tile.slots) : slot ∉ (tile.spread range).slots := by
  rw [← Bool.not_eq_true, meets_iff] at h
  rw [Tile.mem_slots] at hslot ⊢
  dsimp only [Tile.spread]
  omega

/-- The first slot of a clean range is that of the tile there. -/
theorem Tiling.exists_first (h : Tiling rowCount columnCount tiles)
    (hwithin : range.Within rowCount columnCount) (hclean : range.Clean tiles) :
    ∃ first ∈ tiles, first.meets range = true ∧ first.rowFrom = range.rowFrom
      ∧ first.columnFrom = range.columnFrom := by
  have hrows := hwithin.rows
  have hcolumns := hwithin.columns
  obtain ⟨first, hmem, hslot⟩ := h.covers (range.rowFrom, range.columnFrom) hrows.1 (by omega)
    hcolumns.1 (by omega)
  rw [Tile.mem_slots] at hslot
  dsimp only at hslot
  have hmeets : first.meets range = true := meets_iff.2 (by omega)
  have hinside := hclean first hmem hmeets
  exact ⟨first, hmem, hmeets, by omega, by omega⟩

/-- What the tiles of a range become. -/
theorem mem_cellsUnited : tile ∈ cellsUnited range tiles ↔
    (tile ∈ tiles ∧ tile.meets range = false)
      ∨ ∃ first ∈ tiles, first.meets range = true
        ∧ (first.rowFrom = range.rowFrom ∧ first.columnFrom = range.columnFrom)
        ∧ tile = first.spread range := by
  rw [cellsUnited, List.mem_filterMap]
  constructor
  · rintro ⟨old, hold, hsome⟩
    split_ifs at hsome with hmeets hfirst
    · obtain rfl := Option.some.inj hsome
      exact .inl ⟨hold, hmeets⟩
    · exact .inr ⟨old, hold, Bool.not_eq_false _ ▸ hmeets, hfirst, (Option.some.inj hsome).symm⟩
  · rintro (⟨hmem, hmeets⟩ | ⟨first, hmem, hmeets, hfirst, rfl⟩)
    · exact ⟨tile, hmem, if_pos hmeets⟩
    · exact ⟨first, hmem, by rw [if_neg (by rw [hmeets]; simp), if_pos hfirst]; rfl⟩

/-- **A tiling with the tiles of a clean range united is a tiling** of the same box. -/
theorem Tiling.cellsUnited (h : Tiling rowCount columnCount tiles)
    (hwithin : range.Within rowCount columnCount) (hclean : range.Clean tiles) :
    Tiling rowCount columnCount (cellsUnited range tiles) := by
  have hunited : ∀ a b : Tile Text, (if a.meets range = false then some a
      else if a.rowFrom = range.rowFrom ∧ a.columnFrom = range.columnFrom then
        some (a.spread range) else none) = some b →
      (a.meets range = false ∧ b = a) ∨ ((a.rowFrom = range.rowFrom
        ∧ a.columnFrom = range.columnFrom) ∧ b = a.spread range) := by
    intro a b hsome
    split_ifs at hsome with hmeets hfirst
    · exact .inl ⟨hmeets, (Option.some.inj hsome).symm⟩
    · exact .inr ⟨hfirst, (Option.some.inj hsome).symm⟩
  have hfirstSlot : ∀ a ∈ tiles, a.rowFrom = range.rowFrom → a.columnFrom = range.columnFrom →
      (range.rowFrom, range.columnFrom) ∈ a.slots := fun a ha hrow hcolumn => by
    have hrows := h.rows a ha
    have hcolumns := h.columns a ha
    rw [Tile.mem_slots]
    dsimp only
    omega
  refine ⟨?_, fun tile hmem => ?_, fun tile hmem => ?_, ?_, fun slot hr0 hr hc0 hc => ?_⟩
  · refine List.pairwise_filterMap.2 (h.order.imp fun {a b} hab a' ha' b' hb' => ?_)
    rcases hunited a a' ha' with ⟨-, rfl⟩ | ⟨hfirst, rfl⟩ <;>
      rcases hunited b b' hb' with ⟨-, rfl⟩ | ⟨hfirst', rfl⟩
    · exact hab
    · exact hab.trans hfirst'.1.le
    · exact hfirst.1.ge.trans hab
    · exact le_rfl
  · rcases mem_cellsUnited.1 hmem with ⟨hmem, -⟩ | ⟨first, -, -, -, rfl⟩
    · exact h.rows tile hmem
    · exact hwithin.rows
  · rcases mem_cellsUnited.1 hmem with ⟨hmem, -⟩ | ⟨first, -, -, -, rfl⟩
    · exact h.columns tile hmem
    · exact hwithin.columns
  · refine List.pairwise_map.2 (List.pairwise_filterMap.2
      ((List.pairwise_map.1 h.disjoint).imp_of_mem fun {a b} ha hb hab a' ha' b' hb' => ?_))
    rcases hunited a a' ha' with ⟨hmeets, rfl⟩ | ⟨hfirst, rfl⟩ <;>
      rcases hunited b b' hb' with ⟨hmeets', rfl⟩ | ⟨hfirst', rfl⟩
    · exact hab
    · exact Finset.disjoint_left.2 fun slot hslot => outside_of_not_meets hmeets hslot
    · exact Finset.disjoint_right.2 fun slot hslot => outside_of_not_meets hmeets' hslot
    · exact absurd (hfirstSlot b hb hfirst'.1 hfirst'.2)
        (Finset.disjoint_left.1 hab (hfirstSlot a ha hfirst.1 hfirst.2))
  · obtain ⟨tile, hmem, hslot⟩ := h.covers slot hr0 hr hc0 hc
    cases hmeets : tile.meets range with
    | false => exact ⟨tile, mem_cellsUnited.2 (.inl ⟨hmem, hmeets⟩), hslot⟩
    | true =>
      obtain ⟨first, hfirst, hmeets', hstarts⟩ := h.exists_first hwithin hclean
      refine ⟨first.spread range, mem_cellsUnited.2 (.inr ⟨first, hfirst, hmeets', hstarts, rfl⟩),
        ?_⟩
      have hinside := hclean tile hmem hmeets
      rw [Tile.mem_slots] at hslot ⊢
      dsimp only [Tile.spread]
      omega

end Tiles

/-! ## The first cell of a range -/

/-- **The smallest element** is the one that is before all others. -/
theorem minElement_eq {α : Type} {before : α → α → Bool} {kept first : α} {rest : List α}
    (hmem : kept ∈ first :: rest)
    (hbefore : ∀ a ∈ first :: rest, a ≠ kept → before kept a = true ∧ before a kept = false) :
    minElement before first rest = kept := by
  unfold minElement
  induction rest generalizing first with
  | nil => exact (List.mem_singleton.1 hmem).symm
  | cons a rest ih =>
    rw [List.foldl_cons]
    obtain ⟨hfirst, ha, hrest⟩ := List.forall_mem_cons.1 hbefore |>.imp_right
      List.forall_mem_cons.1
    by_cases hkept : kept = first
    · have hstays : (if before a first then a else first) = kept := by
        rw [← hkept]
        split_ifs with hsmaller
        · by_contra hne
          exact Bool.false_ne_true ((ha hne).2.symm.trans hsmaller)
        · rfl
      rw [hstays]
      exact ih List.mem_cons_self (List.forall_mem_cons.2 ⟨fun hne => absurd rfl hne, hrest⟩)
    · have hlater := (List.mem_cons.1 hmem).resolve_left hkept
      refine ih ?_ (List.forall_mem_cons.2 ⟨fun hne => ?_, hrest⟩)
      · rcases List.mem_cons.1 hlater with rfl | hlater
        · rw [if_pos (hfirst (Ne.symm hkept)).1]
          exact List.mem_cons_self
        · exact List.mem_cons_of_mem _ hlater
      · split_ifs at hne ⊢
        · exact ha hne
        · exact hfirst hne

theorem keptBefore_of_starts {a b : TableGridCellReference}
    (h : a.rowFrom < b.rowFrom ∨ a.rowFrom = b.rowFrom ∧ a.columnFrom < b.columnFrom) :
    keptBefore a b = true ∧ keptBefore b a = false := by
  unfold keptBefore
  rcases h with hrow | ⟨hrow, hcolumn⟩
  · rw [if_pos hrow.ne, if_pos hrow.ne', decide_eq_true_eq, decide_eq_false_iff_not]
    omega
  · rw [if_neg (not_not.2 hrow), if_neg (not_not.2 hrow.symm), if_pos hcolumn.ne,
      if_pos hcolumn.ne', decide_eq_true_eq, decide_eq_false_iff_not]
    omega

/-! ## The cells with those of a range united -/

section Result

variable {placed keeper : CellStep Text × Tile Text}

/-- A cell that takes a range. -/
def spreadCell (range : TableCellRange) (cell : TableCell Text) : TableCell Text :=
  { cell with
    rowspan := range.rowTill - range.rowFrom
    colspan := range.columnTill - range.columnFrom }

/-- The step of a cell once the one that is kept takes the range. -/
def spreadStep (range : TableCellRange) (keeper placed : CellStep Text × Tile Text) :
    CellStep Text :=
  changeAt keeper.1 (spreadCell range) placed.1

theorem index_spreadStep : (spreadStep range keeper placed).rowIndex = placed.1.rowIndex
    ∧ (spreadStep range keeper placed).cellIndex = placed.1.cellIndex := by
  unfold spreadStep changeAt
  split_ifs <;> exact ⟨rfl, rfl⟩

/-- The cells that are erased. -/
def isUnited (range : TableCellRange) (keeper placed : CellStep Text × Tile Text) : Bool :=
  placed.2.meets range
    && !((placed.1.rowIndex : ℤ) = keeper.1.rowIndex
      && (placed.1.cellIndex : ℤ) = keeper.1.cellIndex)

/-- The tile that a cell has once those of the range are united. -/
def Tile.united (range : TableCellRange) (tile : Tile Text) : Tile Text :=
  if tile.meets range then tile.spread range else tile

variable (hwhole : (buildTableGridWithin tableRows limits).Whole tableRows)

include hwhole

/-- What is selected is the cells with a slot in the range. -/
theorem selectedTableGridCells_eq :
    selectedTableGridCells (buildTableGridWithin tableRows limits) range =
      ((tiled tableRows limits).filter fun placed => placed.2.meets range).map fun placed =>
        refOf placed.1 placed.2 := by
  rw [selectedTableGridCells, cells_eq_map_tiled hwhole, List.filter_map]
  rfl

/-- The slots of a range of a whole grid are taken. -/
theorem tableGridRangeCovered_of_whole (hwithin : range.Within
      (buildTableGridWithin tableRows limits).rowCount
      (buildTableGridWithin tableRows limits).columnCount) :
    tableGridRangeCovered (buildTableGridWithin tableRows limits) range = true := by
  have hrows := hwithin.rows
  have hcolumns := hwithin.columns
  unfold tableGridRangeCovered
  rw [if_neg (by omega), List.all_eq_true]
  intro i hi
  rw [List.mem_range] at hi
  have htaken : ∀ j < (range.columnTill - range.columnFrom).toNat,
      Taken (buildTableGridWithin tableRows limits).occupancy
        (range.rowFrom + i, range.columnFrom + j) := fun j hj =>
    hwhole.filled _ (Finset.mem_product.2 ⟨Finset.mem_Ico.2 (by dsimp only; omega),
      Finset.mem_Ico.2 (by dsimp only; omega)⟩)
  have hrow := (htaken 0 (by omega)).row_lt
  dsimp only at hrow ⊢
  rw [if_neg (by omega), List.all_eq_true]
  intro j hj
  have hslot := htaken j (List.mem_range.1 hj)
  have hcolumn := hslot.column_lt
  dsimp only at hcolumn
  rw [Bool.not_eq_true', Bool.or_eq_false_iff, decide_eq_false_iff_not, Bool.not_eq_false']
  exact ⟨by omega, hslot.2.2⟩

/-- A range of which each cell lies inside of it can be united. -/
theorem cleanTableGridUniteRange_of_clean (hwithin : range.Within
      (buildTableGridWithin tableRows limits).rowCount
      (buildTableGridWithin tableRows limits).columnCount)
    (hclean : range.Clean (textLayout tableRows limits))
    (hselected : (selectedTableGridCells (buildTableGridWithin tableRows limits) range).isEmpty =
      false) :
    cleanTableGridUniteRange (buildTableGridWithin tableRows limits) range = true := by
  unfold cleanTableGridUniteRange
  dsimp only
  rw [hselected, if_neg Bool.false_ne_true, if_neg, tableGridRangeCovered_of_whole hwhole hwithin]
  rw [Bool.not_eq_true, List.any_eq_false, selectedTableGridCells_eq hwhole]
  intro ref href
  obtain ⟨placed, hplaced, rfl⟩ := List.mem_map.1 href
  obtain ⟨hmem, hmeets⟩ := List.mem_filter.1 hplaced
  have hin : placed.2.textOnly ∈ textLayout tableRows limits := by
    rw [textLayout_eq hwhole]
    exact List.mem_map_of_mem hmem
  have hinside := hclean _ hin hmeets
  simp only [tableGridCellContainedInRange, Bool.not_eq_true', Bool.not_eq_false,
    Bool.and_eq_true, decide_eq_true_eq, ge_iff_le, and_assoc]
  exact ⟨hinside.1.1, hinside.1.2, hinside.2⟩

/-- **The cell that is kept** is the one at the first slot of the range. -/
theorem minElement_selected {first : TableGridCellReference} {rest : List TableGridCellReference}
    (hwithin : range.Within (buildTableGridWithin tableRows limits).rowCount
      (buildTableGridWithin tableRows limits).columnCount)
    (hclean : range.Clean (textLayout tableRows limits))
    (hselected : selectedTableGridCells (buildTableGridWithin tableRows limits) range =
      first :: rest) :
    ∃ keeper ∈ tiled tableRows limits, keeper.2.meets range = true
      ∧ keeper.2.rowFrom = range.rowFrom ∧ keeper.2.columnFrom = range.columnFrom
      ∧ minElement keptBefore first rest = refOf keeper.1 keeper.2 := by
  obtain ⟨tile, htile, hmeets, hrow, hcolumn⟩ := hwhole.tiling.1.exists_first hwithin hclean
  rw [textLayout_eq hwhole] at htile
  obtain ⟨keeper, hkeeper, rfl⟩ := List.mem_map.1 htile
  refine ⟨keeper, hkeeper, hmeets, hrow, hcolumn, minElement_eq ?_ fun ref href hne => ?_⟩
  · rw [← hselected, selectedTableGridCells_eq hwhole]
    exact List.mem_map_of_mem (List.mem_filter.2 ⟨hkeeper, hmeets⟩)
  · rw [← hselected, selectedTableGridCells_eq hwhole] at href
    obtain ⟨placed, hplaced, rfl⟩ := List.mem_map.1 href
    obtain ⟨hmem, hmeets'⟩ := List.mem_filter.1 hplaced
    have hin : placed.2.textOnly ∈ textLayout tableRows limits := by
      rw [textLayout_eq hwhole]
      exact List.mem_map_of_mem hmem
    have hinside := hclean _ hin hmeets'
    have hother : ¬(placed.2.rowFrom = keeper.2.rowFrom
        ∧ placed.2.columnFrom = keeper.2.columnFrom) := fun hsame => hne (by
      rw [eq_of_starts hwhole hmem hkeeper hsame.1 hsame.2])
    dsimp only [Tile.textOnly] at hrow hcolumn hinside
    refine keptBefore_of_starts ?_
    dsimp only [refOf]
    omega

omit hwhole in
theorem textOnly_united (tile : Tile Text) :
    (tile.united range).textOnly = tile.textOnly.united range := apply_ite Tile.textOnly ..

/-- Of the cells with a slot in the range, all but the one that is kept are erased. -/
theorem isUnited_eq (hkeeper : keeper ∈ tiled tableRows limits)
    (hrow : keeper.2.rowFrom = range.rowFrom) (hcolumn : keeper.2.columnFrom = range.columnFrom)
    (hmem : placed ∈ tiled tableRows limits) :
    isUnited range keeper placed = true ↔ placed.2.meets range = true
      ∧ ¬(placed.2.rowFrom = range.rowFrom ∧ placed.2.columnFrom = range.columnFrom) := by
  rw [isUnited, Bool.and_eq_true, Bool.not_eq_true', Bool.and_eq_false_iff,
    decide_eq_false_iff_not, decide_eq_false_iff_not, ← not_and_or, Int.natCast_inj,
    Int.natCast_inj]
  refine and_congr_right fun _ => not_congr ⟨fun hindex => ?_, fun hstarts => ?_⟩
  · rw [eq_of_mem_tiled hwhole hmem hkeeper hindex.1 hindex.2]
    exact ⟨hrow, hcolumn⟩
  · rw [eq_of_starts hwhole hmem hkeeper (hstarts.1.trans hrow.symm)
      (hstarts.2.trans hcolumn.symm)]
    exact ⟨rfl, rfl⟩

/-- **The tiles with those of the range united** are those of the cells that are left. -/
theorem cellsUnited_eq (hkeeper : keeper ∈ tiled tableRows limits)
    (hrow : keeper.2.rowFrom = range.rowFrom)
    (hcolumn : keeper.2.columnFrom = range.columnFrom) :
    cellsUnited range (textLayout tableRows limits) =
      (((tiled tableRows limits).filter fun placed => !isUnited range keeper placed).map
        fun placed => ((spreadStep range keeper placed).entry, placed.2.united range)).map
          fun new => new.2.textOnly := by
  rw [List.map_map, cellsUnited, textLayout_eq hwhole, List.filterMap_map]
  refine filterMap_eq_map_filter fun placed hmem => ?_
  have hunited := isUnited_eq hwhole hkeeper hrow hcolumn hmem
  simp only [Function.comp, textOnly_united]
  change (if placed.2.meets range = false then some placed.2.textOnly
    else if placed.2.rowFrom = range.rowFrom ∧ placed.2.columnFrom = range.columnFrom then
      some (placed.2.textOnly.spread range) else none) = if (!isUnited range keeper placed) = true
        then some (if placed.2.meets range then placed.2.textOnly.spread range
          else placed.2.textOnly) else none
  cases hmeets : placed.2.meets range with
  | false =>
    rw [if_pos rfl, if_pos, if_neg Bool.false_ne_true]
    rw [Bool.not_eq_true', ← Bool.not_eq_true, hunited, hmeets]
    exact fun h => Bool.false_ne_true h.1
  | true =>
    rw [hmeets, and_iff_right rfl] at hunited
    rw [if_neg Bool.true_eq_false.mp, if_pos rfl]
    split_ifs with hfirst herased herased
    · rfl
    · exact absurd hfirst (hunited.1 (by simpa using herased))
    · exact absurd (hunited.2 hfirst) (by simpa using herased)
    · rfl

/-- The cells that are left have the spans of their tiles. -/
theorem unclamped_united (hkeeper : keeper ∈ tiled tableRows limits)
    (hrow : keeper.2.rowFrom = range.rowFrom) (hcolumn : keeper.2.columnFrom = range.columnFrom)
    (hrows : range.rowFrom < range.rowTill) (hcolumns : range.columnFrom < range.columnTill) :
    ∀ new ∈ ((tiled tableRows limits).filter fun placed => !isUnited range keeper placed).map
        (fun placed => ((spreadStep range keeper placed).entry, placed.2.united range)),
      Unclamped ⟨new.1.1, 0, new.1.2⟩ new.2 := by
  intro new hnew
  obtain ⟨placed, hplaced, rfl⟩ := List.mem_map.1 hnew
  obtain ⟨hmem, hleft⟩ := List.mem_filter.1 hplaced
  rw [Bool.not_eq_true', ← Bool.not_eq_true, isUnited_eq hwhole hkeeper hrow hcolumn hmem,
    not_and, not_not] at hleft
  have hspans := unclamped_of_mem_tiled hwhole hmem
  rw [CellStep.entry, index_spreadStep.1]
  unfold Tile.united
  split_ifs with hmeets
  · obtain rfl := eq_of_starts hwhole hmem hkeeper ((hleft hmeets).1.trans hrow.symm)
      ((hleft hmeets).2.trans hcolumn.symm)
    rw [spreadStep, changeAt, if_pos ⟨rfl, rfl⟩]
    refine ⟨hspans.content, hrow.symm.trans hspans.rowFrom, ?_, ?_⟩ <;>
      dsimp only [Tile.spread, spreadCell, normalizeTableSpan] <;> omega
  · have hother : spreadStep range keeper placed = placed.1 := if_neg fun hindex => hmeets (by
      rw [eq_of_mem_tiled hwhole hmem hkeeper hindex.1 hindex.2, meets_iff]
      have hbounds := layout_bounds (snd_mem_layout hwhole hkeeper)
      omega)
    rw [hother]
    exact ⟨hspans.content, hspans.rowFrom, hspans.rowTill, hspans.columnTill⟩

/-- **The table with the cells of a range united** has the cells of the tiles with them united. -/
theorem uniteTableCells_cellsOf
    (hvalid : validateTableCellRange tableRows limits range = some range)
    (hfits : limits.Fits tableRows.length (buildTableGridWithin tableRows limits).columnCount)
    (hclean : range.Clean (textLayout tableRows limits))
    (hseveral : 1 < ((textLayout tableRows limits).filter (Tile.meets range)).length) :
    ∃ tableRows', uniteTableCells limits tableRows range = some tableRows'
      ∧ tableRows'.length = tableRows.length
      ∧ CellsOf limits tableRows' (buildTableGridWithin tableRows limits).rowCount
        (buildTableGridWithin tableRows limits).columnCount
        (cellsUnited range (textLayout tableRows limits)) := by
  obtain ⟨-, hrows, hcolumns⟩ := eq_of_validateTableCellRange hvalid
  have hwithin : range.Within (buildTableGridWithin tableRows limits).rowCount
    (buildTableGridWithin tableRows limits).columnCount := ⟨hrows, hcolumns⟩
  have hcount := limitedRowCount_eq hfits.rows
  have hselected : 1 < (selectedTableGridCells (buildTableGridWithin tableRows limits)
      range).length := by
    rw [textLayout_eq hwhole, List.filter_map, List.length_map] at hseveral
    rw [selectedTableGridCells_eq hwhole, List.length_map]
    exact hseveral
  cases hcells : selectedTableGridCells (buildTableGridWithin tableRows limits) range with
  | nil => exact absurd (hcells ▸ hselected) (Nat.not_lt_zero _)
  | cons first rest =>
    cases rest with
    | nil => exact absurd (hcells ▸ hselected) (lt_irrefl _)
    | cons second rest =>
      obtain ⟨keeper, hkeeper, hmeets, hrow, hcolumn, hkept⟩ :=
        minElement_selected hwhole hwithin hclean hcells
      have hsteps : steps (modifyCell tableRows (refOf keeper.1 keeper.2) (spreadCell range)) =
          (tiled tableRows limits).map (spreadStep range keeper) := by
        rw [steps_modifyCell, ← map_fst_tiled hwhole, List.map_map]
        rfl
      have herased : (first :: second :: rest).filter (fun cell =>
            !(cell.rowIndex = (refOf keeper.1 keeper.2).rowIndex
              && cell.cellIndex = (refOf keeper.1 keeper.2).cellIndex)) =
          ((tiled tableRows limits).filter (isUnited range keeper)).map fun placed =>
            refOf placed.1 placed.2 := by
        rw [← hcells, selectedTableGridCells_eq hwhole, List.filter_map, List.filter_filter]
        refine congrArg (List.map _) (List.filter_congr fun placed _ => ?_)
        rw [isUnited, Bool.and_comm]
        rfl
      have hentries := entriesFrom_eraseCells hwhole (spreadStep range keeper) hsteps
        (fun _ => index_spreadStep) (isUnited range keeper)
      have hlength : ((((tiled tableRows limits).filter (isUnited range keeper)).map fun placed =>
          refOf placed.1 placed.2).mergeSort erasedBefore |>.foldl eraseCell
            (modifyCell tableRows (refOf keeper.1 keeper.2) (spreadCell range))).length =
          tableRows.length := (length_foldl_eraseCell ..).trans (length_modifyCell ..)
      unfold uniteTableCells
      rw [hvalid]
      dsimp only
      rw [hcells]
      dsimp only
      rw [cleanTableGridUniteRange_of_clean hwhole hwithin hclean (by rw [hcells]; rfl),
        if_neg Bool.true_eq_false.mp, hkept, herased, rowCount_within, hcount]
      rw [rowCount_within, hcount] at hwithin hrows
      have htiling := hwhole.tiling.1
      rw [hcount] at htiling
      refine ⟨_, rfl, hlength, ⟨_, ?_, cellsUnited_eq hwhole hkeeper hrow hcolumn,
        unclamped_united hwhole hkeeper hrow hcolumn hrows.2.1 hcolumns.2.1⟩,
        htiling.cellsUnited hwithin hclean, ?_, hfits, by omega, by omega⟩
      · rw [List.map_map]
        exact hentries
      · have hlengthInt := congrArg (Nat.cast : ℕ → ℤ) hlength
        exact (limitedRowCount_eq (hlengthInt.trans_le hfits.rows)).trans hlengthInt

end Result

end Yunogram.Iv.Editor
