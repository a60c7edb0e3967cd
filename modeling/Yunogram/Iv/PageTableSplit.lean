import Yunogram.Iv.PageTableColumnGrowth

/-!
# Iv/PageTableSplit — when a cell that is split becomes one cell for each of its slots

The cell keeps its first slot, and new cells are put into the rows of the others.  They go where the
cells in front of them end, since no other cell starts between the columns of the one that is split.
-/

open Machinery
open scoped Machinery.Computed

namespace Yunogram.Iv.Editor

variable {Text : Type} {tableRows : List (TableRow Text)}
  {limits : MarkdownPrepareTableRenderLimits}

/-! ## Tiles with one split -/

section Tiles

variable {tiles : List (Tile Text)} {n : ℕ} {columnCount : ℤ} {selected tile : Tile Text}

/-- The tile at the first slot of the selected one is cut down to it. -/
def Tile.splitAt (selected tile : Tile Text) : Tile Text :=
  if selected.rowFrom = tile.rowFrom ∧ selected.columnFrom = tile.columnFrom then tile.firstSlot
  else tile

theorem rowFrom_splitAt : (selected.splitAt tile).rowFrom = tile.rowFrom := by
  unfold Tile.splitAt
  split_ifs <;> rfl

theorem mem_firstSlot {slot : ℤ × ℤ} :
    slot ∈ tile.firstSlot.slots ↔ slot = (tile.rowFrom, tile.columnFrom) := by
  rw [Tile.mem_slots, Prod.ext_iff]
  dsimp only [Tile.firstSlot]
  omega

theorem splitAt_self : selected.splitAt selected = selected.firstSlot := if_pos ⟨rfl, rfl⟩

/-- Every other tile of a tiling is left as it is. -/
theorem Tiling.splitAt_of_ne (h : Tiling n columnCount tiles) (hselected : selected ∈ tiles)
    (hmem : tile ∈ tiles) (hne : tile ≠ selected) : selected.splitAt tile = tile := by
  refine if_neg fun hsame => hne ?_
  have hrow := h.rows tile hmem
  have hcolumn := h.columns tile hmem
  have hrow' := h.rows selected hselected
  have hcolumn' := h.columns selected hselected
  refine @Tiling.eq_of_mem_slots _ _ _ _ h _ _ hmem hselected (tile.rowFrom, tile.columnFrom)
    (Tile.mem_slots.2 ?_) (Tile.mem_slots.2 ?_)
  · exact ⟨⟨le_rfl, hrow.2.1⟩, le_rfl, hcolumn.2.1⟩
  · dsimp only
    omega

variable [Inhabited Text]

/-- The new tiles are those of the other slots. -/
theorem mem_splitTiles {row : ℤ} : tile ∈ splitTiles selected row ↔
    ∃ column, (row, column) ∈ selected.slots
      ∧ ¬(row = selected.rowFrom ∧ column = selected.columnFrom) ∧ tile = newTile row column := by
  simp only [splitTiles, List.mem_filter, List.mem_map, List.mem_range, Bool.and_eq_true,
    decide_eq_true_eq, Bool.not_eq_true', Bool.and_eq_false_iff, decide_eq_false_iff_not,
    Tile.mem_slots]
  constructor
  · rintro ⟨⟨offset, hlt, rfl⟩, hrow, hnot⟩
    have hcolumn : (newTile row (selected.columnFrom + offset) : Tile Text).columnFrom =
        selected.columnFrom + offset := rfl
    rw [hcolumn] at hnot
    exact ⟨selected.columnFrom + offset, by omega, by omega, rfl⟩
  · rintro ⟨column, hslot, hnot, rfl⟩
    have hcolumn : (newTile row column : Tile Text).columnFrom = column := rfl
    rw [hcolumn]
    refine ⟨⟨(column - selected.columnFrom).toNat, by omega, ?_⟩, by omega, by omega⟩
    congr 1
    omega

theorem rowFrom_of_mem_splitTiles {row : ℤ} (hmem : tile ∈ splitTiles selected row) :
    tile.rowFrom = row := by
  obtain ⟨column, -, -, rfl⟩ := mem_splitTiles.1 hmem
  rfl

/-- The new tiles of a row do not meet. -/
theorem pairwise_splitTiles (row : ℤ) :
    (splitTiles selected row).Pairwise fun a b => Disjoint a.slots b.slots := by
  refine List.Pairwise.filter _ (List.pairwise_map.2 (List.nodup_range.imp fun {i j} hij => ?_))
  rw [Finset.disjoint_left]
  intro slot hslot hslot'
  rw [mem_newTile] at hslot hslot'
  have heq := (Prod.mk.inj (hslot.symm.trans hslot')).2
  omega

/-- What becomes of a tiling when a tile is split. -/
theorem Tiling.mem_cellSplit (h : Tiling n columnCount tiles) (hselected : selected ∈ tiles) :
    tile ∈ cellSplit selected n tiles ↔ tile = selected.firstSlot
      ∨ (tile ∈ tiles ∧ tile ≠ selected)
      ∨ ∃ slot ∈ selected.slots, slot ≠ (selected.rowFrom, selected.columnFrom)
        ∧ tile = newTile slot.1 slot.2 := by
  have hrows : ∀ tile ∈ tiles, 0 ≤ tile.rowFrom ∧ tile.rowFrom < n := fun tile hmem => by
    have hrow := h.rows tile hmem
    omega
  rw [cellSplit, mem_spliceRows h.order hrows]
  simp only [mem_splitTiles]
  constructor
  · rintro (⟨old, hold, rfl⟩ | ⟨row, hrow, column, hslot, hne, rfl⟩)
    · change selected.splitAt old = _
        ∨ (selected.splitAt old ∈ tiles ∧ selected.splitAt old ≠ selected) ∨ _
      rcases eq_or_ne old selected with rfl | hne
      · exact .inl splitAt_self
      · rw [h.splitAt_of_ne hselected hold hne]
        exact .inr (.inl ⟨hold, hne⟩)
    · exact .inr (.inr ⟨((row : ℤ), column), hslot, fun heq => hne (Prod.mk.inj heq), rfl⟩)
  · rintro (rfl | ⟨hmem, hne⟩ | ⟨slot, hslot, hne, rfl⟩)
    · exact .inl ⟨selected, hselected, splitAt_self⟩
    · exact .inl ⟨tile, hmem, h.splitAt_of_ne hselected hmem hne⟩
    · have hrow := h.rows selected hselected
      have hin := Tile.mem_slots.1 hslot
      have hcast : ((slot.1.toNat : ℕ) : ℤ) = slot.1 := Int.toNat_of_nonneg (by omega)
      refine .inr ⟨slot.1.toNat, by omega, slot.2, ?_⟩
      rw [hcast]
      exact ⟨hslot, fun hsame => hne (Prod.ext hsame.1 hsame.2), rfl⟩

/-- **A tiling with a tile split is a tiling** of the same box. -/
theorem Tiling.cellSplit (h : Tiling n columnCount tiles) (hselected : selected ∈ tiles) :
    Tiling n columnCount (cellSplit selected n tiles) := by
  have hrows : ∀ tile ∈ tiles, 0 ≤ tile.rowFrom ∧ tile.rowFrom < n := fun tile hmem => by
    have hrow := h.rows tile hmem
    omega
  have hrow := h.rows selected hselected
  have hcolumn := h.columns selected hselected
  have hsubset : ∀ tile ∈ tiles, (selected.splitAt tile).slots ⊆ tile.slots := by
    intro tile hmem slot hslot
    rcases eq_or_ne tile selected with rfl | hne
    · rw [splitAt_self, mem_firstSlot] at hslot
      rw [hslot, Tile.mem_slots]
      exact ⟨⟨le_rfl, hrow.2.1⟩, le_rfl, hcolumn.2.1⟩
    · rwa [h.splitAt_of_ne hselected hmem hne] at hslot
  refine ⟨spliceRows_order (fun _ => rowFrom_splitAt) fun row tile => rowFrom_of_mem_splitTiles,
    fun tile hin => ?_, fun tile hin => ?_, ?_, fun slot hr0 hr hc0 hc => ?_⟩
  · rcases (h.mem_cellSplit hselected).1 hin with rfl | ⟨hmem, -⟩ | ⟨slot, hslot, -, rfl⟩
    · dsimp only [Tile.firstSlot]
      omega
    · exact h.rows tile hmem
    · rw [Tile.mem_slots] at hslot
      dsimp only [newTile]
      omega
  · rcases (h.mem_cellSplit hselected).1 hin with rfl | ⟨hmem, -⟩ | ⟨slot, hslot, -, rfl⟩
    · dsimp only [Tile.firstSlot]
      omega
    · exact h.columns tile hmem
    · rw [Tile.mem_slots] at hslot
      dsimp only [newTile]
      omega
  · refine List.pairwise_map.2 (((spliceRows_perm h.order hrows _ _ _).pairwise_iff
      fun hab => hab.symm).2 ?_)
    rw [List.pairwise_append, List.pairwise_map]
    refine ⟨(List.pairwise_map.1 h.disjoint).imp_of_mem fun {a b} ha hb hab =>
        Disjoint.mono (hsubset a ha) (hsubset b hb) hab,
      List.pairwise_flatMap.2 ⟨fun row _ => pairwise_splitTiles _,
        List.nodup_range.imp fun {i j} hij a ha b hb => ?_⟩, fun a ha b hb => ?_⟩
    · obtain ⟨column, -, -, rfl⟩ := mem_splitTiles.1 ha
      obtain ⟨column', -, -, rfl⟩ := mem_splitTiles.1 hb
      rw [Finset.disjoint_left]
      intro slot hslot hslot'
      rw [mem_newTile] at hslot hslot'
      exact hij (Int.ofNat_inj.1 (Prod.mk.inj (hslot.symm.trans hslot')).1)
    · obtain ⟨old, hold, rfl⟩ := List.mem_map.1 ha
      obtain ⟨row, -, hb⟩ := List.mem_flatMap.1 hb
      obtain ⟨column, hslot, hne, rfl⟩ := mem_splitTiles.1 hb
      rw [Finset.disjoint_left]
      intro slot hin hin'
      rw [mem_newTile] at hin'
      obtain rfl := hin'
      obtain rfl := h.eq_of_mem_slots hold hselected (hsubset old hold hin) hslot
      change _ ∈ (old.splitAt old).slots at hin
      rw [splitAt_self, mem_firstSlot] at hin
      exact hne (Prod.mk.inj hin)
  · obtain ⟨old, hold, hslot⟩ := h.covers slot hr0 hr hc0 hc
    simp only [h.mem_cellSplit hselected]
    rcases eq_or_ne old selected with rfl | hne
    · rcases eq_or_ne slot (old.rowFrom, old.columnFrom) with hfirst | hother
      · exact ⟨_, .inl rfl, mem_firstSlot.2 hfirst⟩
      · exact ⟨_, .inr (.inr ⟨slot, hslot, hother, rfl⟩), mem_newTile.2 rfl⟩
    · exact ⟨old, .inr (.inl ⟨hold, hne⟩), hslot⟩

end Tiles

/-! ## The cells with one split -/

/-- The cells that are put in for a cell that is split, with their tiles. -/
def insertedSplit [Inhabited Text] (selected : Tile Text) (header : Bool) (row : ℕ) :
    List (TableCell Text × Tile Text) :=
  (splitTiles selected row).map fun tile =>
    (makeDefaultTableCell header, { tile with cell := makeDefaultTableCell header })

/-- A cell that is as wide and as high as a slot. -/
def slotCell (cell : TableCell Text) : TableCell Text := { cell with rowspan := 1, colspan := 1 }

section Result

variable {placed selected : CellStep Text × Tile Text} {row : ℕ}

/-- A cell is put in for each of the new tiles of a row. -/
theorem length_splitColumns [Inhabited Text]
    (hrow : selected.2.rowFrom ≤ row ∧ row < selected.2.rowTill) :
    (splitColumns (refOf selected.1 selected.2) row).length =
      (splitTiles selected.2 row).length := by
  have hreverse : ((List.range (selected.2.columnTill - selected.2.columnFrom).toNat).map
        fun (offset : ℕ) => selected.2.columnTill - 1 - offset) =
      ((List.range (selected.2.columnTill - selected.2.columnFrom).toNat).map
        fun (offset : ℕ) => selected.2.columnFrom + offset).reverse := by
    refine List.ext_getElem (by simp) fun i hi _ => ?_
    rw [List.length_map, List.length_range] at hi
    simp only [List.getElem_map, List.getElem_range, List.getElem_reverse, List.length_map,
      List.length_range]
    omega
  rw [splitColumns, splitTiles]
  change (List.filter _ ((List.range (selected.2.columnTill - selected.2.columnFrom).toNat).map
    fun (offset : ℕ) => selected.2.columnTill - 1 - offset)).length = _
  rw [hreverse, List.filter_reverse, List.length_reverse, List.filter_map, List.filter_map,
    List.length_map, List.length_map]
  refine congrArg List.length (List.filter_congr fun offset _ => ?_)
  rw [Function.comp, Function.comp, decide_eq_true hrow.1, decide_eq_true hrow.2]
  rfl

theorem mem_splitColumns {column : ℤ} :
    column ∈ splitColumns (refOf selected.1 selected.2) row ↔
      (selected.2.columnFrom ≤ column ∧ column < selected.2.columnTill)
        ∧ ¬((row : ℤ) = selected.2.rowFrom ∧ column = selected.2.columnFrom) := by
  simp only [splitColumns, List.mem_filter, List.mem_map, List.mem_range, Bool.not_eq_true',
    Bool.and_eq_false_iff, decide_eq_false_iff_not]
  dsimp only [refOf]
  constructor
  · rintro ⟨⟨offset, hlt, rfl⟩, hnot⟩
    omega
  · rintro ⟨hcolumn, hnot⟩
    exact ⟨⟨(selected.2.columnTill - 1 - column).toNat, by omega, by omega⟩, by omega⟩

variable (hwhole : (buildTableGridWithin tableRows limits).Whole tableRows)
  (hselected : selected ∈ tiled tableRows limits)

include hwhole hselected

/-- **The cells in front of a new one** are those in front of the ones that follow: no other cell
starts between the columns of the one that is split. -/
theorem frontTiled_splitColumns (hrow : selected.2.rowFrom ≤ row ∧ row < selected.2.rowTill)
    {column : ℤ} (hcolumn : column ∈ splitColumns (refOf selected.1 selected.2) row) :
    frontTiled tableRows limits (startsBefore column) row =
      frontTiled tableRows limits (startsBefore (selected.2.columnFrom + 1)) row := by
  obtain ⟨hcolumn, hnot⟩ := mem_splitColumns.1 hcolumn
  refine takeWhile_congr fun placed hmem => ?_
  obtain ⟨hmem, hown⟩ := List.mem_filter.1 hmem
  have hown := of_decide_eq_true hown
  have hrowFrom := (unclamped_of_mem_tiled hwhole hmem).rowFrom
  have hbounds := layout_bounds (snd_mem_layout hwhole hmem)
  have hother : placed ≠ selected →
      ¬(selected.2.columnFrom ≤ placed.2.columnFrom
        ∧ placed.2.columnFrom < selected.2.columnTill) := fun hne hbetween =>
    hne (eq_of_mem_tiled_slots hwhole hmem hselected
      (first_mem_slots (snd_mem_layout hwhole hmem)) (Tile.mem_slots.2 (by dsimp only; omega)))
  rw [startsBefore, startsBefore, decide_eq_decide]
  rcases eq_or_ne placed selected with rfl | hne
  · constructor <;> intro <;> omega
  · have hother := hother hne
    constructor <;> intro <;> omega

/-- The step of a cell once the selected one is as wide and as high as a slot. -/
def splitStep (selected placed : CellStep Text × Tile Text) : CellStep Text :=
  changeAt selected.1 slotCell placed.1

omit hwhole hselected in
theorem rowIndex_splitStep : (splitStep selected placed).rowIndex = placed.1.rowIndex := by
  unfold splitStep changeAt
  split_ifs <;> rfl

omit hselected in
theorem steps_modifyCell_selected :
    steps (modifyCell tableRows (refOf selected.1 selected.2) slotCell) =
      (tiled tableRows limits).map (splitStep selected) := by
  rw [steps_modifyCell, ← map_fst_tiled hwhole, List.map_map]
  rfl

/-- The new cells of a row are put in one by one. -/
theorem foldl_insertSplit {changed : List (TableRow Text)}
    (hsteps : steps changed = (tiled tableRows limits).map (splitStep selected))
    {own : TableRow Text} {place : ℕ} (hmem : (own, row) ∈ changed.zipIdx)
    (hplace : place =
      (frontTiled tableRows limits (startsBefore (selected.2.columnFrom + 1)) row).length)
    (hrow : selected.2.rowFrom ≤ row ∧ row < selected.2.rowTill) (cell : TableCell Text)
    {columns : List ℤ}
    (hcolumns : ∀ column ∈ columns, column ∈ splitColumns (refOf selected.1 selected.2) row)
    (count : ℕ) :
    columns.foldl (fun own column => insertTableCellBeforeVisualColumn own
        (buildTableGridWithin tableRows limits) row column cell)
        { cells := own.cells.take place ++ List.replicate count cell ++ own.cells.drop place } =
      { cells := own.cells.take place ++ List.replicate (count + columns.length) cell
          ++ own.cells.drop place } := by
  induction columns generalizing count with
  | nil => rfl
  | cons column columns ih =>
    obtain ⟨hcolumn, hcolumns⟩ := List.forall_mem_cons.1 hcolumns
    rw [List.foldl_cons, insertTableCellBeforeVisualColumn_take_drop hwhole hsteps
      (fun _ => rowIndex_splitStep) hmem column (by
        rw [frontTiled_splitColumns hwhole hselected hrow hcolumn]
        exact hplace) cell count, ih hcolumns, List.length_cons]
    congr 4
    omega

omit hwhole hselected in
/-- A row is changed several times. -/
theorem foldl_modify_self (change : ℤ → TableRow Text → TableRow Text) (columns : List ℤ)
    (tableRows : List (TableRow Text)) (row : ℕ) :
    columns.foldl (fun tableRows column => tableRows.modify row (change column)) tableRows =
      tableRows.modify row fun own => columns.foldl (fun own column => change column own) own := by
  induction columns generalizing tableRows with
  | nil => exact (List.modify_id ..).symm
  | cons column columns ih =>
    rw [List.foldl_cons, ih, List.modify_modify_eq]
    rfl

omit hwhole hselected in
theorem map_fst_insertedSplit [Inhabited Text] (header : Bool) :
    (insertedSplit selected.2 header row).map Prod.fst =
      List.replicate (splitTiles selected.2 row).length (makeDefaultTableCell header) := by
  rw [insertedSplit, List.map_map]
  exact List.map_const' ..

omit hselected in
/-- **The loops of `splitTableCell`** put the cells into the rows. -/
theorem foldl_splitRows [Inhabited Text] {changed : List (TableRow Text)}
    (hselected : selected ∈ tiled tableRows limits)
    (hsteps : steps changed = (tiled tableRows limits).map (splitStep selected)) (header : Bool) :
    (List.range (selected.2.rowTill - selected.2.rowFrom).toNat).foldl
        (fun changed (offset : ℕ) =>
          (splitColumns (refOf selected.1 selected.2) (selected.2.rowFrom + offset)).foldl
            (fun changed column => changed.modify (selected.2.rowFrom + offset).toNat fun own =>
              insertTableCellBeforeVisualColumn own (buildTableGridWithin tableRows limits)
                (selected.2.rowFrom + offset) column (makeDefaultTableCell header)) changed)
        changed =
      spliceCells
        (fun row =>
          (frontTiled tableRows limits (startsBefore (selected.2.columnFrom + 1)) row).length)
        (fun row => (insertedSplit selected.2 header row).map Prod.fst) changed := by
  have hrowFrom := (unclamped_of_mem_tiled hwhole hselected).rowFrom
  have hrows : (fun (changed : List (TableRow Text)) (offset : ℕ) =>
        (splitColumns (refOf selected.1 selected.2) (selected.2.rowFrom + offset)).foldl
          (fun changed column => changed.modify (selected.2.rowFrom + offset).toNat fun own =>
            insertTableCellBeforeVisualColumn own (buildTableGridWithin tableRows limits)
              (selected.2.rowFrom + offset) column (makeDefaultTableCell header)) changed) =
      fun changed offset => changed.modify (selected.1.rowIndex + offset) fun own =>
        (splitColumns (refOf selected.1 selected.2) ((selected.1.rowIndex + offset : ℕ) : ℤ)).foldl
          (fun own column => insertTableCellBeforeVisualColumn own
            (buildTableGridWithin tableRows limits) ((selected.1.rowIndex + offset : ℕ) : ℤ) column
              (makeDefaultTableCell header)) own := by
    funext changed offset
    rw [foldl_modify_self, hrowFrom, ← Nat.cast_add, Int.toNat_natCast]
  have hnodup : ((List.range (selected.2.rowTill - selected.2.rowFrom).toNat).map
      (selected.1.rowIndex + ·)).Nodup := List.nodup_range.map fun i j h => by simpa using h
  obtain ⟨_, hfold⟩ := foldl_modify hnodup (fun _ => False) (fun _ _ => header)
    (fun row _ own => (splitColumns (refOf selected.1 selected.2) row).foldl
      (fun own column => insertTableCellBeforeVisualColumn own
        (buildTableGridWithin tableRows limits) row column (makeDefaultTableCell header)) own)
    changed
  rw [List.foldl_map] at hfold
  simp only [if_false, not_false_eq_true, and_true] at hfold
  rw [hrows]
  refine hfold.trans (List.ext_getElem? fun row => ?_)
  rw [spliceCells, List.getElem?_mapIdx, List.getElem?_mapIdx]
  cases hown : changed[row]? with
  | none => rfl
  | some own =>
    rw [Option.map_some, Option.map_some, map_fst_insertedSplit]
    refine congrArg some ?_
    by_cases hrow : selected.2.rowFrom ≤ row ∧ row < selected.2.rowTill
    · have hinsert := foldl_insertSplit hwhole hselected hsteps
        (List.mem_zipIdx_iff_getElem?.2 hown) rfl hrow (makeDefaultTableCell header)
        (fun column hcolumn => hcolumn) 0
      rw [List.replicate_zero, List.append_nil, List.take_append_drop, zero_add,
        length_splitColumns hrow] at hinsert
      rw [if_pos (List.mem_map.2 ⟨row - selected.1.rowIndex, List.mem_range.2 (by omega),
        by omega⟩)]
      exact hinsert
    · have hnone : splitTiles selected.2 row = [] := List.eq_nil_iff_forall_not_mem.2
        fun tile hmem => by
          obtain ⟨column, hslot, -⟩ := mem_splitTiles.1 hmem
          exact hrow (Tile.mem_slots.1 hslot).1
      rw [hnone, List.length_nil, List.replicate_zero, List.append_nil, List.take_append_drop,
        if_neg]
      intro hmem
      obtain ⟨offset, hoffset, rfl⟩ := List.mem_map.1 hmem
      have hlt := List.mem_range.1 hoffset
      omega

/-- The step of another cell is left as it is. -/
theorem splitStep_of_ne (hmem : placed ∈ tiled tableRows limits) (hne : placed ≠ selected) :
    splitStep selected placed = placed.1 :=
  if_neg fun hindex => hne (eq_of_mem_tiled hwhole hmem hselected hindex.1 hindex.2)

/-- The cells with one split have the spans of their tiles. -/
theorem unclamped_splitTiled [Inhabited Text] (header : Bool) :
    ∀ new ∈ splicedTiled tableRows limits (startsBefore (selected.2.columnFrom + 1))
        (splitStep selected) (Tile.splitAt selected.2) (insertedSplit selected.2 header),
      Unclamped ⟨new.1.1, 0, new.1.2⟩ new.2 := by
  intro new hmem
  rcases (mem_splicedTiled hwhole).1 hmem with
    ⟨placed, hplaced, rfl⟩ | ⟨row, hrow, cell, hcell, rfl⟩
  · have hspans := unclamped_of_mem_tiled hwhole hplaced
    rcases eq_or_ne placed selected with rfl | hne
    · rw [splitAt_self, CellStep.entry, splitStep, changeAt, if_pos ⟨rfl, rfl⟩]
      exact ⟨hspans.content, hspans.rowFrom, rfl, rfl⟩
    · have hsame : selected.2.splitAt placed.2 = placed.2 := if_neg fun hsame =>
        hne (eq_of_starts hwhole hplaced hselected hsame.1.symm hsame.2.symm)
      rw [hsame, splitStep_of_ne hwhole hselected hplaced hne]
      exact ⟨hspans.content, hspans.rowFrom, hspans.rowTill, hspans.columnTill⟩
  · obtain ⟨tile, htile, rfl⟩ := List.mem_map.1 hcell
    obtain ⟨column, -, -, rfl⟩ := mem_splitTiles.1 htile
    exact unclamped_newTile _ _ _

omit hselected in
/-- What is selected is the cell of the one tile that has a slot in the range. -/
theorem exists_selected {range : TableCellRange} {tile : Tile Text}
    (hselected : (textLayout tableRows limits).filter (Tile.meets range) = [tile]) :
    ∃ selected ∈ tiled tableRows limits, selected.2.textOnly = tile
      ∧ selectedTableGridCells (buildTableGridWithin tableRows limits) range =
        [refOf selected.1 selected.2] := by
  have hcells : selectedTableGridCells (buildTableGridWithin tableRows limits) range =
      ((tiled tableRows limits).filter fun placed => placed.2.textOnly.meets range).map
        fun placed => refOf placed.1 placed.2 := by
    rw [selectedTableGridCells, cells_eq_map_tiled hwhole, List.filter_map]
    rfl
  rw [textLayout_eq hwhole, List.filter_map] at hselected
  obtain ⟨selected, hfilter, rfl⟩ := List.map_eq_singleton_iff.1 hselected
  change (tiled tableRows limits).filter (fun placed => placed.2.textOnly.meets range) = _
    at hfilter
  have hmem : selected ∈ (tiled tableRows limits).filter
      fun placed => placed.2.textOnly.meets range := hfilter ▸ List.mem_singleton_self selected
  exact ⟨selected, (List.mem_filter.1 hmem).1, rfl, by rw [hcells, hfilter]; rfl⟩

omit hselected in
/-- **The table with a cell split** has the cells of the tiles with it split. -/
theorem splitTableCell_cellsOf [Inhabited Text] {range : TableCellRange}
    (hvalid : validateTableCellRange tableRows limits range = some range)
    (hfits : limits.Fits tableRows.length (buildTableGridWithin tableRows limits).columnCount)
    {tile : Tile Text}
    (hselected : (textLayout tableRows limits).filter (Tile.meets range) = [tile])
    (hslots : 1 < tile.rowTill - tile.rowFrom ∨ 1 < tile.columnTill - tile.columnFrom) :
    ∃ tableRows', splitTableCell limits tableRows range = some tableRows'
      ∧ tableRows'.length = tableRows.length
      ∧ CellsOf limits tableRows' (buildTableGridWithin tableRows limits).rowCount
        (buildTableGridWithin tableRows limits).columnCount
        (cellSplit tile tableRows.length (textLayout tableRows limits)) := by
  obtain ⟨-, hrows, hcolumns⟩ := eq_of_validateTableCellRange hvalid
  have hcount := limitedRowCount_eq hfits.rows
  obtain ⟨selected, hmem, rfl, hcells⟩ := exists_selected hwhole hselected
  have hspans := unclamped_of_mem_tiled hwhole hmem
  have hcell := @referredCell_step _ tableRows _ (fst_mem_steps hwhole hmem)
    (refOf selected.1 selected.2) ⟨rfl, rfl⟩
  have hsteps := @steps_modifyCell_selected _ tableRows limits selected hwhole
  have hlength : (modifyCell tableRows (refOf selected.1 selected.2) slotCell).length =
      tableRows.length := length_modifyCell ..
  have hlarge : ¬(selected.1.cell.rowspan ≤ 1 ∧ selected.1.cell.colspan ≤ 1) := by
    have hrowTill := hspans.rowTill
    have hcolumnTill := hspans.columnTill
    dsimp only [Tile.textOnly] at hslots
    unfold normalizeTableSpan at hrowTill hcolumnTill
    omega
  unfold splitTableCell
  rw [hvalid]
  dsimp only
  rw [hcells]
  dsimp only
  rw [hcell]
  dsimp only
  rw [if_neg hlarge, rowCount_within, hcount]
  rw [rowCount_within, hcount] at hrows
  have hfold := foldl_splitRows hwhole hmem hsteps selected.1.cell.header
  have hmemText : selected.2.textOnly ∈ textLayout tableRows limits := by
    rw [textLayout_eq hwhole]
    exact List.mem_map_of_mem hmem
  have htiling := hwhole.tiling.1
  rw [hcount] at htiling
  have htiles : cellSplit selected.2.textOnly tableRows.length (textLayout tableRows limits) =
      (splicedTiled tableRows limits (startsBefore (selected.2.columnFrom + 1))
        (splitStep selected) (Tile.splitAt selected.2)
        (insertedSplit selected.2 selected.1.cell.header)).map fun placed => placed.2.textOnly := by
    refine .trans ?_ (spliceRows_eq hwhole (fun _ => rfl) fun tile => apply_ite Tile.textOnly ..)
    refine congrArg (spliceRows _ _ _ · _) (funext fun row => ?_)
    rw [insertedSplit, List.map_map]
    refine (List.map_id _).symm.trans (List.map_congr_left fun tile htile => ?_)
    obtain ⟨column, -, -, rfl⟩ := mem_splitTiles.1 htile
    rfl
  refine ⟨_, congrArg some hfold, (length_spliceCells ..).trans hlength,
    ⟨_, entriesFrom_spliceCells hsteps (fun _ => rowIndex_splitStep) hlength, htiles,
      unclamped_splitTiled hwhole hmem _⟩, htiling.cellSplit hmemText, ?_, hfits, by omega,
    by omega⟩
  rw [limitedRowCount_eq (by rw [length_spliceCells, hlength]; exact hfits.rows),
    length_spliceCells, hlength]

end Result

end Yunogram.Iv.Editor
