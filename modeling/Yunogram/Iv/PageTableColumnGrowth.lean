import Yunogram.Iv.PageTableInsertion

/-!
# Iv/PageTableColumnGrowth — when a column that is added is added to the grid, and nothing else

The cells that cross the line are extended by a column and each other row has one more cell.  The
grid is as it should be exactly when the tiles that should be are held in place: where the cells of
a row are not in the order of their columns, a cell that is wider, or a new one, may go elsewhere.
-/

open Machinery
open scoped Machinery.Computed

namespace Yunogram.Iv.Editor

variable {Text : Type} {tableRows : List (TableRow Text)}
  {limits : MarkdownPrepareTableRenderLimits}

/-! ## Tiles with a column put in -/

section Tiles

variable {tiles : List (Tile Text)} {n : ℕ} {columnCount line : ℤ} {tile : Tile Text}

theorem mem_openColumn (hlt : tile.columnFrom < tile.columnTill) {slot : ℤ × ℤ} :
    slot ∈ (tile.openColumn line).slots ↔
      (tile.rowFrom ≤ slot.1 ∧ slot.1 < tile.rowTill)
        ∧ ((slot.2 < line ∧ tile.columnFrom ≤ slot.2 ∧ slot.2 < tile.columnTill)
          ∨ (line < slot.2 ∧ tile.columnFrom ≤ slot.2 - 1 ∧ slot.2 - 1 < tile.columnTill)
          ∨ slot.2 = line ∧ tile.columnFrom < line ∧ line < tile.columnTill) := by
  rw [Tile.mem_slots]
  refine and_congr_right fun _ => ?_
  dsimp only [Tile.openColumn]
  split_ifs <;> omega

theorem freeRow_iff {row : ℕ} : freeRow line tiles row = true ↔
    ∀ tile ∈ tiles, tile.columnFrom < line → line < tile.columnTill → tile.rowFrom ≤ row →
      tile.rowTill ≤ row := by
  rw [freeRow, Bool.not_eq_true', List.any_eq_false]
  refine forall₂_congr fun tile _ => ?_
  simp only [Bool.and_eq_true, decide_eq_true_eq, not_and, not_lt, and_imp]

variable [Inhabited Text]

/-- **A tiling with a column put in is a tiling** of the wider box. -/
theorem Tiling.columnAdded (h : Tiling n columnCount tiles) (h0 : 0 ≤ line)
    (hle : line ≤ columnCount) :
    Tiling n (columnCount + 1) (columnAdded line n tiles) := by
  have hrows : ∀ tile ∈ tiles, 0 ≤ tile.rowFrom ∧ tile.rowFrom < n := fun tile hmem => by
    have hrow := h.rows tile hmem
    omega
  have hnew : ∀ (row : ℕ) (tile : Tile Text),
      tile ∈ (if freeRow line tiles row then [newTile (row : ℤ) line] else []) ↔
        freeRow line tiles row = true ∧ tile = newTile row line := fun row tile => by
    split_ifs with hfree <;> simp [hfree]
  have hmem : ∀ tile, tile ∈ Editor.columnAdded line n tiles ↔
      (∃ old ∈ tiles, old.openColumn line = tile)
        ∨ ∃ row : ℕ, row < n ∧ freeRow line tiles row = true ∧ tile = newTile row line := by
    intro tile
    rw [Editor.columnAdded, mem_spliceRows h.order hrows]
    simp only [hnew]
  refine ⟨spliceRows_order (fun _ => rfl) fun row tile hin => ?_, fun tile hin => ?_,
    fun tile hin => ?_, ?_, fun slot hr0 hr hc0 hc => ?_⟩
  · obtain ⟨-, rfl⟩ := (hnew row tile).1 hin
    rfl
  · rcases (hmem tile).1 hin with ⟨old, hold, rfl⟩ | ⟨row, hrow, -, rfl⟩
    · exact h.rows old hold
    · dsimp only [newTile]
      omega
  · rcases (hmem tile).1 hin with ⟨old, hold, rfl⟩ | ⟨row, hrow, -, rfl⟩
    · have hcolumns := h.columns old hold
      dsimp only [Tile.openColumn]
      split_ifs <;> omega
    · dsimp only [newTile]
      omega
  · refine List.pairwise_map.2 (((spliceRows_perm h.order hrows _ _ _).pairwise_iff
      fun hab => hab.symm).2 ?_)
    rw [List.pairwise_append, List.pairwise_map]
    refine ⟨(List.pairwise_map.1 h.disjoint).imp_of_mem fun {a b} ha hb hab => ?_,
      List.pairwise_flatMap.2 ⟨fun row _ => ?_, List.nodup_range.imp fun {i j} hij a ha b hb => ?_⟩,
      fun a ha b hb => ?_⟩
    · rw [Finset.disjoint_left] at hab ⊢
      intro slot hslot hslot'
      rw [mem_openColumn (h.columns a ha).2.1] at hslot
      rw [mem_openColumn (h.columns b hb).2.1] at hslot'
      have hlift := @hab (slot.1, if slot.2 < line then slot.2 else slot.2 - 1)
      rw [Tile.mem_slots, Tile.mem_slots] at hlift
      dsimp only at hlift
      split_ifs at hlift <;> omega
    · split_ifs
      · exact List.pairwise_singleton _ _
      · exact .nil
    · obtain ⟨-, rfl⟩ := (hnew i a).1 ha
      obtain ⟨-, rfl⟩ := (hnew j b).1 hb
      rw [Finset.disjoint_left]
      intro slot hslot hslot'
      rw [mem_newTile] at hslot hslot'
      exact hij (Int.ofNat_inj.1 (Prod.mk.inj (hslot.symm.trans hslot')).1)
    · obtain ⟨old, hold, rfl⟩ := List.mem_map.1 ha
      obtain ⟨row, -, hb⟩ := List.mem_flatMap.1 hb
      obtain ⟨hfree, rfl⟩ := (hnew row b).1 hb
      have hfree := freeRow_iff.1 hfree old hold
      rw [Finset.disjoint_left]
      intro slot hslot hslot'
      rw [mem_newTile] at hslot'
      rw [hslot', mem_openColumn (h.columns old hold).2.1] at hslot
      dsimp only at hslot
      omega
  · have hmove : ∀ column, 0 ≤ column → column < columnCount → (slot.2 < line ∧ column = slot.2
        ∨ line < slot.2 ∧ column = slot.2 - 1) →
        ∃ tile ∈ Editor.columnAdded line n tiles, slot ∈ tile.slots := by
      intro column hcolumn0 hcolumn hcases
      obtain ⟨old, hold, hslot⟩ := h.covers (slot.1, column) hr0 hr hcolumn0 hcolumn
      rw [Tile.mem_slots] at hslot
      refine ⟨_, (hmem _).2 (.inl ⟨old, hold, rfl⟩), ?_⟩
      rw [mem_openColumn (h.columns old hold).2.1]
      dsimp only at hslot
      omega
    rcases lt_trichotomy slot.2 line with hbefore | hline | hafter
    · exact hmove slot.2 hc0 (by omega) (.inl ⟨hbefore, rfl⟩)
    · have hrow : ((slot.1.toNat : ℕ) : ℤ) = slot.1 := Int.toNat_of_nonneg hr0
      by_cases hfree : freeRow line tiles slot.1.toNat = true
      · refine ⟨_, (hmem _).2 (.inr ⟨slot.1.toNat, by omega, hfree, rfl⟩), ?_⟩
        rw [mem_newTile, hrow, ← hline]
      · simp only [freeRow_iff, hrow, not_forall, not_le, exists_prop] at hfree
        obtain ⟨old, hold, hfrom, htill, hrowFrom, hrowTill⟩ := hfree
        refine ⟨_, (hmem _).2 (.inl ⟨old, hold, rfl⟩), ?_⟩
        rw [mem_openColumn (h.columns old hold).2.1]
        exact ⟨⟨hrowFrom, hrowTill⟩, .inr (.inr ⟨hline, hfrom, htill⟩)⟩
    · exact hmove (slot.2 - 1) (by omega) (by omega) (.inr ⟨hafter, rfl⟩)

end Tiles

/-! ## The cells with a column put in -/

/-- The check of `addTableColumnUnchecked` that a cell crosses the line. -/
def crossesColumn (line : ℤ) (reference : TableGridCellReference) : Bool :=
  !(reference.columnFrom ≥ line || reference.columnTill ≤ line)

/-- A cell that is a column wider. -/
def widerCell (cell : TableCell Text) : TableCell Text :=
  { cell with colspan := incrementTableSpan cell.colspan }

/-- The loop of `addTableColumnUnchecked` over the grid. -/
def extendColumns (limits : MarkdownPrepareTableRenderLimits) (line : ℤ)
    (tableRows : List (TableRow Text)) : List (TableRow Text) × Finset ℤ :=
  extendCrossing (crossesColumn line) widerCell
    (fun reference => Finset.Ico reference.rowFrom reference.rowTill)
    (buildTableGridWithin tableRows limits).cells tableRows

/-- The cells that are put in, each with a header or without one, with their tiles. -/
def insertedColumn [Inhabited Text] (line : ℤ) (tiles : List (Tile Text)) (header : ℕ → Bool)
    (row : ℕ) : List (TableCell Text × Tile Text) :=
  if freeRow line tiles row then
    [(makeDefaultTableCell (header row),
      { (newTile row line : Tile Text) with cell := makeDefaultTableCell (header row) })]
  else []

/-- Rows are changed one after the other, each by what is found in the table at its turn. -/
theorem foldl_modify {rows : List ℕ} (hnodup : rows.Nodup) (skipped : ℕ → Prop)
    [DecidablePred skipped] (source : List (TableRow Text) → ℕ → Bool)
    (change : ℕ → Bool → TableRow Text → TableRow Text) (tableRows : List (TableRow Text)) :
    ∃ header : ℕ → Bool, rows.foldl (fun tableRows row =>
        if skipped row then tableRows
        else tableRows.modify row (change row (source tableRows row))) tableRows =
      tableRows.mapIdx fun row own =>
        if row ∈ rows ∧ ¬skipped row then change row (header row) own else own := by
  induction rows generalizing tableRows with
  | nil =>
    refine ⟨fun _ => false, List.ext_getElem? fun j => ?_⟩
    rw [List.getElem?_mapIdx]
    simp
  | cons row rows ih =>
    obtain ⟨hfirst, hnodup⟩ := List.nodup_cons.1 hnodup
    rw [List.foldl_cons]
    by_cases hskipped : skipped row
    · obtain ⟨header, hrows⟩ := ih hnodup tableRows
      refine ⟨header, ?_⟩
      rw [if_pos hskipped, hrows]
      refine List.ext_getElem? fun j => ?_
      rw [List.getElem?_mapIdx, List.getElem?_mapIdx]
      refine congrArg (Option.map · _) (funext fun own => if_congr ?_ rfl rfl)
      refine and_congr_left fun hj => ⟨List.mem_cons_of_mem _, fun hmem => ?_⟩
      exact (List.mem_cons.1 hmem).resolve_left fun heq => hj (heq ▸ hskipped)
    · rw [if_neg hskipped]
      obtain ⟨header, hrows⟩ := ih hnodup (tableRows.modify row (change row (source tableRows row)))
      refine ⟨Function.update header row (source tableRows row), ?_⟩
      rw [hrows]
      refine List.ext_getElem? fun j => ?_
      rw [List.getElem?_mapIdx, List.getElem?_mapIdx, List.getElem?_modify, Option.map_eq_map,
        Option.map_map]
      refine congrArg (Option.map · _) (funext fun own => ?_)
      by_cases hj : row = j
      · subst hj
        simp [hskipped, hfirst]
      · simp [hj, Ne.symm hj]

/-! ## The result -/

section Result

variable [Inhabited Text] {line : ℤ} {columnCount : ℤ} {placed : CellStep Text × Tile Text}

omit [Inhabited Text] in
/-- **A tile that is opened for a column** has the spans of its cell, extended where it crosses the
line. -/
theorem Unclamped.openColumn (h : Unclamped placed.1 placed.2)
    (hint : placed.2.columnTill - placed.2.columnFrom < intMax) :
    Unclamped (extendedStep (crossesColumn line) widerCell placed) (placed.2.openColumn line) := by
  have hspan := one_le_normalizeTableSpan placed.1.cell.colspan
  have hcolumnTill := h.columnTill
  have hcrosses : crossesColumn line (refOf placed.1 placed.2) = true ↔
      placed.2.columnFrom < line ∧ line < placed.2.columnTill := by
    rw [crossesColumn, Bool.not_eq_true', Bool.or_eq_false_iff, decide_eq_false_iff_not,
      decide_eq_false_iff_not, not_le, not_le]
    rfl
  by_cases hcross : crossesColumn line (refOf placed.1 placed.2) = true
  · have hwider := normalizeTableSpan_incrementTableSpan
      (show normalizeTableSpan placed.1.cell.colspan < intMax by omega)
    rw [extendedStep, if_pos hcross]
    rw [hcrosses] at hcross
    refine ⟨h.content, h.rowFrom, h.rowTill, ?_⟩
    dsimp only [Tile.openColumn, widerCell]
    rw [if_pos hcross.2, if_neg (not_le.2 hcross.1), hwider]
    omega
  · rw [extendedStep, if_neg hcross]
    rw [hcrosses] at hcross
    refine ⟨h.content, h.rowFrom, h.rowTill, ?_⟩
    dsimp only [Tile.openColumn]
    split_ifs <;> omega

variable (hwhole : (buildTableGridWithin tableRows limits).Whole tableRows)

include hwhole

/-- The cells with a column put in have the spans of their tiles. -/
theorem unclamped_columnTiled {header : ℕ → Bool}
    (hint : (buildTableGridWithin tableRows limits).columnCount < intMax) :
    ∀ new ∈ splicedTiled tableRows limits (startsBefore line) (extendedStep (crossesColumn line)
        widerCell) (Tile.openColumn line)
        (insertedColumn line (textLayout tableRows limits) header),
      Unclamped ⟨new.1.1, 0, new.1.2⟩ new.2 := by
  intro new hmem
  rcases (mem_splicedTiled hwhole).1 hmem with
    ⟨placed, hplaced, rfl⟩ | ⟨row, hrow, cell, hcell, rfl⟩
  · have hbounds := layout_bounds (snd_mem_layout hwhole hplaced)
    have hspans := @Unclamped.openColumn _ line _ (unclamped_of_mem_tiled hwhole hplaced) (by omega)
    exact ⟨hspans.content, hspans.rowFrom, hspans.rowTill, hspans.columnTill⟩
  · unfold insertedColumn at hcell
    split_ifs at hcell
    · obtain rfl := List.mem_singleton.1 hcell
      exact unclamped_newTile _ _ _
    · exact absurd hcell List.not_mem_nil

omit [Inhabited Text] in
/-- A row is flagged exactly where a cell that crosses the line is in it. -/
theorem mem_coveredRows {row : ℕ} :
    (row : ℤ) ∈ (extendColumns limits line tableRows).2 ↔
      ¬freeRow line (textLayout tableRows limits) row = true := by
  rw [extendColumns, mem_extendCrossing, cells_eq_map_tiled hwhole, textLayout_eq hwhole,
    freeRow_iff]
  simp only [not_forall, not_le, exists_prop, List.mem_map, exists_exists_and_eq_and,
    crossesColumn, Bool.not_eq_true', Bool.or_eq_false_iff, decide_eq_false_iff_not, not_le,
    Finset.mem_Ico, ge_iff_le, and_assoc]
  rfl

/-- The loop of `addTableColumnUnchecked` over the rows puts the cells in. -/
theorem foldl_insertColumn (line : ℤ) (source : List (TableRow Text) → ℕ → Bool) :
    ∃ header : ℕ → Bool,
      (List.range (extendColumns limits line tableRows).1.length).foldl
          (fun tableRows' (row : ℕ) =>
            if (row : ℤ) ∈ (extendColumns limits line tableRows).2 then tableRows'
            else tableRows'.modify row fun own => insertTableCellBeforeVisualColumn own
              (buildTableGridWithin tableRows limits) row line
              (makeDefaultTableCell (source tableRows' row)))
          (extendColumns limits line tableRows).1 =
        spliceCells
          (fun row => (frontTiled tableRows limits (startsBefore line) row).length)
          (fun row => (insertedColumn line (textLayout tableRows limits) header row).map Prod.fst)
          (extendColumns limits line tableRows).1 := by
  obtain ⟨header, hfold⟩ := foldl_modify (List.nodup_range
      (n := (extendColumns limits line tableRows).1.length))
    (fun (row : ℕ) => (row : ℤ) ∈ (extendColumns limits line tableRows).2) source
    (fun row header own => insertTableCellBeforeVisualColumn own
      (buildTableGridWithin tableRows limits) row line (makeDefaultTableCell header))
    (extendColumns limits line tableRows).1
  refine ⟨header, hfold.trans (List.ext_getElem? fun row => ?_)⟩
  rw [spliceCells, List.getElem?_mapIdx, List.getElem?_mapIdx]
  cases hrow : (extendColumns limits line tableRows).1[row]? with
  | none => rfl
  | some own =>
    have hlt := (List.getElem?_eq_some_iff.1 hrow).1
    have hiff := @mem_coveredRows _ tableRows limits line hwhole row
    rw [Option.map_some, Option.map_some, insertedColumn]
    refine congrArg some ?_
    by_cases hfree : freeRow line (textLayout tableRows limits) row = true
    · have hinsert := insertTableCellBeforeVisualColumn_take_drop hwhole
        (steps_extendCrossing hwhole) rowIndex_extendedStep
        (List.mem_zipIdx_iff_getElem?.2 hrow) line rfl (makeDefaultTableCell (header row)) 0
      rw [List.replicate_zero, List.append_nil, List.take_append_drop] at hinsert
      rw [if_pos ⟨List.mem_range.2 hlt, fun hcovered => hiff.1 hcovered hfree⟩, if_pos hfree]
      exact hinsert
    · rw [if_neg fun h => h.2 (hiff.2 hfree), if_neg hfree, List.map_nil, List.append_nil,
        List.take_append_drop]

/-- The table with a column put in has the cells of the tiles with it. -/
theorem addTableColumn_cellsOf {range : TableCellRange}
    (hvalid : validateTableCellRange tableRows limits range = some range) (after : Bool)
    (hfits : limits.Fits tableRows.length
      ((buildTableGridWithin tableRows limits).columnCount + 1)) :
    ∃ tableRows', addTableColumnUnchecked limits tableRows range after = some tableRows'
      ∧ tableRows'.length = tableRows.length
      ∧ CellsOf limits tableRows' (buildTableGridWithin tableRows limits).rowCount
        ((buildTableGridWithin tableRows limits).columnCount + 1)
        (columnAdded (if after then range.columnTill else range.columnFrom) tableRows.length
          (textLayout tableRows limits)) := by
  obtain ⟨-, hrows, hcolumns⟩ := eq_of_validateTableCellRange hvalid
  have hcount := limitedRowCount_eq hfits.rows
  have hmax := limits.maxColumns_le
  have hcolumnsFit := hfits.columns
  have hline : 0 ≤ (if after then range.columnTill else range.columnFrom)
      ∧ (if after then range.columnTill else range.columnFrom) ≤
        (buildTableGridWithin tableRows limits).columnCount := by
    split_ifs <;> omega
  unfold addTableColumnUnchecked
  rw [hvalid]
  dsimp only
  rw [rowCount_within, hcount] at hrows ⊢
  generalize (if after then range.columnTill else range.columnFrom) = line at hline ⊢
  obtain ⟨header, hfold⟩ := foldl_insertColumn hwhole line fun tableRows' row =>
    headerOf (tableGridCellAt tableRows' (buildTableGridWithin tableRows limits) row
      (if after then range.columnTill - 1 else range.columnFrom))
  have hsteps : steps (extendColumns limits line tableRows).1 =
      (tiled tableRows limits).map (extendedStep (crossesColumn line) widerCell) :=
    steps_extendCrossing hwhole
  have hlength : (extendColumns limits line tableRows).1.length = tableRows.length :=
    length_extendCrossing hwhole
  obtain ⟨htiling, -⟩ := hwhole.tiling
  rw [hcount] at htiling
  have htiles : columnAdded line tableRows.length (textLayout tableRows limits) =
      (splicedTiled tableRows limits (startsBefore line) (extendedStep (crossesColumn line)
        widerCell) (Tile.openColumn line)
        (insertedColumn line (textLayout tableRows limits) header)).map
          fun placed => placed.2.textOnly := by
    refine .trans ?_ (spliceRows_eq hwhole (fun _ => rfl) fun _ => rfl)
    refine congrArg (spliceRows _ _ _ · _) (funext fun row => ?_)
    rw [insertedColumn]
    split_ifs <;> rfl
  have hlength' : ∀ (place : ℕ → ℕ) (inserted : ℕ → List (TableCell Text)), (spliceCells place
      inserted (extendColumns limits line tableRows).1).length = tableRows.length :=
    fun place inserted => (length_spliceCells ..).trans hlength
  refine ⟨_, congrArg some hfold, hlength' _ _,
    ⟨_, entriesFrom_spliceCells hsteps rowIndex_extendedStep hlength, htiles,
      unclamped_columnTiled hwhole (by omega)⟩,
    htiling.columnAdded hline.1 hline.2, ?_, hfits, by omega, by omega⟩
  rw [limitedRowCount_eq (by rw [hlength']; exact hfits.rows), hlength']

end Result

end Yunogram.Iv.Editor
