import Yunogram.Iv.PageTableRemoval

/-!
# Iv/PageTableEdits — what becomes of a layout when its table is changed

The cells of a table with their rows (`entriesFrom`) are all that its layout depends on.  A change
that moves tiles is followed by their slots: where each slot of a new tile lies in the old one, the
new tiles are clear of each other, and where the first rows agree they are held in place as before.
-/

open Machinery

namespace Yunogram.Iv.Editor

variable {Text : Type} {tableRows : List (TableRow Text)}
  {limits : MarkdownPrepareTableRenderLimits}
  {before before' : Finset (ℤ × ℤ)} {tiles : List (Tile Text)}

/-! ## Entries -/

/-- The cells of a table with their rows, in their order, the first row being one that is given. -/
def entriesFrom (start : ℕ) (tableRows : List (TableRow Text)) : List (ℕ × TableCell Text) :=
  (tableRows.zipIdx start).flatMap fun (row, rowIndex) => row.cells.map (Prod.mk rowIndex)

/-- The row and the cell of a step. -/
def CellStep.entry (step : CellStep Text) : ℕ × TableCell Text := (step.rowIndex, step.cell)

theorem map_entry_steps (tableRows : List (TableRow Text)) :
    (steps tableRows).map CellStep.entry = entriesFrom 0 tableRows := by
  rw [steps, entriesFrom, List.map_flatMap]
  refine List.flatMap_congr (Prod.forall.2 fun row rowIndex _ => ?_)
  dsimp only
  conv_rhs => rw [← List.zipIdx_map_fst 0 row.cells, List.map_map]
  rw [List.map_map]
  rfl

theorem entriesFrom_cons (start : ℕ) (row : TableRow Text) (tableRows : List (TableRow Text)) :
    entriesFrom start (row :: tableRows) =
      row.cells.map (Prod.mk start) ++ entriesFrom (start + 1) tableRows := rfl

theorem entriesFrom_append (start : ℕ) (tableRows tableRows' : List (TableRow Text)) :
    entriesFrom start (tableRows ++ tableRows') =
      entriesFrom start tableRows ++ entriesFrom (start + tableRows.length) tableRows' := by
  rw [entriesFrom, List.zipIdx_append, List.flatMap_append]
  rfl

/-- Rows that come later have their cells in later rows. -/
theorem entriesFrom_add (start count : ℕ) (tableRows : List (TableRow Text)) :
    entriesFrom (start + count) tableRows =
      (entriesFrom start tableRows).map fun entry => (entry.1 + count, entry.2) := by
  induction tableRows generalizing start with
  | nil => rfl
  | cons row tableRows ih =>
    rw [entriesFrom_cons, entriesFrom_cons, List.map_append, List.map_map,
      show start + count + 1 = start + 1 + count by omega, ih]
    rfl

theorem rowIndex_of_mem_entriesFrom {start : ℕ} {entry : ℕ × TableCell Text}
    (hmem : entry ∈ entriesFrom start tableRows) :
    start ≤ entry.1 ∧ entry.1 < start + tableRows.length := by
  obtain ⟨⟨row, rowIndex⟩, hrow, hcell⟩ := List.mem_flatMap.1 hmem
  obtain ⟨cell, -, rfl⟩ := List.mem_map.1 hcell
  have hlt := List.snd_lt_of_mem_zipIdx hrow
  exact ⟨List.le_snd_of_mem_zipIdx hrow, by omega⟩

/-- The cells of the first rows, and those of the other ones. -/
theorem entriesFrom_take_drop {count : ℕ} (hle : count ≤ tableRows.length) :
    entriesFrom 0 (tableRows.take count) = (entriesFrom 0 tableRows).filter (fun entry =>
        entry.1 < count)
      ∧ entriesFrom count (tableRows.drop count) = (entriesFrom 0 tableRows).filter fun entry =>
        count ≤ entry.1 := by
  have hlength : (tableRows.take count).length = count := by
    rw [List.length_take, min_eq_left hle]
  have hsplit : entriesFrom 0 tableRows =
      entriesFrom 0 (tableRows.take count) ++ entriesFrom count (tableRows.drop count) := by
    conv_lhs => rw [← List.take_append_drop count tableRows, entriesFrom_append, hlength, zero_add]
  have hbefore : ∀ entry ∈ entriesFrom 0 (tableRows.take count), entry.1 < count :=
    fun entry hmem => by
      have hrow := (rowIndex_of_mem_entriesFrom hmem).2
      omega
  have hafter : ∀ entry ∈ entriesFrom count (tableRows.drop count), count ≤ entry.1 :=
    fun entry hmem => (rowIndex_of_mem_entriesFrom hmem).1
  rw [hsplit, List.filter_append, List.filter_append]
  constructor
  · rw [List.filter_eq_self.2 fun entry hmem => decide_eq_true (hbefore entry hmem),
      List.filter_eq_nil_iff.2 fun entry hmem => by simpa using hafter entry hmem, List.append_nil]
  · rw [List.filter_eq_nil_iff.2 fun entry hmem => by simpa using hbefore entry hmem,
      List.filter_eq_self.2 fun entry hmem => decide_eq_true (hafter entry hmem), List.nil_append]

/-- What relates the cells of a table to tiles is read off a list that both are made from. -/
theorem forall₂_steps_iff {R : ℕ × TableCell Text → Tile Text → Prop} {ι : Type} {list : List ι}
    {f : ι → ℕ × TableCell Text} {g : ι → Tile Text}
    (hentries : entriesFrom 0 tableRows = list.map f) :
    List.Forall₂ (fun (step : CellStep Text) tile => R step.entry tile) (steps tableRows)
        (list.map g)
      ↔ ∀ a ∈ list, R (f a) (g a) := by
  rw [← List.forall₂_map_left_iff (f := CellStep.entry) (R := R), map_entry_steps, hentries,
    List.forall₂_map_left_iff, List.forall₂_map_right_iff, List.forall₂_same]

theorem filterMap_eq_map_filter {α β : Type} {p : α → Bool} {f : α → β} {g : α → Option β}
    {l : List α} (h : ∀ a ∈ l, g a = if p a then some (f a) else none) :
    l.filterMap g = (l.filter p).map f := by
  induction l with
  | nil => rfl
  | cons a l ih =>
    obtain ⟨ha, h⟩ := List.forall_mem_cons.1 h
    rw [List.filterMap_cons, ha, List.filter_cons, ih h]
    split_ifs <;> rfl

/-! ## Accepted ranges -/

/-- A range that is accepted has slots, and lies inside of the grid. -/
theorem eq_of_validateTableCellRange {range validated : TableCellRange}
    (h : validateTableCellRange tableRows limits range = some validated) :
    validated = range ∧ (0 ≤ range.rowFrom ∧ range.rowFrom < range.rowTill
        ∧ range.rowTill ≤ (buildTableGridWithin tableRows limits).rowCount)
      ∧ (0 ≤ range.columnFrom ∧ range.columnFrom < range.columnTill
        ∧ range.columnTill ≤ (buildTableGridWithin tableRows limits).columnCount) := by
  unfold validateTableCellRange at h
  dsimp only at h
  split_ifs at h with hempty hinside hselected
  rw [TableCellRange.empty] at hempty
  simp only [Bool.or_eq_true, decide_eq_true_eq, not_or, not_lt, not_le] at hempty
  refine ⟨(Option.some.inj h).symm, ?_, ?_⟩ <;> omega

/-! ## The slots of clear tiles -/

/-- Clear tiles do not meet. -/
theorem AllClear.pairwise (h : AllClear before tiles) :
    (∀ tile ∈ tiles, Disjoint before tile.slots)
      ∧ (tiles.map Tile.slots).Pairwise Disjoint := by
  induction tiles generalizing before with
  | nil => exact ⟨fun tile hmem => absurd hmem List.not_mem_nil, .nil⟩
  | cons tile tiles ih =>
    obtain ⟨hclear, hclears⟩ := h
    obtain ⟨hbefore, hpairwise⟩ := ih hclears
    refine ⟨List.forall_mem_cons.2 ⟨hclear, fun tile' hmem => ?_⟩,
      List.pairwise_cons.2 ⟨?_, hpairwise⟩⟩
    · exact (Finset.disjoint_union_left.1 (hbefore tile' hmem)).1
    · intro slots hmem
      obtain ⟨tile', hmem', rfl⟩ := List.mem_map.1 hmem
      exact (Finset.disjoint_union_left.1 (hbefore tile' hmem')).2

/-- Clear tiles inside of a box have no more slots than it. -/
theorem AllClear.sum_area_le (h : AllClear before tiles) {rowCount columnCount : ℤ}
    (hrowCount : 0 ≤ rowCount) (hcolumnCount : 0 ≤ columnCount)
    (hrows : ∀ tile ∈ tiles, 0 ≤ tile.rowFrom ∧ tile.rowFrom ≤ tile.rowTill
      ∧ tile.rowTill ≤ rowCount)
    (hcolumns : ∀ tile ∈ tiles, 0 ≤ tile.columnFrom ∧ tile.columnFrom ≤ tile.columnTill
      ∧ tile.columnTill ≤ columnCount) :
    (tiles.map Tile.area).sum ≤ rowCount * columnCount := by
  have hareas : (tiles.map Tile.area).sum =
      (((tiles.map Tile.slots).map Finset.card).sum : ℕ) := by
    clear h
    induction tiles with
    | nil => rfl
    | cons tile tiles ih =>
      obtain ⟨hrow, hrows⟩ := List.forall_mem_cons.1 hrows
      obtain ⟨hcolumn, hcolumns⟩ := List.forall_mem_cons.1 hcolumns
      have hcard := card_rect tile.rowFrom tile.columnFrom
        (by omega : 0 ≤ tile.rowTill - tile.rowFrom)
        (by omega : 0 ≤ tile.columnTill - tile.columnFrom)
      rw [rect, add_sub_cancel, add_sub_cancel] at hcard
      simp only [List.map_cons, List.sum_cons, Nat.cast_add]
      rw [ih hrows hcolumns, Tile.area, ← hcard, Tile.slots]
  rw [hareas, ← card_covered h.pairwise.2, ← card_rect 0 0 hrowCount hcolumnCount]
  refine Int.ofNat_le.2 (Finset.card_le_card fun slot hslot => ?_)
  obtain ⟨_, hmem, hin⟩ := mem_covered.1 hslot
  obtain ⟨tile, htile, rfl⟩ := List.mem_map.1 hmem
  have hrow := hrows tile htile
  have hcolumn := hcolumns tile htile
  rw [Tile.mem_slots] at hin
  rw [mem_rect]
  omega

/-- Tiles are held in place where each is held by those that come before it. -/
theorem allHeld_of_forall (h : ∀ earlier tile later, tiles = earlier ++ tile :: later →
    tile.Held (before ∪ covered (earlier.map Tile.slots))) : AllHeld before tiles := by
  induction tiles generalizing before with
  | nil => trivial
  | cons tile tiles ih =>
    refine ⟨?_, ih fun earlier other later heq => ?_⟩
    · have hheld := h [] tile tiles rfl
      rwa [List.map_nil, show covered ([] : List (Finset (ℤ × ℤ))) = ∅ from rfl,
        Finset.union_empty] at hheld
    · have hheld := h (tile :: earlier) other later (by rw [heq, List.cons_append])
      rwa [List.map_cons, covered, List.foldr_cons, ← covered, ← Finset.union_assoc] at hheld

/-! ## Tiles that move -/

/-- **Tiles whose slots lie in those of clear tiles are clear.** -/
theorem AllClear.filterMap {cut : Tile Text → Option (Tile Text)} (lift : ℤ × ℤ → ℤ × ℤ)
    (hcut : ∀ tile ∈ tiles, ∀ tile', cut tile = some tile' →
      ∀ slot ∈ tile'.slots, lift slot ∈ tile.slots)
    (h : AllClear before tiles) (hbefore : ∀ slot ∈ before', lift slot ∈ before) :
    AllClear before' (tiles.filterMap cut) := by
  induction tiles generalizing before before' with
  | nil => trivial
  | cons tile tiles ih =>
    obtain ⟨hclear, hclears⟩ := h
    obtain ⟨hslots, hcut⟩ := List.forall_mem_cons.1 hcut
    cases htile : cut tile with
    | none =>
      rw [List.filterMap_cons_none htile]
      exact ih hcut hclears fun slot hslot => Finset.mem_union_left _ (hbefore slot hslot)
    | some tile' =>
      rw [List.filterMap_cons_some htile]
      refine ⟨Finset.disjoint_left.2 fun slot hslot hin => ?_, ih hcut hclears fun slot hslot => ?_⟩
      · exact Finset.disjoint_left.1 hclear (hbefore slot hslot) (hslots tile' htile slot hin)
      · rcases Finset.mem_union.1 hslot with hold | hnew
        · exact Finset.mem_union_left _ (hbefore slot hold)
        · exact Finset.mem_union_right _ (hslots tile' htile slot hnew)

/-- **Tiles that keep their columns stay held in place** where no slot in their way is lost. -/
theorem AllHeld.filterMap {cut : Tile Text → Option (Tile Text)} (lift : ℤ × ℤ → ℤ × ℤ)
    (hcut : ∀ tile ∈ tiles, ∀ slot, lift slot ∈ tile.slots →
      ∃ tile', cut tile = some tile' ∧ slot ∈ tile'.slots)
    (hcolumns : ∀ tile ∈ tiles, ∀ tile', cut tile = some tile' →
      tile'.columnFrom = tile.columnFrom ∧ tile'.columnTill = tile.columnTill
        ∧ ∀ y, lift (tile'.rowFrom, y) = (tile.rowFrom, y))
    (h : AllHeld before tiles) (hbefore : ∀ slot, lift slot ∈ before → slot ∈ before') :
    AllHeld before' (tiles.filterMap cut) := by
  induction tiles generalizing before before' with
  | nil => trivial
  | cons tile tiles ih =>
    obtain ⟨hheld, hhelds⟩ := h
    obtain ⟨hslots, hcut⟩ := List.forall_mem_cons.1 hcut
    obtain ⟨hcolumn, hcolumns⟩ := List.forall_mem_cons.1 hcolumns
    cases htile : cut tile with
    | none =>
      rw [List.filterMap_cons_none htile]
      refine ih hcut hcolumns hhelds fun slot hslot => ?_
      rcases Finset.mem_union.1 hslot with hold | hnew
      · exact hbefore slot hold
      · obtain ⟨tile', hsome, -⟩ := hslots slot hnew
        exact absurd (htile.symm.trans hsome) (by simp)
    | some tile' =>
      rw [List.filterMap_cons_some htile]
      obtain ⟨hfrom, htill, hlift⟩ := hcolumn tile' htile
      refine ⟨fun column hmem => ?_, ih hcut hcolumns hhelds fun slot hslot => ?_⟩
      · rw [hfrom] at hmem
        obtain ⟨y, hy, hin⟩ := hheld column hmem
        refine ⟨y, by rwa [hfrom, htill], hbefore _ ?_⟩
        rwa [hlift]
      · rcases Finset.mem_union.1 hslot with hold | hnew
        · exact Finset.mem_union_left _ (hbefore slot hold)
        · obtain ⟨tile'', hsome, hin⟩ := hslots slot hnew
          obtain rfl := Option.some.inj (htile.symm.trans hsome)
          exact Finset.mem_union_right _ hin

/-! ## Layouts of changed tables -/

section Layout

variable (hrows : ∀ step ∈ steps tableRows,
  (step.rowIndex : ℤ) < limitedRowCount tableRows limits)

include hrows

/-- Every reference of a grid has its tile in the layout. -/
theorem exists_tileOf_mem {ref : TableGridCellReference}
    (hmem : ref ∈ (buildTableGridWithin tableRows limits).cells) :
    ∃ cell, tileOf ref cell ∈ layout tableRows (buildTableGridWithin tableRows limits) := by
  obtain ⟨placed, hsublist, hof⟩ := cells_within hrows
  obtain ⟨step, hstep, column, rfl⟩ := exists_left_of_mem hof hmem
  refine ⟨step.cell, List.mem_filterMap.2 ⟨_, hmem, ?_⟩⟩
  rw [referredCell_step (hsublist.subset hstep) ⟨rfl, rfl⟩]
  rfl

/-- A grid is as wide as the tiles of its layout. -/
theorem columnCount_eq {columnCount : ℤ} (h0 : 0 ≤ columnCount)
    (hle : ∀ tile ∈ layout tableRows (buildTableGridWithin tableRows limits),
      tile.columnTill ≤ columnCount)
    (hsome : ∃ tile ∈ layout tableRows (buildTableGridWithin tableRows limits),
      tile.columnTill = columnCount) :
    (buildTableGridWithin tableRows limits).columnCount = columnCount := by
  refine le_antisymm (columnCount_le h0 fun ref hmem => ?_) ?_
  · obtain ⟨cell, htile⟩ := exists_tileOf_mem hrows hmem
    exact hle _ htile
  · obtain ⟨tile, hmem, rfl⟩ := hsome
    exact (layout_bounds hmem).2.1.2.2

/-- A layout has no more tiles than the table has cells. -/
theorem length_layout_le : (layout tableRows (buildTableGridWithin tableRows limits)).length ≤
    (steps tableRows).length := by
  obtain ⟨placed, hsublist, hof⟩ := cells_within hrows
  refine (List.length_filterMap_le _ _).trans ?_
  rw [← hof.length_eq]
  exact hsublist.length_le

/-- Where a layout has all cells, the references are to all of them, in their order. -/
theorem refers_of_layout (hlength : (steps tableRows).length ≤
      (layout tableRows (buildTableGridWithin tableRows limits)).length) :
    List.Forall₂ (fun (step : CellStep Text) ref => ∃ column,
        ref = refAt (limitedRowCount tableRows limits) limits.maxColumns step.rowIndex
          step.cellIndex step.cell column)
      (steps tableRows) (buildTableGridWithin tableRows limits).cells := by
  obtain ⟨placed, hsublist, hof⟩ := cells_within hrows
  have hle := List.length_filterMap_le (fun ref => (referredCell tableRows ref).map (tileOf ref))
    (buildTableGridWithin tableRows limits).cells
  obtain rfl := hsublist.eq_of_length
    (le_antisymm hsublist.length_le (by rw [hof.length_eq]; exact hlength.trans hle))
  exact hof

omit hrows in
theorem refersTo_refAt {step : CellStep Text} {ref : TableGridCellReference} {rowCount : ℤ}
    (h : ∃ column, ref = refAt rowCount limits.maxColumns step.rowIndex step.cellIndex step.cell
      column) : RefersTo step ref := by
  obtain ⟨column, rfl⟩ := h
  exact ⟨rfl, rfl⟩

/-- **Where a layout has all cells**, each reaches down as far as its span does inside of the
grid. -/
theorem rowTill_of_layout (hlength : (steps tableRows).length ≤
      (layout tableRows (buildTableGridWithin tableRows limits)).length) :
    List.Forall₂ (fun (step : CellStep Text) tile =>
        tile.rowTill = step.rowIndex + clampTableRowspan step.cell.rowspan step.rowIndex
          (limitedRowCount tableRows limits))
      (steps tableRows) (layout tableRows (buildTableGridWithin tableRows limits)) := by
  have hof := refers_of_layout hrows hlength
  rw [layout, forall₂_layout (fun _ => id) (hof.imp fun _ _ => refersTo_refAt)]
  refine forall₂_tileOf (fun step ref href => ?_) hof
  obtain ⟨column, rfl⟩ := href
  rfl

end Layout

/-! ## The cells of a whole grid with their tiles -/

/-- The steps of a table with the tiles of its layout. -/
def tiled (tableRows : List (TableRow Text)) (limits : MarkdownPrepareTableRenderLimits) :
    List (CellStep Text × Tile Text) :=
  (steps tableRows).zip (layout tableRows (buildTableGridWithin tableRows limits))

section Whole

variable (hwhole : (buildTableGridWithin tableRows limits).Whole tableRows)

include hwhole

theorem map_fst_tiled : (tiled tableRows limits).map Prod.fst = steps tableRows := by
  rw [tiled, List.map_fst_zip hwhole.unclamped.length_eq.le]

theorem map_snd_tiled : (tiled tableRows limits).map Prod.snd =
    layout tableRows (buildTableGridWithin tableRows limits) := by
  rw [tiled, List.map_snd_zip hwhole.unclamped.length_eq.ge]

/-- A step with its tile: none of the spans is cut off. -/
theorem unclamped_of_mem_tiled {placed : CellStep Text × Tile Text}
    (hmem : placed ∈ tiled tableRows limits) : Unclamped placed.1 placed.2 :=
  List.forall₂_zip hwhole.unclamped hmem

/-- The references of a grid are those of the tiles. -/
theorem cells_eq_map_tiled : (buildTableGridWithin tableRows limits).cells =
    (tiled tableRows limits).map fun placed => refOf placed.1 placed.2 := by
  have hcells := eq_zipWith_refOf hwhole.refers
  rw [← forall₂_layout (fun _ => id) hwhole.refers] at hcells
  rw [hcells, tiled, List.map_zip_eq_zipWith]
  rfl

/-- The steps are in their order. -/
theorem pairwise_tiled (p : CellStep Text × Tile Text → Bool) :
    (((tiled tableRows limits).filter p).map Prod.fst).Pairwise fun a b =>
      Before a.rowIndex a.cellIndex b.rowIndex b.cellIndex := by
  have horder := pairwise_steps tableRows
  rw [← map_fst_tiled hwhole] at horder
  exact horder.sublist (List.filter_sublist.map _)

theorem fst_mem_steps {placed : CellStep Text × Tile Text}
    (hmem : placed ∈ tiled tableRows limits) : placed.1 ∈ steps tableRows := by
  rw [← map_fst_tiled hwhole]
  exact List.mem_map_of_mem hmem

/-- A cell has one tile. -/
theorem eq_of_mem_tiled {placed placed' : CellStep Text × Tile Text}
    (hmem : placed ∈ tiled tableRows limits) (hmem' : placed' ∈ tiled tableRows limits)
    (hrow : placed.1.rowIndex = placed'.1.rowIndex)
    (hcell : placed.1.cellIndex = placed'.1.cellIndex) : placed = placed' := by
  have hnodup : ((tiled tableRows limits).map Prod.fst).Nodup :=
    map_fst_tiled hwhole ▸ nodup_steps tableRows
  exact List.inj_on_of_nodup_map hnodup hmem hmem'
    (eq_of_mem_steps (fst_mem_steps hwhole hmem) (fst_mem_steps hwhole hmem') hrow hcell)

theorem nodup_tiled : (tiled tableRows limits).Nodup :=
  List.Nodup.of_map Prod.fst (map_fst_tiled hwhole ▸ nodup_steps tableRows)

theorem snd_mem_layout {placed : CellStep Text × Tile Text}
    (hmem : placed ∈ tiled tableRows limits) :
    placed.2 ∈ layout tableRows (buildTableGridWithin tableRows limits) := by
  rw [← map_snd_tiled hwhole]
  exact List.mem_map_of_mem hmem

/-- The tiles of a whole grid come in the order of their rows. -/
theorem pairwise_rowFrom :
    (layout tableRows (buildTableGridWithin tableRows limits)).Pairwise fun a b =>
      a.rowFrom ≤ b.rowFrom := by
  have horder := pairwise_rowIndex tableRows
  rw [← map_fst_tiled hwhole, List.pairwise_map] at horder
  rw [← map_snd_tiled hwhole, List.pairwise_map]
  refine horder.imp_of_mem fun {a b} ha hb hle => ?_
  have hrowFrom := (unclamped_of_mem_tiled hwhole ha).rowFrom
  have hrowFrom' := (unclamped_of_mem_tiled hwhole hb).rowFrom
  omega

end Whole

end Yunogram.Iv.Editor
