import Yunogram.Iv.PageTableGrowth

/-!
# Iv/PageTableLaidOut — when a table is laid out as given texts

A table whose cells have the spans and the texts of given tiles, which do not meet and fill the
width of the grid, is laid out as these tiles exactly when each of them is held in place
(`laidOutAs_iff`).  Cells put into the rows of a table are put so into the tiles
(`entriesFrom_spliceCells`, `spliceRows_eq`).
-/

open Machinery

namespace Yunogram.Iv.Editor

variable {Text : Type} {tableRows : List (TableRow Text)}
  {limits : MarkdownPrepareTableRenderLimits} {before before' : Finset (ℤ × ℤ)}
  {tiles tiles' : List (Tile Text)} {rowCount columnCount : ℤ}

/-! ## Texts and rectangles -/

@[simp]
theorem slots_textOnly (tile : Tile Text) : tile.textOnly.slots = tile.slots := rfl

theorem allHeld_textOnly : AllHeld before (tiles.map Tile.textOnly) ↔ AllHeld before tiles := by
  induction tiles generalizing before with
  | nil => exact Iff.rfl
  | cons tile tiles ih => exact and_congr_right fun _ => ih

/-- Tiles are clear exactly when none meets what is taken before or another one. -/
theorem allClear_iff : AllClear before tiles ↔
    (∀ tile ∈ tiles, Disjoint before tile.slots) ∧ (tiles.map Tile.slots).Pairwise Disjoint := by
  refine ⟨AllClear.pairwise, ?_⟩
  rintro ⟨hbefore, hpairwise⟩
  induction tiles generalizing before with
  | nil => trivial
  | cons tile tiles ih =>
    obtain ⟨hclear, hbefore⟩ := List.forall_mem_cons.1 hbefore
    obtain ⟨hfirst, hpairwise⟩ := List.pairwise_cons.1 hpairwise
    exact ⟨hclear, ih (fun other hmem => Finset.disjoint_union_left.2
      ⟨hbefore other hmem, hfirst _ (List.mem_map_of_mem hmem)⟩) hpairwise⟩

theorem allClear_empty_iff :
    AllClear ∅ tiles ↔ (tiles.map Tile.slots).Pairwise Disjoint := by
  rw [allClear_iff]
  exact and_iff_right fun tile _ => Finset.disjoint_empty_left _

/-- More that is taken holds the tiles as well. -/
theorem AllHeld.mono (h : AllHeld before tiles) (hle : before ⊆ before') :
    AllHeld before' tiles := by
  induction tiles generalizing before before' with
  | nil => trivial
  | cons tile tiles ih =>
    refine ⟨fun column hcolumn => ?_, ih h.2 (Finset.union_subset_union_left hle)⟩
    obtain ⟨y, hy, hin⟩ := h.1 column hcolumn
    exact ⟨y, hy, hle hin⟩

theorem allHeld_append : AllHeld before (tiles ++ tiles') ↔
    AllHeld before tiles ∧ AllHeld (before ∪ covered (tiles.map Tile.slots)) tiles' := by
  induction tiles generalizing before with
  | nil =>
    rw [List.nil_append, List.map_nil, show covered ([] : List (Finset (ℤ × ℤ))) = ∅ from rfl,
      Finset.union_empty]
    exact (and_iff_right trivial).symm
  | cons tile tiles ih =>
    rw [List.cons_append, List.map_cons, covered, List.foldr_cons, ← covered,
      ← Finset.union_assoc]
    change _ ∧ AllHeld _ (tiles ++ tiles') ↔ _
    rw [ih]
    exact and_assoc.symm

/-- Tiles with the cells of the same steps are known by their texts and rectangles. -/
theorem eq_of_map_textOnly {list : List (CellStep Text)}
    (h : List.Forall₂ (fun (step : CellStep Text) tile => tile.cell = step.cell.content) list tiles)
    (h' : List.Forall₂ (fun (step : CellStep Text) tile => tile.cell = step.cell.content) list
      tiles')
    (hsame : tiles.map Tile.textOnly = tiles'.map Tile.textOnly) : tiles = tiles' := by
  induction h generalizing tiles' with
  | nil =>
    cases h'
    rfl
  | @cons step tile list tiles hcell _ ih =>
    obtain ⟨tile', tiles'', hcell', hrest, rfl⟩ := List.forall₂_cons_left_iff.1 h'
    obtain ⟨hfirst, hsame⟩ := List.cons.inj hsame
    rw [ih hrest hsame]
    congr 1
    cases tile
    cases tile'
    simp only [Tile.textOnly, Tile.mk.injEq] at hfirst hcell hcell' ⊢
    exact ⟨hcell.trans hcell'.symm, hfirst.2⟩

/-- A table is laid out as tiles of its cells also where only their texts are looked at. -/
theorem layout_textOnly_iff (hrows : ∀ step ∈ steps tableRows,
      (step.rowIndex : ℤ) < limitedRowCount tableRows limits)
    (hshape : List.Forall₂ (fun (step : CellStep Text) tile =>
      Shaped (limitedRowCount tableRows limits) step.rowIndex step.cell tile)
        (steps tableRows) tiles)
    (hbounds : ∀ tile ∈ tiles, 0 ≤ tile.columnFrom ∧ tile.columnTill ≤ limits.maxColumns)
    (hcount : (tiles.map Tile.area).sum ≤ limits.maxCells) :
    textLayout tableRows limits = tiles.map Tile.textOnly
      ↔ AllClear ∅ tiles ∧ AllHeld ∅ tiles := by
  rw [← layout_eq_iff hrows hshape hbounds hcount]
  refine ⟨fun hsame => ?_, fun hsame => by rw [textLayout, hsame]⟩
  obtain ⟨placed, hsublist, hof⟩ := cells_within hrows
  have hrefers := hof.imp fun step ref href => (show RefersTo step ref by
    obtain ⟨column, rfl⟩ := href
    exact ⟨rfl, rfl⟩)
  have hlayout := forall₂_layout (fun step hmem => hsublist.subset hmem) hrefers
  have hlength := congrArg List.length hsame
  rw [textLayout, List.length_map, List.length_map, layout, hlayout, List.length_zipWith,
    ← hof.length_eq, min_self, ← hshape.length_eq] at hlength
  obtain rfl := hsublist.eq_of_length hlength
  refine eq_of_map_textOnly ?_ (hshape.imp fun step tile h => h.content) hsame
  rw [layout, hlayout]
  exact forall₂_tileOf (fun step ref _ => rfl) hrefers

/-- **Tiles of a box**, in the order of their rows: they lie inside of it, do not meet and take all
of its slots. -/
structure Tiling (rowCount columnCount : ℤ) (tiles : List (Tile Text)) : Prop where
  order : tiles.Pairwise fun a b => a.rowFrom ≤ b.rowFrom
  rows : ∀ tile ∈ tiles, 0 ≤ tile.rowFrom ∧ tile.rowFrom < tile.rowTill ∧ tile.rowTill ≤ rowCount
  columns : ∀ tile ∈ tiles,
    0 ≤ tile.columnFrom ∧ tile.columnFrom < tile.columnTill ∧ tile.columnTill ≤ columnCount
  disjoint : (tiles.map Tile.slots).Pairwise Disjoint
  covers : ∀ slot : ℤ × ℤ, 0 ≤ slot.1 → slot.1 < rowCount → 0 ≤ slot.2 → slot.2 < columnCount →
    ∃ tile ∈ tiles, slot ∈ tile.slots

/-- Tiles that do not meet and share a slot are the same. -/
theorem Tiling.eq_of_mem_slots (h : Tiling rowCount columnCount tiles) {a b : Tile Text}
    (ha : a ∈ tiles) (hb : b ∈ tiles) {slot : ℤ × ℤ} (hslot : slot ∈ a.slots)
    (hslot' : slot ∈ b.slots) : a = b := by
  by_contra hne
  have hpairwise : tiles.Pairwise fun a b => Disjoint a.slots b.slots :=
    List.pairwise_map.1 h.disjoint
  have : Std.Symm fun a b : Tile Text => Disjoint a.slots b.slots := ⟨fun _ _ h => h.symm⟩
  exact Finset.disjoint_left.1 (hpairwise.forall ha hb hne) hslot hslot'

/-- **A table has the cells of tiles**: their texts and their spans, in their rows and in their
order, where the tiles are those of a box within the limits. -/
structure CellsOf (limits : MarkdownPrepareTableRenderLimits) (tableRows : List (TableRow Text))
    (rowCount columnCount : ℤ) (tiles : List (Tile Text)) : Prop where
  cells : ∃ list : List ((ℕ × TableCell Text) × Tile Text),
    entriesFrom 0 tableRows = list.map Prod.fst
      ∧ tiles = list.map (fun placed => placed.2.textOnly)
      ∧ ∀ placed ∈ list, Unclamped ⟨placed.1.1, 0, placed.1.2⟩ placed.2
  tiling : Tiling rowCount columnCount tiles
  limited : limitedRowCount tableRows limits = rowCount
  fits : limits.Fits rowCount columnCount
  rows_pos : 0 < rowCount
  columns_pos : 0 < columnCount

section CellsOf

variable (h : CellsOf limits tableRows rowCount columnCount tiles)

include h

/-- The tiles with the contents of the cells. -/
theorem CellsOf.contents : ∃ contents : List (Tile Text),
    tiles = contents.map Tile.textOnly ∧ List.Forall₂ Unclamped (steps tableRows) contents := by
  obtain ⟨list, hentries, htiles, hspans⟩ := h.cells
  refine ⟨list.map Prod.snd, by rw [htiles, List.map_map]; rfl, ?_⟩
  refine ((forall₂_steps_iff (R := fun entry tile => Unclamped ⟨entry.1, 0, entry.2⟩ tile)
    hentries).2 hspans).imp fun step tile hspan => ?_
  exact ⟨hspan.content, hspan.rowFrom, hspan.rowTill, hspan.columnTill⟩

theorem CellsOf.shaped {contents : List (Tile Text)} (htiles : tiles = contents.map Tile.textOnly)
    (hspans : List.Forall₂ Unclamped (steps tableRows) contents) :
    List.Forall₂ (fun (step : CellStep Text) tile =>
      Shaped (limitedRowCount tableRows limits) step.rowIndex step.cell tile) (steps tableRows)
      contents := by
  rw [h.limited]
  refine ((List.forall₂_and_left contents _).2 ⟨fun _ => id,
    hspans.flip⟩).flip.imp fun step tile hspan => hspan.2.shaped ?_
  have hin : tile.textOnly ∈ contents.map Tile.textOnly := List.mem_map_of_mem hspan.1
  exact (h.tiling.rows tile.textOnly (htiles ▸ hin)).2.2

theorem CellsOf.rowIndex_lt : ∀ step ∈ steps tableRows,
    (step.rowIndex : ℤ) < limitedRowCount tableRows limits := by
  obtain ⟨contents, htiles, hspans⟩ := h.contents
  intro step hmem
  obtain ⟨tile, htile, hspan⟩ := exists_left_of_mem hspans.flip hmem
  have hrows := h.tiling.rows _ (htiles ▸ List.mem_map_of_mem htile)
  have hrowFrom := hspan.rowFrom
  dsimp only [Tile.textOnly] at hrows
  rw [h.limited]
  omega

/-- **A table is laid out as the tiles whose cells it has** exactly when each is held in place. -/
theorem CellsOf.textLayout_iff : textLayout tableRows limits = tiles ↔ AllHeld ∅ tiles := by
  obtain ⟨contents, htiles, hspans⟩ := h.contents
  have hslots : tiles.map Tile.slots = contents.map Tile.slots := by
    rw [htiles, List.map_map]
    rfl
  have hclears : AllClear ∅ contents := allClear_empty_iff.2 (hslots ▸ h.tiling.disjoint)
  have hbounds : ∀ tile ∈ contents, 0 ≤ tile.columnFrom ∧ tile.columnTill ≤ limits.maxColumns :=
    fun tile hmem => by
      have hbound := h.tiling.columns _ (htiles ▸ List.mem_map_of_mem hmem)
      exact ⟨hbound.1, hbound.2.2.trans h.fits.columns⟩
  have hcount : (contents.map Tile.area).sum ≤ limits.maxCells :=
    (hclears.sum_area_le h.rows_pos.le h.columns_pos.le
      (fun tile hmem => by
        have hbound := h.tiling.rows _ (htiles ▸ List.mem_map_of_mem hmem)
        exact ⟨hbound.1, hbound.2.1.le, hbound.2.2⟩)
      fun tile hmem => by
        have hbound := h.tiling.columns _ (htiles ▸ List.mem_map_of_mem hmem)
        exact ⟨hbound.1, hbound.2.1.le, hbound.2.2⟩).trans h.fits.cells
  have hiff := layout_textOnly_iff h.rowIndex_lt (h.shaped htiles hspans) hbounds hcount
  rw [and_iff_right hclears, ← htiles] at hiff
  rw [hiff, htiles, allHeld_textOnly]

/-- The grid has their size. -/
theorem CellsOf.columnCount_eq (hlayout : textLayout tableRows limits = tiles) :
    (buildTableGridWithin tableRows limits).columnCount = columnCount := by
  obtain ⟨last, hlast, hlastSlot⟩ := h.tiling.covers (0, columnCount - 1) le_rfl h.rows_pos
    (Int.sub_nonneg_of_le h.columns_pos) (Int.sub_one_lt_of_le le_rfl)
  have hlastColumn : last.columnTill = columnCount := by
    rw [Tile.mem_slots] at hlastSlot
    have hbound := h.tiling.columns last hlast
    omega
  refine Editor.columnCount_eq h.rowIndex_lt h.columns_pos.le (fun tile hmem => ?_) ?_
  · have hin : tile.textOnly ∈ textLayout tableRows limits := List.mem_map_of_mem hmem
    exact (h.tiling.columns tile.textOnly (hlayout ▸ hin)).2.2
  · rw [← hlayout, textLayout] at hlast
    obtain ⟨tile, hmem, rfl⟩ := List.mem_map.1 hlast
    exact ⟨tile, hmem, hlastColumn⟩

theorem CellsOf.laidOutAs_iff :
    LaidOutAs limits tableRows rowCount columnCount tiles ↔ AllHeld ∅ tiles :=
  ⟨fun hlaidOut => h.textLayout_iff.1 hlaidOut.layout, fun hheld =>
    ⟨h.limited, h.columnCount_eq (h.textLayout_iff.2 hheld), h.textLayout_iff.2 hheld⟩⟩

end CellsOf

/-! ## Rows -/

/-- A list in the order of a key has those with a smaller key before the others. -/
theorem eq_filter_lt_append {α β : Type} [LinearOrder β] {key : α → β} {l : List α} (k : β)
    (horder : l.Pairwise fun a b => key a ≤ key b) :
    l = (l.filter fun a => key a < k) ++ l.filter fun a => k ≤ key a := by
  induction l with
  | nil => rfl
  | cons a l ih =>
    obtain ⟨hfirst, horder⟩ := List.pairwise_cons.1 horder
    rcases lt_or_ge (key a) k with hlt | hge
    · rw [List.filter_cons, if_pos (decide_eq_true hlt), List.filter_cons,
        if_neg (by simpa using hlt), List.cons_append, ← ih horder]
    · have hall : ∀ b ∈ a :: l, k ≤ key b :=
        List.forall_mem_cons.2 ⟨hge, fun b hb => hge.trans (hfirst b hb)⟩
      rw [List.filter_eq_nil_iff.2 fun b hb => by simpa using hall b hb,
        List.filter_eq_self.2 fun b hb => decide_eq_true (hall b hb), List.nil_append]

/-- A list in the order of a key is made of those of each key. -/
theorem eq_flatMap_filter {α : Type} {key : α → ℕ} {l : List α} {n : ℕ}
    (horder : l.Pairwise fun a b => key a ≤ key b) (hlt : ∀ a ∈ l, key a < n) :
    l = (List.range n).flatMap fun i => l.filter fun a => key a = i := by
  induction n generalizing l with
  | zero =>
    cases l with
    | nil => rfl
    | cons a l => exact absurd (hlt a (List.mem_cons_self ..)) (Nat.not_lt_zero _)
  | succ n ih =>
    have hbefore := ih (horder.sublist (List.filter_sublist (p := fun a => key a < n)))
      fun a hmem => of_decide_eq_true (List.mem_filter.1 hmem).2
    rw [List.range_succ, List.flatMap_append, List.flatMap_singleton]
    refine (eq_filter_lt_append n horder).trans ?_
    congr 1
    · refine hbefore.trans (List.flatMap_congr fun i hi => ?_)
      rw [List.filter_filter]
      refine List.filter_congr fun a _ => ?_
      have hi := List.mem_range.1 hi
      by_cases hkey : key a = i
      · simp [hkey, hi]
      · simp [hkey]
    · refine List.filter_congr fun a hmem => decide_eq_decide.2 ?_
      have hkey := hlt a hmem
      omega

/-- The steps of a row. -/
theorem filter_steps {row : TableRow Text} {rowIndex : ℕ}
    (hmem : (row, rowIndex) ∈ tableRows.zipIdx) :
    (steps tableRows).filter (fun step => step.rowIndex = rowIndex) =
      row.cells.zipIdx.map fun entry => ⟨rowIndex, entry.2, entry.1⟩ := by
  have hblock : ∀ (rows : List (TableRow Text)) (start : ℕ), (row, rowIndex) ∈ rows.zipIdx start →
      ((rows.zipIdx start).flatMap fun placed => placed.1.cells.zipIdx.map
          fun entry => (⟨placed.2, entry.2, entry.1⟩ : CellStep Text)).filter
        (fun step => step.rowIndex = rowIndex) =
      row.cells.zipIdx.map fun entry => ⟨rowIndex, entry.2, entry.1⟩ := by
    intro rows
    induction rows with
    | nil => exact fun start hmem => absurd hmem List.not_mem_nil
    | cons first rows ih =>
      intro start hmem
      rw [List.zipIdx_cons, List.flatMap_cons, List.filter_append]
      rw [List.zipIdx_cons] at hmem
      rcases List.mem_cons.1 hmem with heq | hmem
      · obtain ⟨rfl, rfl⟩ := Prod.mk.inj heq
        rw [List.filter_eq_self.2, List.filter_eq_nil_iff.2, List.append_nil]
        · intro step hstep
          obtain ⟨⟨other, otherIndex⟩, hother, hstep⟩ := List.mem_flatMap.1 hstep
          obtain ⟨cell, -, rfl⟩ := List.mem_map.1 hstep
          have hle := List.le_snd_of_mem_zipIdx hother
          simp only [decide_eq_true_eq]
          omega
        · intro step hstep
          obtain ⟨cell, -, rfl⟩ := List.mem_map.1 hstep
          exact decide_eq_true rfl
      · have hle := List.le_snd_of_mem_zipIdx hmem
        rw [List.filter_eq_nil_iff.2, List.nil_append, ih _ hmem]
        intro step hstep
        obtain ⟨cell, -, rfl⟩ := List.mem_map.1 hstep
        simp only [decide_eq_true_eq]
        dsimp only at hle
        omega
  exact hblock tableRows 0 hmem

/-- The cells of a row are those of its steps. -/
theorem cells_eq_map_steps {row : TableRow Text} {rowIndex : ℕ}
    (hmem : (row, rowIndex) ∈ tableRows.zipIdx) :
    ((steps tableRows).filter fun step => step.rowIndex = rowIndex).map CellStep.cell =
      row.cells := by
  rw [filter_steps hmem, List.map_map]
  exact List.zipIdx_map_fst 0 row.cells

/-- The cells of rows that are changed one by one. -/
theorem entriesFrom_mapIdx (f : ℕ → TableRow Text → TableRow Text)
    (tableRows : List (TableRow Text)) :
    entriesFrom 0 (tableRows.mapIdx f) =
      tableRows.zipIdx.flatMap fun x => (f x.2 x.1).cells.map (Prod.mk x.2) := by
  have hzip : (tableRows.mapIdx f).zipIdx = tableRows.zipIdx.map fun x => (f x.2 x.1, x.2) := by
    refine List.ext_getElem? fun j => ?_
    rw [List.getElem?_map, List.getElem?_zipIdx, List.getElem?_zipIdx, List.getElem?_mapIdx]
    cases tableRows[j]? <;> simp
  rw [entriesFrom, hzip, List.flatMap_map]

/-! ## Cells put into rows -/

/-- New cells are put into the rows, in each after a number of cells. -/
def spliceCells (place : ℕ → ℕ) (inserted : ℕ → List (TableCell Text))
    (tableRows : List (TableRow Text)) : List (TableRow Text) :=
  tableRows.mapIdx fun rowIndex row =>
    { cells := row.cells.take (place rowIndex) ++ inserted rowIndex
        ++ row.cells.drop (place rowIndex) }

theorem length_spliceCells (place : ℕ → ℕ) (inserted : ℕ → List (TableCell Text))
    (tableRows : List (TableRow Text)) :
    (spliceCells place inserted tableRows).length = tableRows.length := List.length_mapIdx ..

section Splice

variable (tableRows limits) (front : Tile Text → Bool)
  (change : CellStep Text × Tile Text → CellStep Text) (changeTile : Tile Text → Tile Text)
  (inserted : ℕ → List (TableCell Text × Tile Text))

/-- The cells of a row with their tiles. -/
def ownTiled (row : ℕ) : List (CellStep Text × Tile Text) :=
  (tiled tableRows limits).filter fun placed => placed.1.rowIndex = row

/-- The first cells of a row, as far as they are in front, with their tiles. -/
def frontTiled (row : ℕ) : List (CellStep Text × Tile Text) :=
  (ownTiled tableRows limits row).takeWhile fun placed => front placed.2

/-- The other cells of a row, with their tiles. -/
def backTiled (row : ℕ) : List (CellStep Text × Tile Text) :=
  (ownTiled tableRows limits row).dropWhile fun placed => front placed.2

/-- The cells that are changed and those put in between, with their tiles. -/
def splicedTiled : List ((ℕ × TableCell Text) × Tile Text) :=
  (List.range tableRows.length).flatMap fun row =>
    (frontTiled tableRows limits front row).map (fun placed =>
        ((change placed).entry, changeTile placed.2))
      ++ (inserted row).map (fun new => ((row, new.1), new.2))
      ++ (backTiled tableRows limits front row).map fun placed =>
        ((change placed).entry, changeTile placed.2)

variable {tableRows limits front change changeTile inserted}

theorem front_append_back (row : ℕ) :
    frontTiled tableRows limits front row ++ backTiled tableRows limits front row =
      ownTiled tableRows limits row := List.takeWhile_append_dropWhile

/-- The cells of a row, once some of its cells have been changed in their places. -/
theorem cells_eq_map_ownTiled {changed : List (TableRow Text)}
    (hsteps : steps changed = (tiled tableRows limits).map change)
    (hindex : ∀ placed, (change placed).rowIndex = placed.1.rowIndex)
    {own : TableRow Text} {row : ℕ} (hmem : (own, row) ∈ changed.zipIdx) :
    own.cells = (ownTiled tableRows limits row).map fun placed => (change placed).cell := by
  rw [← cells_eq_map_steps hmem, hsteps, List.filter_map, List.map_map, ownTiled]
  refine congrArg (List.map _) (List.filter_congr fun placed _ => ?_)
  rw [Function.comp, hindex]

/-- **Cells are put into the rows** of a whole grid, after some of its cells have been changed in
their places. -/
theorem entriesFrom_spliceCells {changed : List (TableRow Text)}
    (hsteps : steps changed = (tiled tableRows limits).map change)
    (hindex : ∀ placed, (change placed).rowIndex = placed.1.rowIndex)
    (hlength : changed.length = tableRows.length) :
    entriesFrom 0 (spliceCells (fun row => (frontTiled tableRows limits front row).length)
        (fun row => (inserted row).map Prod.fst) changed) =
      (splicedTiled tableRows limits front change changeTile inserted).map Prod.fst := by
  have hentry : ∀ row, ∀ placed ∈ ownTiled tableRows limits row,
      (change placed).entry = (row, (change placed).cell) := by
    intro row placed hmem
    rw [CellStep.entry, hindex, of_decide_eq_true (List.mem_filter.1 hmem).2]
  rw [spliceCells, entriesFrom_mapIdx, splicedTiled, List.map_flatMap, List.range_eq_range',
    ← hlength, ← List.zipIdx_map_snd, List.flatMap_map]
  refine List.flatMap_congr fun x hx => ?_
  dsimp only
  have hown := @front_append_back _ tableRows limits front x.2
  have htake : ((ownTiled tableRows limits x.2).map fun placed => (change placed).cell).take
      (frontTiled tableRows limits front x.2).length =
        (frontTiled tableRows limits front x.2).map fun placed => (change placed).cell := by
    rw [← hown, List.map_append]
    exact List.take_left' (List.length_map ..)
  have hdrop : ((ownTiled tableRows limits x.2).map fun placed => (change placed).cell).drop
      (frontTiled tableRows limits front x.2).length =
        (backTiled tableRows limits front x.2).map fun placed => (change placed).cell := by
    rw [← hown, List.map_append]
    exact List.drop_left' (List.length_map ..)
  rw [cells_eq_map_ownTiled hsteps hindex hx, htake, hdrop]
  simp only [List.map_append, List.map_map]
  congr 1
  · congr 1
    exact List.map_congr_left fun placed hmem =>
      (hentry x.2 placed (hown ▸ List.mem_append_left _ hmem)).symm
  · exact List.map_congr_left fun placed hmem =>
      (hentry x.2 placed (hown ▸ List.mem_append_right _ hmem)).symm

variable (hwhole : (buildTableGridWithin tableRows limits).Whole tableRows)

include hwhole

/-- The texts with their rectangles, from the cells of a whole grid with their tiles. -/
theorem textLayout_eq :
    textLayout tableRows limits = (tiled tableRows limits).map fun placed => placed.2.textOnly := by
  rw [textLayout, ← map_snd_tiled hwhole, List.map_map]
  rfl

/-- The tiles of the cells of a row. -/
theorem map_ownTiled (row : ℕ) :
    (ownTiled tableRows limits row).map (fun placed => placed.2.textOnly) =
      (textLayout tableRows limits).filter fun tile => tile.rowFrom = (row : ℤ) := by
  rw [textLayout_eq hwhole, List.filter_map]
  refine congrArg (List.map _) (List.filter_congr fun placed hmem => ?_)
  have hrowFrom := (unclamped_of_mem_tiled hwhole hmem).rowFrom
  change decide (placed.1.rowIndex = row) = decide (placed.2.rowFrom = (row : ℤ))
  rw [hrowFrom, decide_eq_decide]
  exact Int.natCast_inj.symm

/-- **The tiles are put in with them.** -/
theorem spliceRows_eq (hfront : ∀ tile : Tile Text, front tile.textOnly = front tile)
    (hchange : ∀ tile, (changeTile tile).textOnly = changeTile tile.textOnly) :
    spliceRows tableRows.length front changeTile
        (fun row => (inserted row).map fun new => new.2.textOnly) (textLayout tableRows limits) =
      (splicedTiled tableRows limits front change changeTile inserted).map fun placed =>
        placed.2.textOnly := by
  rw [spliceRows, splicedTiled, List.map_flatMap]
  refine List.flatMap_congr fun row _ => ?_
  dsimp only
  rw [← map_ownTiled hwhole, List.takeWhile_map, List.dropWhile_map, List.map_append,
    List.map_append, List.map_map, List.map_map, List.map_map, List.map_map, List.map_map]
  simp only [Function.comp_def, hfront, hchange]
  rfl

/-- What is among the cells with those put in. -/
theorem mem_splicedTiled {new : (ℕ × TableCell Text) × Tile Text} :
    new ∈ splicedTiled tableRows limits front change changeTile inserted ↔
      (∃ placed ∈ tiled tableRows limits, new = ((change placed).entry, changeTile placed.2))
        ∨ ∃ row < tableRows.length, ∃ cell ∈ inserted row, new = ((row, cell.1), cell.2) := by
  rw [splicedTiled, List.mem_flatMap]
  constructor
  · rintro ⟨row, hrow, hmem⟩
    rw [List.append_assoc, List.mem_append, List.mem_append] at hmem
    have hown : ∀ placed ∈ ownTiled tableRows limits row, placed ∈ tiled tableRows limits :=
      fun placed hplaced => (List.mem_filter.1 hplaced).1
    rcases hmem with hmem | hmem | hmem
    · obtain ⟨placed, hplaced, rfl⟩ := List.mem_map.1 hmem
      exact .inl ⟨placed, hown _ ((List.takeWhile_prefix _).subset hplaced), rfl⟩
    · obtain ⟨cell, hcell, rfl⟩ := List.mem_map.1 hmem
      exact .inr ⟨row, List.mem_range.1 hrow, cell, hcell, rfl⟩
    · obtain ⟨placed, hplaced, rfl⟩ := List.mem_map.1 hmem
      exact .inl ⟨placed, hown _ ((List.dropWhile_suffix _).subset hplaced), rfl⟩
  · rintro (⟨placed, hplaced, rfl⟩ | ⟨row, hrow, cell, hcell, rfl⟩)
    · have hlt := rowIndex_lt_of_mem_steps (fst_mem_steps hwhole hplaced)
      have hown : placed ∈ ownTiled tableRows limits placed.1.rowIndex :=
        List.mem_filter.2 ⟨hplaced, decide_eq_true rfl⟩
      refine ⟨placed.1.rowIndex, List.mem_range.2 (by exact_mod_cast hlt), ?_⟩
      rw [← @front_append_back _ tableRows limits front, List.mem_append] at hown
      rw [List.append_assoc, List.mem_append, List.mem_append]
      rcases hown with hown | hown
      · exact .inl (List.mem_map_of_mem hown)
      · exact .inr (.inr (List.mem_map_of_mem hown))
    · refine ⟨row, List.mem_range.2 hrow, ?_⟩
      rw [List.append_assoc, List.mem_append, List.mem_append]
      exact .inr (.inl (List.mem_map_of_mem hcell))

end Splice

/-- Up to their order, the tiles with those put in are the tiles and those. -/
theorem spliceRows_perm {n : ℕ} (horder : tiles.Pairwise fun a b => a.rowFrom ≤ b.rowFrom)
    (hrows : ∀ tile ∈ tiles, 0 ≤ tile.rowFrom ∧ tile.rowFrom < n)
    (front : Tile Text → Bool) (changeTile : Tile Text → Tile Text)
    (inserted : ℕ → List (Tile Text)) :
    (spliceRows n front changeTile inserted tiles).Perm
      (tiles.map changeTile ++ (List.range n).flatMap inserted) := by
  have hown : tiles = (List.range n).flatMap fun (row : ℕ) =>
      tiles.filter fun tile => tile.rowFrom = (row : ℤ) := by
    refine (@eq_flatMap_filter _ (fun tile => tile.rowFrom.toNat) tiles n
      (horder.imp fun hle => Int.toNat_le_toNat hle) fun tile hmem => ?_).trans
      (List.flatMap_congr fun row _ => List.filter_congr fun tile hmem => ?_)
    · have hrow := hrows tile hmem
      omega
    · have hrow := hrows tile hmem
      exact decide_eq_decide.2 (by omega)
  conv_rhs => rw [hown, List.map_flatMap]
  refine .trans ?_ (List.flatMap_append_perm _ _ _).symm
  refine List.Perm.flatMap_left _ fun row _ => ?_
  dsimp only
  rw [← List.takeWhile_append_dropWhile (p := front)
    (l := tiles.filter fun tile => tile.rowFrom = (row : ℤ)), List.map_append]
  simp only [List.takeWhile_append_dropWhile, List.append_assoc]
  exact List.Perm.append_left _ List.perm_append_comm

theorem mem_spliceRows {n : ℕ} (horder : tiles.Pairwise fun a b => a.rowFrom ≤ b.rowFrom)
    (hrows : ∀ tile ∈ tiles, 0 ≤ tile.rowFrom ∧ tile.rowFrom < n)
    {front : Tile Text → Bool} {changeTile : Tile Text → Tile Text}
    {inserted : ℕ → List (Tile Text)} {tile : Tile Text} :
    tile ∈ spliceRows n front changeTile inserted tiles ↔
      (∃ old ∈ tiles, changeTile old = tile) ∨ ∃ row < n, tile ∈ inserted row := by
  rw [(spliceRows_perm horder hrows front changeTile inserted).mem_iff, List.mem_append,
    List.mem_map, List.mem_flatMap]
  simp only [List.mem_range]

/-- The tiles with those put in are in the order of their rows. -/
theorem spliceRows_order {n : ℕ} {front : Tile Text → Bool} {changeTile : Tile Text → Tile Text}
    {inserted : ℕ → List (Tile Text)}
    (hchange : ∀ tile : Tile Text, (changeTile tile).rowFrom = tile.rowFrom)
    (hinserted : ∀ row, ∀ tile ∈ inserted row, tile.rowFrom = (row : ℤ)) :
    (spliceRows n front changeTile inserted tiles).Pairwise fun a b => a.rowFrom ≤ b.rowFrom := by
  have hblock : ∀ row : ℕ, ∀ tile ∈
      (((tiles.filter fun tile => tile.rowFrom = (row : ℤ)).takeWhile front).map changeTile
        ++ inserted row
        ++ ((tiles.filter fun tile => tile.rowFrom = (row : ℤ)).dropWhile front).map changeTile),
      tile.rowFrom = (row : ℤ) := by
    intro row tile hmem
    rw [List.append_assoc, List.mem_append, List.mem_append] at hmem
    rcases hmem with hmem | hmem | hmem
    · obtain ⟨old, hold, rfl⟩ := List.mem_map.1 hmem
      rw [hchange]
      exact of_decide_eq_true
        (List.mem_filter.1 ((List.takeWhile_prefix front).subset hold)).2
    · exact hinserted row tile hmem
    · obtain ⟨old, hold, rfl⟩ := List.mem_map.1 hmem
      rw [hchange]
      exact of_decide_eq_true
        (List.mem_filter.1 ((List.dropWhile_suffix front).subset hold)).2
  refine List.pairwise_flatMap.2 ⟨fun row _ => ?_, ?_⟩
  · exact List.pairwise_of_forall_mem_list fun a ha b hb => by
      rw [hblock row a ha, hblock row b hb]
  · refine List.pairwise_lt_range.imp fun {i j} hij a ha b hb => ?_
    rw [hblock i a ha, hblock j b hb]
    exact Int.ofNat_le.2 hij.le

/-! ## Whole grids -/

/-- Two cells of a whole grid with a slot in common are the same. -/
theorem eq_of_mem_tiled_slots {placed placed' : CellStep Text × Tile Text}
    (hwhole : (buildTableGridWithin tableRows limits).Whole tableRows)
    (hmem : placed ∈ tiled tableRows limits) (hmem' : placed' ∈ tiled tableRows limits)
    {slot : ℤ × ℤ} (hslot : slot ∈ placed.2.slots) (hslot' : slot ∈ placed'.2.slots) :
    placed = placed' := by
  have hpairwise : (tiled tableRows limits).Pairwise fun a b => Disjoint a.2.slots b.2.slots := by
    have hclear := allClear_empty_iff.1 hwhole.clear_held.1
    rwa [← map_snd_tiled hwhole, List.map_map, List.pairwise_map] at hclear
  have : Std.Symm fun a b : CellStep Text × Tile Text => Disjoint a.2.slots b.2.slots :=
    ⟨fun _ _ h => h.symm⟩
  by_contra hne
  exact Finset.disjoint_left.1 (hpairwise.forall hmem hmem' hne) hslot hslot'

/-- A tile of a layout has its first slot. -/
theorem first_mem_slots {tile : Tile Text}
    (hmem : tile ∈ layout tableRows (buildTableGridWithin tableRows limits)) :
    (tile.rowFrom, tile.columnFrom) ∈ tile.slots := by
  have hbounds := layout_bounds hmem
  exact Tile.mem_slots.2 ⟨⟨le_rfl, hbounds.1.2.1⟩, le_rfl, hbounds.2.1.2.1⟩

/-- Two cells of a whole grid that start in the same slot are the same. -/
theorem eq_of_starts {placed placed' : CellStep Text × Tile Text}
    (hwhole : (buildTableGridWithin tableRows limits).Whole tableRows)
    (hmem : placed ∈ tiled tableRows limits) (hmem' : placed' ∈ tiled tableRows limits)
    (hrow : placed.2.rowFrom = placed'.2.rowFrom)
    (hcolumn : placed.2.columnFrom = placed'.2.columnFrom) : placed = placed' := by
  refine eq_of_mem_tiled_slots hwhole hmem hmem' (first_mem_slots (snd_mem_layout hwhole hmem)) ?_
  rw [hrow, hcolumn]
  exact first_mem_slots (snd_mem_layout hwhole hmem')

/-- **The texts of a whole grid** are a tiling of it, and held in place. -/
theorem TableGrid.Whole.tiling (hwhole : (buildTableGridWithin tableRows limits).Whole tableRows) :
    Tiling (limitedRowCount tableRows limits) (buildTableGridWithin tableRows limits).columnCount
        (textLayout tableRows limits)
      ∧ AllHeld ∅ (textLayout tableRows limits) := by
  have hslots : (textLayout tableRows limits).map Tile.slots =
      (layout tableRows (buildTableGridWithin tableRows limits)).map Tile.slots := by
    rw [textLayout, List.map_map]
    rfl
  have hbounds : ∀ tile ∈ textLayout tableRows limits, ∃ old ∈ layout tableRows
      (buildTableGridWithin tableRows limits), old.textOnly = tile := fun tile hmem =>
    List.mem_map.1 hmem
  refine ⟨⟨?_, fun tile hmem => ?_, fun tile hmem => ?_, ?_, fun slot h0 hlt h0' hlt' => ?_⟩, ?_⟩
  · exact List.pairwise_map.2 (pairwise_rowFrom hwhole)
  · obtain ⟨old, hold, rfl⟩ := hbounds tile hmem
    exact (layout_bounds hold).1
  · obtain ⟨old, hold, rfl⟩ := hbounds tile hmem
    exact (layout_bounds hold).2.1
  · rw [hslots]
    exact allClear_empty_iff.1 hwhole.clear_held.1
  · obtain ⟨old, hold, hslot⟩ := hwhole.covered slot
      (Finset.mem_product.2 ⟨Finset.mem_Ico.2 ⟨h0, hlt⟩, Finset.mem_Ico.2 ⟨h0', hlt'⟩⟩)
    exact ⟨old.textOnly, List.mem_map_of_mem hold, hslot⟩
  · exact allHeld_textOnly.2 hwhole.clear_held.2

end Yunogram.Iv.Editor
