import Yunogram.Iv.PageTableLaidOut

/-!
# Iv/PageTableRowGrowth — a row that is added is added to the grid, and nothing else changes

The cells that cross the line are extended by a row, so the new row has one cell for each other
column, and what comes after it moves down by one.  Each tile is held in place as before: the slots
to its left are taken by the same tiles.
-/

open Machinery
open scoped Machinery.Computed

namespace Yunogram.Iv.Editor

variable {Text : Type} {tableRows : List (TableRow Text)}
  {limits : MarkdownPrepareTableRenderLimits}

/-! ## Cells that are extended -/

section Extension

variable {crosses : TableGridCellReference → Bool} {extended : TableCell Text → TableCell Text}
  {flagged : TableGridCellReference → Finset ℤ}

theorem foldl_extendCrossing (cells : List TableGridCellReference)
    (start : List (TableRow Text) × Finset ℤ) :
    (cells.foldl (fun (tableRows, covered) reference =>
        if crosses reference then
          (modifyCell tableRows reference extended, covered ∪ flagged reference)
        else (tableRows, covered)) start).1 =
      (cells.filter crosses).foldl (fun tableRows reference =>
        modifyCell tableRows reference extended) start.1
    ∧ ∀ x, x ∈ (cells.foldl (fun (tableRows, covered) reference =>
        if crosses reference then
          (modifyCell tableRows reference extended, covered ∪ flagged reference)
        else (tableRows, covered)) start).2 ↔
      x ∈ start.2 ∨ ∃ reference ∈ cells, crosses reference = true ∧ x ∈ flagged reference := by
  induction cells generalizing start with
  | nil => exact ⟨rfl, fun x => by simp⟩
  | cons reference cells ih =>
    rw [List.foldl_cons]
    obtain ⟨hrows, hcovered⟩ := ih (if crosses reference then
      (modifyCell start.1 reference extended, start.2 ∪ flagged reference) else start)
    refine ⟨hrows.trans ?_, fun x => (hcovered x).trans ?_⟩
    · rw [List.filter_cons]
      split_ifs <;> rfl
    · rw [List.exists_mem_cons_iff]
      split_ifs with hcrosses
      · rw [Finset.mem_union, and_iff_right hcrosses, or_assoc]
      · rw [← or_assoc]
        simp [hcrosses]

/-- The rows and columns that are flagged are those of the cells that are extended. -/
theorem mem_extendCrossing {cells : List TableGridCellReference} {x : ℤ} :
    x ∈ (extendCrossing crosses extended flagged cells tableRows).2 ↔
      ∃ reference ∈ cells, crosses reference = true ∧ x ∈ flagged reference := by
  refine ((foldl_extendCrossing cells (tableRows, ∅)).2 x).trans ?_
  simp

/-- A step once the cells that cross are extended. -/
def extendedStep (crosses : TableGridCellReference → Bool)
    (extended : TableCell Text → TableCell Text) (placed : CellStep Text × Tile Text) :
    CellStep Text :=
  if crosses (refOf placed.1 placed.2) then { placed.1 with cell := extended placed.1.cell }
  else placed.1

theorem rowIndex_extendedStep (placed : CellStep Text × Tile Text) :
    (extendedStep crosses extended placed).rowIndex = placed.1.rowIndex := by
  unfold extendedStep
  split_ifs <;> rfl

variable (hwhole : (buildTableGridWithin tableRows limits).Whole tableRows)

include hwhole

/-- **The cells of a whole grid that cross a line are extended** where they are. -/
theorem steps_extendCrossing :
    steps (extendCrossing crosses extended flagged (buildTableGridWithin tableRows limits).cells
        tableRows).1 = (tiled tableRows limits).map (extendedStep crosses extended) := by
  rw [extendCrossing, (foldl_extendCrossing _ _).1, cells_eq_map_tiled hwhole, List.filter_map,
    List.foldl_map]
  exact steps_foldl_modifyCell_tiled hwhole (fun _ => extended)
    fun placed => crosses (refOf placed.1 placed.2)

theorem length_extendCrossing :
    (extendCrossing crosses extended flagged (buildTableGridWithin tableRows limits).cells
      tableRows).1.length = tableRows.length := by
  rw [extendCrossing, (foldl_extendCrossing _ _).1, cells_eq_map_tiled hwhole, List.filter_map,
    List.foldl_map]
  exact length_foldl_modifyCell (fun _ => extended) _ tableRows

end Extension

/-- A span that is not the largest one is extended by one. -/
theorem normalizeTableSpan_incrementTableSpan {span : ℤ}
    (h : normalizeTableSpan span < intMax) :
    normalizeTableSpan (incrementTableSpan span) = normalizeTableSpan span + 1 := by
  have hspan := one_le_normalizeTableSpan span
  rw [incrementTableSpan, if_neg h.ne]
  exact max_eq_left (by omega)

/-! ## The cells with a row put in -/

/-- The check of `addTableRowUnchecked` that a cell crosses the line. -/
def crossesRow (line : ℤ) (reference : TableGridCellReference) : Bool :=
  !(reference.rowFrom ≥ line || reference.rowTill ≤ line)

/-- A cell that is a row longer. -/
def longerCell (cell : TableCell Text) : TableCell Text :=
  { cell with rowspan := incrementTableSpan cell.rowspan }

/-- The loop of `addTableRowUnchecked` over the grid. -/
def extendRows (limits : MarkdownPrepareTableRenderLimits) (line : ℤ)
    (tableRows : List (TableRow Text)) : List (TableRow Text) × Finset ℤ :=
  extendCrossing (crossesRow line) longerCell
    (fun reference => Finset.Ico reference.columnFrom reference.columnTill)
    (buildTableGridWithin tableRows limits).cells tableRows

/-- The cells that are changed and those of a new row, with their tiles. -/
def rowTiled (tableRows : List (TableRow Text)) (limits : MarkdownPrepareTableRenderLimits)
    (line : ℕ) (inserted : List (TableCell Text × Tile Text)) :
    List ((ℕ × TableCell Text) × Tile Text) :=
  ((tiled tableRows limits).filter fun placed => placed.1.rowIndex < line).map (fun placed =>
      ((extendedStep (crossesRow line) longerCell placed).entry, placed.2.openRow line))
    ++ inserted.map (fun new => ((line, new.1), new.2))
    ++ ((tiled tableRows limits).filter fun placed => line ≤ placed.1.rowIndex).map fun placed =>
      ((placed.1.rowIndex + 1, (extendedStep (crossesRow line) longerCell placed).cell),
        placed.2.openRow line)

/-- The cells of a new row with their tiles. -/
def insertedRow [Inhabited Text] (line : ℤ) (columnCount : ℤ) (free : ℕ → Bool)
    (header : ℕ → Bool) : List (TableCell Text × Tile Text) :=
  ((List.range columnCount.toNat).filter free).map fun (column : ℕ) =>
    (makeDefaultTableCell (header column),
      { (newTile line column : Tile Text) with cell := makeDefaultTableCell (header column) })

section Row

variable {line : ℕ} (inserted : List (TableCell Text × Tile Text))

theorem entriesFrom_insertIdx {changed : List (TableRow Text)}
    (hsteps : steps changed =
      (tiled tableRows limits).map (extendedStep (crossesRow line) longerCell))
    (hle : line ≤ changed.length) :
    entriesFrom 0 (changed.insertIdx line { cells := inserted.map Prod.fst }) =
      (rowTiled tableRows limits line inserted).map Prod.fst := by
  obtain ⟨hbefore, hafter⟩ := entriesFrom_take_drop hle
  have hentries : entriesFrom 0 changed = (tiled tableRows limits).map fun placed =>
      (extendedStep (crossesRow line) longerCell placed).entry := by
    rw [← map_entry_steps, hsteps, List.map_map]
    rfl
  have hrow : ∀ placed : CellStep Text × Tile Text,
      (extendedStep (crossesRow line) longerCell placed).entry.1 = placed.1.rowIndex :=
    rowIndex_extendedStep
  rw [insertIdx_eq_take_append_drop hle, entriesFrom_append, entriesFrom_cons, List.length_take,
    min_eq_left hle, zero_add, entriesFrom_add, hbefore, hafter, hentries, List.filter_map,
    List.filter_map, rowTiled, List.map_append, List.map_append, List.append_assoc]
  simp only [List.map_map, Function.comp_def, hrow]
  rfl

variable (hwhole : (buildTableGridWithin tableRows limits).Whole tableRows)

include hwhole

/-- **The tiles with a row put in** are those of the cells. -/
theorem rowAdded_eq [Inhabited Text] (columnCount : ℤ) (header : ℕ → Bool) :
    rowAdded line columnCount (textLayout tableRows limits) =
      (rowTiled tableRows limits line (insertedRow line columnCount
        (freeColumn line (textLayout tableRows limits)) header)).map fun placed =>
          placed.2.textOnly := by
  have hrow : ∀ placed ∈ tiled tableRows limits,
      placed.2.textOnly.rowFrom = (placed.1.rowIndex : ℤ) := fun placed hmem =>
    (unclamped_of_mem_tiled hwhole hmem).rowFrom
  rw [rowAdded, rowTiled, insertedRow, List.map_append, List.map_append, textLayout_eq hwhole,
    List.filter_map, List.filter_map]
  simp only [List.map_map]
  congr 1
  · congr 1
    refine congrArg (List.map _) (List.filter_congr fun placed hmem => ?_)
    rw [Function.comp, hrow placed hmem]
    exact decide_eq_decide.2 Int.ofNat_lt
  · refine congrArg (List.map _) (List.filter_congr fun placed hmem => ?_)
    rw [Function.comp, hrow placed hmem]
    exact decide_eq_decide.2 Int.ofNat_le

end Row

/-! ## Tiles with a row put in -/

section Tiles

variable {tiles : List (Tile Text)} {rowCount columnCount line : ℤ} {tile : Tile Text}

theorem mem_openRow (hlt : tile.rowFrom < tile.rowTill) {slot : ℤ × ℤ} :
    slot ∈ (tile.openRow line).slots ↔
      (tile.columnFrom ≤ slot.2 ∧ slot.2 < tile.columnTill)
        ∧ ((slot.1 < line ∧ tile.rowFrom ≤ slot.1 ∧ slot.1 < tile.rowTill)
          ∨ (line < slot.1 ∧ tile.rowFrom ≤ slot.1 - 1 ∧ slot.1 - 1 < tile.rowTill)
          ∨ slot.1 = line ∧ tile.rowFrom < line ∧ line < tile.rowTill) := by
  rw [Tile.mem_slots, and_comm]
  refine and_congr_right fun _ => ?_
  dsimp only [Tile.openRow]
  split_ifs <;> omega

variable [Inhabited Text]

theorem mem_newTile {row column : ℤ} {slot : ℤ × ℤ} :
    slot ∈ (newTile row column : Tile Text).slots ↔ slot = (row, column) := by
  rw [Tile.mem_slots, Prod.ext_iff]
  dsimp only [newTile]
  omega

/-- A new cell has the spans of its tile. -/
theorem unclamped_newTile (row : ℕ) (column : ℤ) (header : Bool) :
    Unclamped ⟨row, 0, (makeDefaultTableCell header : TableCell Text)⟩
      { (newTile row column : Tile Text) with cell := makeDefaultTableCell header } :=
  ⟨rfl, rfl, rfl, rfl⟩

/-- A column of the new row is free: no tile that crosses the line is in it. -/
def FreeColumn (tiles : List (Tile Text)) (line column : ℤ) : Prop :=
  ∀ tile ∈ tiles, tile.rowFrom < line → line < tile.rowTill → tile.columnFrom ≤ column →
    tile.columnTill ≤ column

omit [Inhabited Text] in
theorem mem_freeColumns {column : ℕ} :
    column ∈ (List.range columnCount.toNat).filter (freeColumn line tiles) ↔
      (column : ℤ) < columnCount ∧ FreeColumn tiles line column := by
  rw [List.mem_filter, List.mem_range, Int.lt_toNat, freeColumn, Bool.not_eq_true',
    List.any_eq_false]
  refine and_congr_right fun _ => forall₂_congr fun tile _ => ?_
  simp only [Bool.and_eq_true, decide_eq_true_eq, not_and, not_lt, and_imp]

theorem mem_rowAdded : tile ∈ rowAdded line columnCount tiles ↔
    (∃ old ∈ tiles, tile = old.openRow line)
      ∨ ∃ column : ℕ, (column : ℤ) < columnCount ∧ FreeColumn tiles line column
        ∧ tile = newTile line column := by
  have hnew : ∀ column : ℕ, column ∈ (List.range columnCount.toNat).filter _ ↔ _ :=
    fun column => @mem_freeColumns _ tiles columnCount line column
  rw [rowAdded, List.mem_append, List.mem_append, List.mem_map, List.mem_map, List.mem_map]
  simp only [hnew, List.mem_filter, decide_eq_true_eq]
  constructor
  · rintro ((⟨old, ⟨hmem, -⟩, rfl⟩ | ⟨column, ⟨hlt, hfree⟩, rfl⟩) | ⟨old, ⟨hmem, -⟩, rfl⟩)
    · exact .inl ⟨old, hmem, rfl⟩
    · exact .inr ⟨column, hlt, hfree, rfl⟩
    · exact .inl ⟨old, hmem, rfl⟩
  · rintro (⟨old, hmem, rfl⟩ | ⟨column, hlt, hfree, rfl⟩)
    · rcases lt_or_ge old.rowFrom line with hbefore | hafter
      · exact .inl (.inl ⟨old, ⟨hmem, hbefore⟩, rfl⟩)
      · exact .inr ⟨old, ⟨hmem, hafter⟩, rfl⟩
    · exact .inl (.inr ⟨column, ⟨hlt, hfree⟩, rfl⟩)

/-- Up to their order, the tiles with a row put in are the old ones and the new ones. -/
theorem rowAdded_perm (horder : tiles.Pairwise fun a b => a.rowFrom ≤ b.rowFrom) :
    (rowAdded line columnCount tiles).Perm (tiles.map (Tile.openRow line)
      ++ ((List.range columnCount.toNat).filter (freeColumn line tiles)).map
        fun (column : ℕ) => newTile line column) := by
  have hold : tiles.map (Tile.openRow line) =
      (tiles.filter fun tile => tile.rowFrom < line).map (Tile.openRow line)
        ++ (tiles.filter fun tile => line ≤ tile.rowFrom).map (Tile.openRow line) := by
    rw [← List.map_append, ← eq_filter_lt_append line horder]
  rw [rowAdded, hold, List.append_assoc, List.append_assoc]
  exact List.Perm.append_left _ List.perm_append_comm

/-- **A tiling with a row put in is a tiling** of the higher box. -/
theorem Tiling.rowAdded (h : Tiling rowCount columnCount tiles) (h0 : 0 ≤ line)
    (hle : line ≤ rowCount) :
    Tiling (rowCount + 1) columnCount (rowAdded line columnCount tiles) := by
  refine ⟨?_, fun tile hmem => ?_, fun tile hmem => ?_, ?_, fun slot hr0 hr hc0 hc => ?_⟩
  · have hopen : ∀ p : Tile Text → Bool, ((tiles.filter p).map (Tile.openRow line)).Pairwise
        fun a b => a.rowFrom ≤ b.rowFrom := fun p => by
      refine List.pairwise_map.2 ((h.order.sublist List.filter_sublist).imp fun {a b} hab => ?_)
      dsimp only [Tile.openRow]
      split_ifs <;> omega
    refine List.pairwise_append.2 ⟨List.pairwise_append.2 ⟨hopen _, ?_, ?_⟩, hopen _, ?_⟩
    · exact List.pairwise_map.2 (List.pairwise_of_forall fun a b => le_rfl)
    · intro a ha b hb
      obtain ⟨old, hold, rfl⟩ := List.mem_map.1 ha
      obtain ⟨column, -, rfl⟩ := List.mem_map.1 hb
      have hbefore := of_decide_eq_true (List.mem_filter.1 hold).2
      dsimp only [Tile.openRow, newTile]
      split_ifs <;> omega
    · intro a ha b hb
      obtain ⟨old, hold, rfl⟩ := List.mem_map.1 hb
      have hafter := of_decide_eq_true (List.mem_filter.1 hold).2
      rcases List.mem_append.1 ha with ha | ha
      · obtain ⟨old', hold', rfl⟩ := List.mem_map.1 ha
        have hbefore := of_decide_eq_true (List.mem_filter.1 hold').2
        dsimp only [Tile.openRow]
        split_ifs <;> omega
      · obtain ⟨column, -, rfl⟩ := List.mem_map.1 ha
        dsimp only [Tile.openRow, newTile]
        rw [if_pos hafter]
        omega
  · rcases mem_rowAdded.1 hmem with ⟨old, hold, rfl⟩ | ⟨column, -, -, rfl⟩
    · have hrows := h.rows old hold
      dsimp only [Tile.openRow]
      split_ifs <;> omega
    · dsimp only [newTile]
      omega
  · rcases mem_rowAdded.1 hmem with ⟨old, hold, rfl⟩ | ⟨column, hlt, -, rfl⟩
    · exact h.columns old hold
    · dsimp only [newTile]
      omega
  · refine (List.pairwise_map.2 ?_)
    refine ((rowAdded_perm h.order).pairwise_iff fun hab => hab.symm).2 ?_
    rw [List.pairwise_append, List.pairwise_map, List.pairwise_map]
    refine ⟨(List.pairwise_map.1 h.disjoint).imp_of_mem fun {a b} ha hb hab => ?_,
      (List.nodup_range.filter _).imp fun {a b} hab => ?_, fun a ha b hb => ?_⟩
    · rw [Finset.disjoint_left] at hab ⊢
      intro slot hslot hslot'
      rw [mem_openRow (h.rows a ha).2.1] at hslot
      rw [mem_openRow (h.rows b hb).2.1] at hslot'
      have hlift := @hab (if slot.1 < line then slot.1 else slot.1 - 1, slot.2)
      rw [Tile.mem_slots, Tile.mem_slots] at hlift
      dsimp only at hlift
      split_ifs at hlift <;> omega
    · rw [Finset.disjoint_left]
      intro slot hslot hslot'
      rw [mem_newTile] at hslot hslot'
      exact hab (Int.ofNat_inj.1 (Prod.mk.inj (hslot.symm.trans hslot')).2)
    · obtain ⟨old, hold, rfl⟩ := List.mem_map.1 ha
      obtain ⟨column, hcolumn, rfl⟩ := List.mem_map.1 hb
      have hfree := (mem_freeColumns.1 hcolumn).2 old hold
      rw [Finset.disjoint_left]
      intro slot hslot hslot'
      rw [mem_newTile] at hslot'
      rw [hslot', mem_openRow (h.rows old hold).2.1] at hslot
      dsimp only at hslot
      omega
  · have hmove : ∀ row, 0 ≤ row → row < rowCount → (slot.1 < line ∧ row = slot.1
        ∨ line < slot.1 ∧ row = slot.1 - 1) →
        ∃ tile ∈ Editor.rowAdded line columnCount tiles, slot ∈ tile.slots := by
      intro row hrow0 hrow hcases
      obtain ⟨old, hold, hslot⟩ := h.covers (row, slot.2) hrow0 hrow hc0 hc
      rw [Tile.mem_slots] at hslot
      refine ⟨_, mem_rowAdded.2 (.inl ⟨old, hold, rfl⟩), ?_⟩
      rw [mem_openRow (h.rows old hold).2.1]
      dsimp only at hslot
      omega
    rcases lt_trichotomy slot.1 line with hbefore | hline | hafter
    · exact hmove slot.1 hr0 (by omega) (.inl ⟨hbefore, rfl⟩)
    · by_cases hfree : FreeColumn tiles line slot.2
      · have hcolumn : ((slot.2.toNat : ℕ) : ℤ) = slot.2 := Int.toNat_of_nonneg hc0
        refine ⟨_, mem_rowAdded.2 (.inr ⟨slot.2.toNat, by omega, by rwa [hcolumn], rfl⟩), ?_⟩
        rw [mem_newTile, hcolumn, ← hline]
      · simp only [FreeColumn, not_forall, not_le, exists_prop] at hfree
        obtain ⟨old, hold, hfrom, htill, hcolumnFrom, hcolumnTill⟩ := hfree
        refine ⟨_, mem_rowAdded.2 (.inl ⟨old, hold, rfl⟩), ?_⟩
        rw [mem_openRow (h.rows old hold).2.1]
        exact ⟨⟨hcolumnFrom, hcolumnTill⟩, .inr (.inr ⟨hline, hfrom, htill⟩)⟩
    · exact hmove (slot.1 - 1) (by omega) (by omega) (.inr ⟨hafter, rfl⟩)

/-- **The tiles with a row put in are held in place**, where the old ones were. -/
theorem allHeld_rowAdded (h : Tiling rowCount columnCount tiles) (hheld : AllHeld ∅ tiles) :
    AllHeld ∅ (Editor.rowAdded line columnCount tiles) := by
  have hopen : AllHeld ∅ (tiles.map (Tile.openRow line)) := by
    rw [← List.filterMap_eq_map]
    refine hheld.filterMap (fun slot => (if slot.1 < line then slot.1
      else if slot.1 = line then -1 else slot.1 - 1, slot.2)) (fun tile hmem slot hslot => ?_)
      (fun tile hmem tile' hsome => ?_) fun slot hslot => absurd hslot (Finset.notMem_empty _)
    · refine ⟨_, rfl, (mem_openRow (h.rows tile hmem).2.1).2 ?_⟩
      have hrows := h.rows tile hmem
      rw [Tile.mem_slots] at hslot
      dsimp only at hslot
      split_ifs at hslot <;> omega
    · obtain rfl := Option.some.inj hsome
      refine ⟨rfl, rfl, fun y => Prod.ext ?_ rfl⟩
      dsimp only [Tile.openRow]
      split_ifs <;> omega
  have hold : tiles.map (Tile.openRow line) =
      (tiles.filter fun tile => tile.rowFrom < line).map (Tile.openRow line)
        ++ (tiles.filter fun tile => line ≤ tile.rowFrom).map (Tile.openRow line) := by
    rw [← List.map_append, ← eq_filter_lt_append line h.order]
  rw [hold, allHeld_append] at hopen
  rw [Editor.rowAdded, allHeld_append, allHeld_append]
  refine ⟨⟨hopen.1, allHeld_of_forall fun earlier tile later heq column hcolumn => ?_⟩,
    hopen.2.mono fun slot hslot => ?_⟩
  · obtain ⟨earlierColumns, rest, hcolumns, rfl, hrest⟩ := List.map_eq_append_iff.1 heq
    obtain ⟨own, laterColumns, rfl, rfl, rfl⟩ := List.map_eq_cons_iff.1 hrest
    rw [Finset.mem_Ico] at hcolumn
    have hown : (newTile line own : Tile Text).columnFrom = own := rfl
    refine ⟨column, Finset.mem_Ico.2 ⟨le_rfl, by dsimp only [newTile]; omega⟩, ?_⟩
    -- What is to the left is a column of the new row, or of a cell that crosses the line.
    by_cases hfree : FreeColumn tiles line column
    · have hcast : ((column.toNat : ℕ) : ℤ) = column := Int.toNat_of_nonneg hcolumn.1
      have hownMem := mem_freeColumns.1 (hcolumns ▸ List.mem_append_right _ List.mem_cons_self)
      have hmem := (@mem_freeColumns _ tiles columnCount line column.toNat).2
        ⟨by omega, by rwa [hcast]⟩
      have horder := (List.pairwise_lt_range (n := columnCount.toNat)).sublist
        (List.filter_sublist (p := freeColumn line tiles))
      rw [hcolumns] at hmem horder
      have hearlier : column.toNat ∈ earlierColumns := by
        refine (List.mem_append.1 hmem).resolve_right fun hlater => ?_
        rcases List.mem_cons.1 hlater with heq | hlater
        · omega
        · have hlt := (List.pairwise_cons.1 (List.pairwise_append.1 horder).2.1).1 _ hlater
          omega
      refine Finset.mem_union_right _ (mem_covered.2 ⟨_, List.mem_map_of_mem
        (List.mem_map_of_mem hearlier), ?_⟩)
      rw [mem_newTile, hcast]
      rfl
    · simp only [FreeColumn, not_forall, not_le, exists_prop] at hfree
      obtain ⟨old, hmem, hfrom, htill, hcolumnFrom, hcolumnTill⟩ := hfree
      refine Finset.mem_union_left _ (Finset.mem_union_right _ (mem_covered.2 ⟨_,
        List.mem_map_of_mem (List.mem_map_of_mem (List.mem_filter.2
          ⟨hmem, decide_eq_true hfrom⟩)), ?_⟩))
      rw [mem_openRow (h.rows old hmem).2.1]
      exact ⟨⟨hcolumnFrom, hcolumnTill⟩, .inr (.inr ⟨rfl, hfrom, htill⟩)⟩
  · rw [Finset.empty_union] at hslot ⊢
    obtain ⟨slots, hmem, hin⟩ := mem_covered.1 hslot
    rw [List.map_append]
    exact mem_covered.2 ⟨slots, List.mem_append_left _ hmem, hin⟩

end Tiles

/-! ## The result -/

section Result

variable [Inhabited Text] {line : ℕ} {rowCount : ℤ} {placed : CellStep Text × Tile Text}

omit [Inhabited Text] in
/-- **A tile that is opened for a row** has the spans of its cell, extended where it crosses the
line. -/
theorem Unclamped.openRow (h : Unclamped placed.1 placed.2)
    (hint : placed.2.rowTill - placed.2.rowFrom < intMax) :
    Unclamped ⟨if placed.1.rowIndex < line then placed.1.rowIndex else placed.1.rowIndex + 1, 0,
        (extendedStep (crossesRow line) longerCell placed).cell⟩ (placed.2.openRow line) := by
  have hspan := one_le_normalizeTableSpan placed.1.cell.rowspan
  have hrowFrom := h.rowFrom
  have hrowTill := h.rowTill
  have hcolumnTill := h.columnTill
  have hcrosses : crossesRow line (refOf placed.1 placed.2) = true ↔
      placed.2.rowFrom < line ∧ line < placed.2.rowTill := by
    rw [crossesRow, Bool.not_eq_true', Bool.or_eq_false_iff, decide_eq_false_iff_not,
      decide_eq_false_iff_not, not_le, not_le]
    rfl
  have hrow : (placed.2.openRow line).rowFrom =
      (if placed.1.rowIndex < line then placed.1.rowIndex else placed.1.rowIndex + 1 : ℕ) := by
    dsimp only [Tile.openRow]
    split_ifs <;> omega
  by_cases hcross : crossesRow line (refOf placed.1 placed.2) = true
  · have hlonger := normalizeTableSpan_incrementTableSpan
      (show normalizeTableSpan placed.1.cell.rowspan < intMax by omega)
    rw [extendedStep, if_pos hcross]
    rw [hcrosses] at hcross
    refine ⟨h.content, hrow, ?_, hcolumnTill⟩
    dsimp only [Tile.openRow, longerCell]
    rw [if_pos hcross.2, if_neg (not_le.2 hcross.1), hlonger]
    omega
  · rw [extendedStep, if_neg hcross]
    rw [hcrosses] at hcross
    refine ⟨h.content, hrow, ?_, hcolumnTill⟩
    dsimp only [Tile.openRow]
    split_ifs <;> omega

variable (hwhole : (buildTableGridWithin tableRows limits).Whole tableRows)

include hwhole

/-- The cells with a row put in have the spans of their tiles. -/
theorem unclamped_rowTiled {columnCount : ℤ} {free header : ℕ → Bool}
    (hint : limitedRowCount tableRows limits < intMax) :
    ∀ new ∈ rowTiled tableRows limits line (insertedRow line columnCount free header),
      Unclamped ⟨new.1.1, 0, new.1.2⟩ new.2 := by
  have hold : ∀ placed ∈ tiled tableRows limits,
      Unclamped ⟨if placed.1.rowIndex < line then placed.1.rowIndex else placed.1.rowIndex + 1, 0,
        (extendedStep (crossesRow line) longerCell placed).cell⟩ (placed.2.openRow line) := by
    intro placed hmem
    have hbounds := (layout_bounds (snd_mem_layout hwhole hmem)).1
    exact (unclamped_of_mem_tiled hwhole hmem).openRow (by omega)
  intro new hmem
  rw [rowTiled, List.mem_append, List.mem_append] at hmem
  rcases hmem with (hmem | hmem) | hmem
  · obtain ⟨placed, hplaced, rfl⟩ := List.mem_map.1 hmem
    obtain ⟨hplaced, hbefore⟩ := List.mem_filter.1 hplaced
    have hspans := hold placed hplaced
    rw [if_pos (of_decide_eq_true hbefore)] at hspans
    rwa [CellStep.entry, rowIndex_extendedStep]
  · obtain ⟨_, hcell, rfl⟩ := List.mem_map.1 hmem
    obtain ⟨column, -, rfl⟩ := List.mem_map.1 hcell
    exact unclamped_newTile _ _ _
  · obtain ⟨placed, hplaced, rfl⟩ := List.mem_map.1 hmem
    obtain ⟨hplaced, hafter⟩ := List.mem_filter.1 hplaced
    have hspans := hold placed hplaced
    rwa [if_neg (not_lt.2 (of_decide_eq_true hafter))] at hspans

omit [Inhabited Text] in
/-- A column is flagged exactly where a cell that crosses the line is in it. -/
theorem mem_coveredColumns {column : ℤ} :
    column ∈ (extendRows limits line tableRows).2 ↔
      ¬FreeColumn (textLayout tableRows limits) line column := by
  rw [extendRows, mem_extendCrossing, cells_eq_map_tiled hwhole, textLayout_eq hwhole]
  simp only [FreeColumn, not_forall, not_le, exists_prop, List.mem_map,
    exists_exists_and_eq_and, crossesRow, Bool.not_eq_true', Bool.or_eq_false_iff,
    decide_eq_false_iff_not, not_le, Finset.mem_Ico, ge_iff_le, and_assoc]
  rfl

/-- The cells of the new row, those of the columns that are not flagged. -/
theorem map_fst_insertedRow (line : ℕ) (columnCount : ℤ) (header : ℕ → Bool) :
    ((List.range columnCount.toNat).filterMap fun (column : ℕ) =>
        if (column : ℤ) ∈ (extendRows limits line tableRows).2 then none
        else some (makeDefaultTableCell (header column) : TableCell Text)) =
      (insertedRow line columnCount (freeColumn line (textLayout tableRows limits)) header).map
        Prod.fst := by
  rw [insertedRow, List.map_map]
  refine filterMap_eq_map_filter fun column hcolumn => ?_
  have hfree := @mem_freeColumns _ (textLayout tableRows limits) columnCount line column
  rw [List.mem_filter, and_iff_right hcolumn,
    and_iff_right (Int.lt_toNat.1 (List.mem_range.1 hcolumn))] at hfree
  have hcovered := @mem_coveredColumns _ tableRows limits line hwhole column
  by_cases h : freeColumn line (textLayout tableRows limits) column = true
  · rw [if_pos h, if_neg fun hmem => hcovered.1 hmem (hfree.1 h)]
    rfl
  · rw [if_neg h, if_pos (hcovered.2 fun hmem => h (hfree.2 hmem))]

/-- The table with a row put in has the cells of the tiles with it. -/
theorem addTableRow_cellsOf {range : TableCellRange}
    (hvalid : validateTableCellRange tableRows limits range = some range) (after : Bool)
    (hfits : limits.Fits (tableRows.length + 1)
      (buildTableGridWithin tableRows limits).columnCount) :
    ∃ tableRows', addTableRowUnchecked limits tableRows range after = some tableRows'
      ∧ tableRows'.length = tableRows.length + 1
      ∧ CellsOf limits tableRows' ((buildTableGridWithin tableRows limits).rowCount + 1)
        (buildTableGridWithin tableRows limits).columnCount
        (rowAdded (if after then range.rowTill else range.rowFrom)
          (buildTableGridWithin tableRows limits).columnCount (textLayout tableRows limits)) := by
  obtain ⟨-, hrows, hcolumns⟩ := eq_of_validateTableCellRange hvalid
  have hrowsFit := hfits.rows
  have hrowsInt := hfits.rows_int
  have hcount := limitedRowCount_eq (show (tableRows.length : ℤ) ≤ limits.maxRows by omega)
  rw [rowCount_within, hcount] at hrows ⊢
  obtain ⟨line, hline⟩ := Int.eq_ofNat_of_zero_le
    (show 0 ≤ if after then range.rowTill else range.rowFrom by split_ifs <;> omega)
  have hle : (line : ℤ) ≤ tableRows.length := by
    rw [← hline]
    split_ifs <;> omega
  unfold addTableRowUnchecked
  rw [hvalid]
  dsimp only
  rw [hline, if_neg (by omega), if_neg (by omega), Int.toNat_natCast]
  have hsteps : steps (extendRows limits line tableRows).1 =
      (tiled tableRows limits).map (extendedStep (crossesRow line) longerCell) :=
    steps_extendCrossing hwhole
  have hlength : (extendRows limits line tableRows).1.length = tableRows.length :=
    length_extendCrossing hwhole
  have hlength' : ∀ row : TableRow Text,
      ((extendRows limits line tableRows).1.insertIdx line row).length = tableRows.length + 1 :=
    fun row => by rw [List.length_insertIdx_of_le_length (by omega), hlength]
  refine ⟨_, rfl, hlength' _, ?_⟩
  have hcellsOf : ∀ header : ℕ → Bool, CellsOf limits
      ((extendRows limits line tableRows).1.insertIdx line { cells := (insertedRow line
        (buildTableGridWithin tableRows limits).columnCount
        (freeColumn line (textLayout tableRows limits)) header).map Prod.fst })
      (tableRows.length + 1) (buildTableGridWithin tableRows limits).columnCount
      (rowAdded line (buildTableGridWithin tableRows limits).columnCount
        (textLayout tableRows limits)) := by
    intro header
    have htiling := hwhole.tiling.1
    rw [hcount] at htiling
    refine ⟨⟨_, entriesFrom_insertIdx _ hsteps (by omega), rowAdded_eq hwhole _ header,
      unclamped_rowTiled hwhole (by omega)⟩, htiling.rowAdded (Int.natCast_nonneg _) hle, ?_,
      hfits, by omega, by omega⟩
    rw [limitedRowCount_eq (by rw [hlength']; omega), hlength']
    omega
  have hcells := hcellsOf fun column => headerOf (tableGridCellAt
    (extendRows limits line tableRows).1 (buildTableGridWithin tableRows limits)
    (if after then range.rowTill - 1 else range.rowFrom) column)
  rw [← map_fst_insertedRow hwhole] at hcells
  exact hcells

end Result

end Yunogram.Iv.Editor
