import Yunogram.Iv.PageTableEdits

/-!
# Iv/PageTableRowRemoval — when the rows of a range are taken out of the grid, and no more

The records of the rows are erased as they are.  What starts in the range goes, also where it sticks
out below; and what reaches into the range from above keeps its span, which then reaches further
down than it did, unless the table ends there.
-/

open Machinery

namespace Yunogram.Iv.Editor

variable {Text : Type} {tableRows : List (TableRow Text)}
  {limits : MarkdownPrepareTableRenderLimits} {start till : ℕ}

/-- The rows that are left once those of a range are erased. -/
def eraseRows (tableRows : List (TableRow Text)) (start till : ℕ) : List (TableRow Text) :=
  tableRows.take start ++ tableRows.drop till

/-- **Rows are cut cleanly**: the table has no more rows than the limit, no cell starts in the range
and sticks out below, and a cell that reaches into it from above reaches to the last row of the
table, or the range does. -/
structure CutsRowsCleanly (limits : MarkdownPrepareTableRenderLimits)
    (tableRows : List (TableRow Text)) (start till : ℤ) : Prop where
  limited : (tableRows.length : ℤ) ≤ limits.maxRows
  below : ∀ tile ∈ layout tableRows (buildTableGridWithin tableRows limits),
    start ≤ tile.rowFrom → tile.rowFrom < till → tile.rowTill ≤ till
  above : ∀ tile ∈ layout tableRows (buildTableGridWithin tableRows limits),
    tile.rowFrom < start → start < tile.rowTill →
      tile.rowTill = (buildTableGridWithin tableRows limits).rowCount
        ∨ till = (buildTableGridWithin tableRows limits).rowCount

/-! ## The cells that are left -/

/-- A cell is outside of the rows of a range. -/
def keptRow (start till : ℕ) (placed : CellStep Text × Tile Text) : Bool :=
  placed.1.rowIndex < start || till ≤ placed.1.rowIndex

/-- The row and the cell of one that is left. -/
def entryLeft (start till : ℕ) (placed : CellStep Text × Tile Text) : ℕ × TableCell Text :=
  (if placed.1.rowIndex < start then placed.1.rowIndex else placed.1.rowIndex - (till - start),
    placed.1.cell)

theorem entriesFrom_eraseRows (hle : start ≤ till) (htill : till ≤ tableRows.length) :
    entriesFrom 0 (eraseRows tableRows start till) =
      (entriesFrom 0 tableRows).filterMap fun entry =>
        if entry.1 < start || till ≤ entry.1 then
          some (if entry.1 < start then entry.1 else entry.1 - (till - start), entry.2)
        else none := by
  have hsplit : tableRows = tableRows.take start ++ ((tableRows.drop start).take (till - start)
      ++ tableRows.drop till) := by
    have hdrop : (tableRows.drop start).drop (till - start) = tableRows.drop till := by
      rw [List.drop_drop, Nat.add_sub_cancel' hle]
    rw [← hdrop, List.take_append_drop, List.take_append_drop]
  have hstart : (tableRows.take start).length = start := by
    rw [List.length_take, min_eq_left (hle.trans htill)]
  have hgone : ((tableRows.drop start).take (till - start)).length = till - start := by
    rw [List.length_take, List.length_drop]
    omega
  have hold : entriesFrom 0 tableRows = entriesFrom 0 (tableRows.take start)
      ++ (entriesFrom start ((tableRows.drop start).take (till - start))
        ++ (entriesFrom start (tableRows.drop till)).map fun entry =>
          (entry.1 + (till - start), entry.2)) := by
    conv_lhs => rw [hsplit]
    rw [entriesFrom_append, entriesFrom_append, hstart, hgone, zero_add, entriesFrom_add]
  rw [hold, eraseRows, entriesFrom_append, hstart, zero_add, List.filterMap_append,
    List.filterMap_append, List.filterMap_map]
  congr 1
  · refine (List.filterMap_some.symm.trans (List.filterMap_congr fun entry hmem => ?_))
    have hrow := rowIndex_of_mem_entriesFrom hmem
    rw [if_pos (by simp; omega), if_pos (by omega)]
  · rw [List.filterMap_eq_nil_iff.2, List.nil_append]
    · refine (List.filterMap_some.symm.trans (List.filterMap_congr fun entry hmem => ?_))
      have hrow := rowIndex_of_mem_entriesFrom hmem
      dsimp only [Function.comp]
      rw [if_pos (by simp; omega), if_neg (by omega), Nat.add_sub_cancel]
    · intro entry hmem
      have hrow := rowIndex_of_mem_entriesFrom hmem
      rw [if_neg (by simp; omega)]

/-- The cells that are left, from the cells of a whole grid with their tiles. -/
theorem entriesFrom_left (hwhole : (buildTableGridWithin tableRows limits).Whole tableRows)
    (hle : start ≤ till) (htill : till ≤ tableRows.length) :
    entriesFrom 0 (eraseRows tableRows start till) =
      ((tiled tableRows limits).filter (keptRow start till)).map (entryLeft start till) := by
  rw [entriesFrom_eraseRows hle htill, ← map_entry_steps, ← map_fst_tiled hwhole, List.map_map,
    List.filterMap_map]
  exact filterMap_eq_map_filter fun placed _ => rfl

/-- A tile is not within the rows of a range. -/
def keptTile (start till : ℕ) (placed : CellStep Text × Tile Text) : Bool :=
  !decide ((start : ℤ) ≤ placed.2.rowFrom ∧ placed.2.rowTill ≤ (till : ℤ))

/-- The tiles that are left, from the cells of a whole grid with their tiles. -/
theorem tiles_left (hwhole : (buildTableGridWithin tableRows limits).Whole tableRows) :
    (layout tableRows (buildTableGridWithin tableRows limits)).filterMap
        (Tile.withoutRows start till) =
      ((tiled tableRows limits).filter (keptTile start till)).map fun placed =>
        placed.2.cutRows start till := by
  rw [← map_snd_tiled hwhole, List.filterMap_map]
  refine filterMap_eq_map_filter fun placed _ => ?_
  rw [Function.comp, Tile.withoutRows, keptTile]
  split_ifs with hin hkept hkept
  · simp [hin] at hkept
  · rfl
  · rfl
  · simp [hin] at hkept

/-! ## Cells that are cut cleanly -/

theorem length_eraseRows (hle : start ≤ till) (htill : till ≤ tableRows.length) :
    (eraseRows tableRows start till).length = tableRows.length - (till - start) := by
  rw [eraseRows, List.length_append, List.length_take, List.length_drop]
  omega

/-- Where a slot of the grid that is left was. -/
def rowLift (start till : ℕ) (slot : ℤ × ℤ) : ℤ × ℤ :=
  (if slot.1 < start then slot.1 else slot.1 + (till - start), slot.2)

theorem mem_cutRows_iff (hle : start ≤ till) {tile : Tile Text} {slot : ℤ × ℤ} :
    slot ∈ (tile.cutRows start till).slots ↔ rowLift start till slot ∈ tile.slots := by
  rw [Tile.mem_slots, Tile.mem_slots]
  simp only [Tile.cutRows, rowLift, cutLine]
  refine and_congr_left fun _ => ?_
  split_ifs <;> omega

variable {rowCount : ℤ} {placed : CellStep Text × Tile Text}

/-- Cleanly cut, a tile is left exactly when its cell is. -/
theorem keptTile_eq_keptRow (hplaced : Unclamped placed.1 placed.2)
    (hbelow : start ≤ placed.2.rowFrom → placed.2.rowFrom < till → placed.2.rowTill ≤ till) :
    keptTile start till placed = keptRow start till placed := by
  have hspan := one_le_normalizeTableSpan placed.1.cell.rowspan
  have hrowFrom := hplaced.rowFrom
  have hrowTill := hplaced.rowTill
  rw [keptTile, keptRow, Bool.eq_iff_iff]
  simp only [Bool.not_eq_true', decide_eq_false_iff_not, Bool.or_eq_true, decide_eq_true_eq]
  omega

/-- A tile is left where its cell is. -/
theorem keptTile_of_keptRow (hplaced : Unclamped placed.1 placed.2)
    (hrow : keptRow start till placed = true) : keptTile start till placed = true := by
  have hspan := one_le_normalizeTableSpan placed.1.cell.rowspan
  have hrowFrom := hplaced.rowFrom
  have hrowTill := hplaced.rowTill
  rw [keptRow, Bool.or_eq_true, decide_eq_true_eq, decide_eq_true_eq] at hrow
  rw [keptTile, Bool.not_eq_true', decide_eq_false_iff_not]
  omega

/-- A tile that is cut reaches down as far as its cell does once the rows are gone, exactly when it
is cut cleanly. -/
theorem rowTill_left_iff (hplaced : Unclamped placed.1 placed.2) (hrow : keptRow start till placed)
    (hlt : start < till) (htill : (till : ℤ) ≤ rowCount) (hbound : placed.2.rowTill ≤ rowCount) :
    (placed.2.cutRows start till).rowTill = (entryLeft start till placed).1
        + clampTableRowspan (entryLeft start till placed).2.rowspan
          (entryLeft start till placed).1 (rowCount - (till - start))
      ↔ (placed.2.rowFrom < start → start < placed.2.rowTill →
        placed.2.rowTill = rowCount ∨ till = rowCount) := by
  have hspan := one_le_normalizeTableSpan placed.1.cell.rowspan
  have hrowFrom := hplaced.rowFrom
  have hrowTill := hplaced.rowTill
  rw [keptRow, Bool.or_eq_true, decide_eq_true_eq, decide_eq_true_eq] at hrow
  rw [clampTableRowspan, clampTableSpan_eq (Int.natCast_nonneg _)]
  · rw [Tile.cutRows, entryLeft]
    dsimp only [cutLine]
    split_ifs <;> omega
  · rw [entryLeft]
    dsimp only
    split_ifs <;> omega

/-- **A tile that is cut cleanly** is what its cell is placed as once the rows are gone. -/
theorem shaped_left (hplaced : Unclamped placed.1 placed.2) (hrow : keptRow start till placed)
    (hlt : start < till) (htill : (till : ℤ) ≤ rowCount) (hbound : placed.2.rowTill ≤ rowCount)
    (habove : placed.2.rowFrom < start → start < placed.2.rowTill →
      placed.2.rowTill = rowCount ∨ till = rowCount) :
    Shaped (rowCount - (till - start)) (entryLeft start till placed).1
      (entryLeft start till placed).2 (placed.2.cutRows start till) := by
  refine ⟨hplaced.content, ?_, (rowTill_left_iff hplaced hrow hlt htill hbound).2 habove,
    hplaced.columnTill⟩
  have hrowFrom := hplaced.rowFrom
  rw [keptRow, Bool.or_eq_true, decide_eq_true_eq, decide_eq_true_eq] at hrow
  rw [Tile.cutRows, entryLeft]
  dsimp only [cutLine]
  split_ifs <;> omega

/-- What a tile is once rows are gone. -/
theorem eq_cutRows_of_withoutRows {tile tile' : Tile Text}
    (h : tile.withoutRows start till = some tile') :
    ¬((start : ℤ) ≤ tile.rowFrom ∧ tile.rowTill ≤ till) ∧ tile.cutRows start till = tile' := by
  rw [Tile.withoutRows] at h
  split_ifs at h with hin
  exact ⟨hin, Option.some.inj h⟩

theorem withoutRows_eq_some {tile : Tile Text}
    (h : ¬((start : ℤ) ≤ tile.rowFrom ∧ tile.rowTill ≤ till)) :
    tile.withoutRows start till = some (tile.cutRows start till) := if_neg h

/-! ## The grid that is left -/

/-- The tiles that are left lie where the grid was. -/
theorem bounds_withoutRows (hlt : start < till) (tile : Tile Text)
    (hmem : tile ∈ (layout tableRows (buildTableGridWithin tableRows limits)).filterMap
      (Tile.withoutRows start till)) :
    (0 ≤ tile.rowFrom ∧ tile.rowFrom ≤ tile.rowTill
        ∧ tile.rowTill ≤ limitedRowCount tableRows limits)
      ∧ (0 ≤ tile.columnFrom ∧ tile.columnFrom ≤ tile.columnTill
        ∧ tile.columnTill ≤ (buildTableGridWithin tableRows limits).columnCount)
      ∧ tile.columnTill ≤ limits.maxColumns := by
  obtain ⟨tile', hmem', hsome⟩ := List.mem_filterMap.1 hmem
  obtain ⟨-, rfl⟩ := eq_cutRows_of_withoutRows hsome
  have hbounds := layout_bounds hmem'
  dsimp only [Tile.cutRows, cutLine]
  split_ifs <;> omega

section Whole

variable (hwhole : (buildTableGridWithin tableRows limits).Whole tableRows)

include hwhole

/-- A row is left, and its last slot is that of a tile that is. -/
theorem exists_lastColumn (hlt : start < till)
    (hleft : (till : ℤ) - start < limitedRowCount tableRows limits)
    (hcolumns : 0 < (buildTableGridWithin tableRows limits).columnCount) :
    ∃ tile ∈ layout tableRows (buildTableGridWithin tableRows limits),
      ¬((start : ℤ) ≤ tile.rowFrom ∧ tile.rowTill ≤ till)
        ∧ tile.columnTill = (buildTableGridWithin tableRows limits).columnCount := by
  obtain ⟨row, hrow0, hrowLt, hkept⟩ : ∃ row : ℤ, 0 ≤ row
      ∧ row < limitedRowCount tableRows limits ∧ ¬((start : ℤ) ≤ row ∧ row < till) := by
    by_cases h0 : 0 < start
    · exact ⟨0, by omega⟩
    · exact ⟨till, by omega⟩
  obtain ⟨tile, hmem, hslot⟩ := hwhole.covered (row, _ - 1)
    (Finset.mem_product.2 ⟨Finset.mem_Ico.2 ⟨hrow0, hrowLt⟩,
      Finset.mem_Ico.2 ⟨Int.sub_nonneg_of_le hcolumns, Int.sub_one_lt_of_le le_rfl⟩⟩)
  have hbounds := layout_bounds hmem
  rw [Tile.mem_slots] at hslot
  dsimp only at hslot
  exact ⟨tile, hmem, by omega, by omega⟩

/-- The tiles that are left are clear of each other. -/
theorem allClear_withoutRows (hlt : start < till) :
    AllClear ∅ ((layout tableRows (buildTableGridWithin tableRows limits)).filterMap
      (Tile.withoutRows start till)) := by
  refine hwhole.clear_held.1.filterMap (rowLift start till)
    (fun tile _ tile' hsome slot hslot => ?_) fun slot hslot => absurd hslot (Finset.notMem_empty _)
  obtain ⟨-, rfl⟩ := eq_cutRows_of_withoutRows hsome
  exact (mem_cutRows_iff hlt.le).1 hslot

/-- The tiles that are left are held in place, if no cell sticks out of the range below. -/
theorem allHeld_withoutRows (hlt : start < till)
    (hbelow : ∀ tile ∈ layout tableRows (buildTableGridWithin tableRows limits),
      start ≤ tile.rowFrom → tile.rowFrom < till → tile.rowTill ≤ till) :
    AllHeld ∅ ((layout tableRows (buildTableGridWithin tableRows limits)).filterMap
      (Tile.withoutRows start till)) := by
  refine hwhole.clear_held.2.filterMap (rowLift start till)
    (fun tile _ slot hslot => ?_) (fun tile hmem tile' hsome => ?_)
    fun slot hslot => absurd hslot (Finset.notMem_empty _)
  · refine ⟨_, withoutRows_eq_some ?_, (mem_cutRows_iff hlt.le).2 hslot⟩
    rw [Tile.mem_slots, rowLift] at hslot
    dsimp only at hslot
    split_ifs at hslot <;> omega
  · obtain ⟨hkept, rfl⟩ := eq_cutRows_of_withoutRows hsome
    have hfrom := hbelow tile hmem
    refine ⟨rfl, rfl, fun y => Prod.ext ?_ rfl⟩
    dsimp only [rowLift, Tile.cutRows, cutLine]
    split_ifs <;> omega

/-- **The grid that is left by rows that are cut cleanly.** -/
theorem withoutRows_of_cutsRowsCleanly (hlt : start < till)
    (htill : (till : ℤ) ≤ limitedRowCount tableRows limits)
    (hleft : (till : ℤ) - start < limitedRowCount tableRows limits)
    (hcolumns : 0 < (buildTableGridWithin tableRows limits).columnCount)
    (hclean : CutsRowsCleanly limits tableRows start till) :
    WithoutRows limits tableRows (eraseRows tableRows start till) start till := by
  have hcount := limitedRowCount_eq hclean.limited
  have hlength := length_eraseRows hlt.le (by omega : till ≤ tableRows.length)
  have hcount' : limitedRowCount (eraseRows tableRows start till) limits =
      limitedRowCount tableRows limits - (till - start) := by
    have hlimited := hclean.limited
    rw [limitedRowCount_eq (by omega), hcount]
    omega
  have hrows : ∀ step ∈ steps (eraseRows tableRows start till), (step.rowIndex : ℤ) <
      limitedRowCount (eraseRows tableRows start till) limits := fun step hmem => by
    have hstep := rowIndex_lt_of_mem_steps hmem
    omega
  have hfilter : (tiled tableRows limits).filter (keptTile start till) =
      (tiled tableRows limits).filter (keptRow start till) :=
    List.filter_congr fun placed hmem => keptTile_eq_keptRow (unclamped_of_mem_tiled hwhole hmem)
      (hclean.below _ (snd_mem_layout hwhole hmem))
  have hshape : List.Forall₂ (fun (step : CellStep Text) tile =>
      Shaped (limitedRowCount (eraseRows tableRows start till) limits) step.rowIndex step.cell tile)
      (steps (eraseRows tableRows start till))
      ((layout tableRows (buildTableGridWithin tableRows limits)).filterMap
        (Tile.withoutRows start till)) := by
    rw [tiles_left hwhole, hfilter]
    refine (forall₂_steps_iff (R := fun entry tile => Shaped _ entry.1 entry.2 tile)
      (entriesFrom_left hwhole hlt.le (by omega))).2 fun placed hmem => ?_
    obtain ⟨hmem, hkept⟩ := List.mem_filter.1 hmem
    have htile := snd_mem_layout hwhole hmem
    rw [hcount']
    exact shaped_left (unclamped_of_mem_tiled hwhole hmem) hkept hlt htill
      (layout_bounds htile).1.2.2 (hclean.above _ htile)
  have hbounds := @bounds_withoutRows _ tableRows limits _ _ hlt
  have hclears := allClear_withoutRows hwhole hlt
  obtain ⟨last, hlast, hlastKept, hlastColumn⟩ := exists_lastColumn hwhole hlt hleft hcolumns
  have hcells : (buildTableGridWithin tableRows limits).cells ≠ [] := by
    obtain ⟨ref, href, -⟩ := mem_layout hlast
    exact List.ne_nil_of_mem href
  have hareas := (hclears.sum_area_le limitedRowCount_nonneg hcolumns.le
    (fun tile hmem => (hbounds tile hmem).1) fun tile hmem => (hbounds tile hmem).2.1).trans
    (hwhole.card_le hcells)
  have hlayout := (layout_eq_iff hrows hshape (fun tile hmem =>
    ⟨(hbounds tile hmem).2.1.1, (hbounds tile hmem).2.2⟩) hareas).2
    ⟨hclears, allHeld_withoutRows hwhole hlt hclean.below⟩
  refine ⟨hcount', columnCount_eq hrows hcolumns.le ?_ ?_, hlayout⟩
  · rw [hlayout]
    exact fun tile hmem => (hbounds tile hmem).2.1.2.2
  · rw [hlayout]
    exact ⟨last.cutRows start till,
      List.mem_filterMap.2 ⟨last, hlast, withoutRows_eq_some hlastKept⟩, hlastColumn⟩

/-- **Rows that are taken out of the grid, and no more, are cut cleanly.** -/
theorem cutsRowsCleanly_of_withoutRows (hlt : start < till)
    (htill : (till : ℤ) ≤ limitedRowCount tableRows limits)
    (h : WithoutRows limits tableRows (eraseRows tableRows start till) start till) :
    CutsRowsCleanly limits tableRows start till := by
  have hcount := h.rowCount
  rw [rowCount_within, rowCount_within] at hcount
  have htillLength : till ≤ tableRows.length := by
    unfold limitedRowCount at htill
    split_ifs at htill <;> omega
  have hlength := length_eraseRows hlt.le htillLength
  have hlimited : (tableRows.length : ℤ) ≤ limits.maxRows := by
    unfold limitedRowCount at hcount htill
    split_ifs at hcount htill <;> omega
  have hrows : ∀ step ∈ steps (eraseRows tableRows start till), (step.rowIndex : ℤ) <
      limitedRowCount (eraseRows tableRows start till) limits := fun step hmem => by
    have hstep := rowIndex_lt_of_mem_steps hmem
    rw [limitedRowCount_eq (by omega)]
    omega
  have hentries := entriesFrom_left hwhole hlt.le htillLength
  have hlayout := h.layout.trans (tiles_left hwhole)
  have hsteps : (steps (eraseRows tableRows start till)).length =
      ((tiled tableRows limits).filter (keptRow start till)).length := by
    rw [← List.length_map (f := entryLeft start till), ← hentries, ← map_entry_steps,
      List.length_map]
  have hsame : (tiled tableRows limits).filter (keptRow start till) =
      (tiled tableRows limits).filter (keptTile start till) := by
    have hle := length_layout_le hrows
    have hfilter : (tiled tableRows limits).filter (keptRow start till) =
        ((tiled tableRows limits).filter (keptTile start till)).filter (keptRow start till) := by
      rw [List.filter_filter]
      refine List.filter_congr fun placed hmem => ?_
      cases hrow : keptRow start till placed with
      | false => rfl
      | true =>
        rw [keptTile_of_keptRow (unclamped_of_mem_tiled hwhole hmem) hrow]
        rfl
    rw [hlayout, List.length_map, hsteps, hfilter] at hle
    exact hfilter.trans (List.filter_sublist.eq_of_length_le hle)
  rw [← hsame] at hlayout
  have htiled : ∀ tile ∈ layout tableRows (buildTableGridWithin tableRows limits),
      ∃ placed ∈ tiled tableRows limits, placed.2 = tile := fun tile hmem => by
    rw [← map_snd_tiled hwhole] at hmem
    exact List.mem_map.1 hmem
  refine ⟨hlimited, fun tile hmem hfrom hbefore => ?_, fun tile hmem hfrom hreach => ?_⟩
  · obtain ⟨placed, hplaced, rfl⟩ := htiled tile hmem
    have hrowFrom := (unclamped_of_mem_tiled hwhole hplaced).rowFrom
    by_contra hbelow
    have htile : keptTile start till placed := by
      rw [keptTile, Bool.not_eq_true', decide_eq_false_iff_not]
      omega
    have hleft : placed ∈ (tiled tableRows limits).filter (keptRow start till) :=
      hsame ▸ List.mem_filter.2 ⟨hplaced, htile⟩
    have hrow := (List.mem_filter.1 hleft).2
    rw [keptRow, Bool.or_eq_true, decide_eq_true_eq, decide_eq_true_eq] at hrow
    omega
  · obtain ⟨placed, hplaced, rfl⟩ := htiled tile hmem
    have hunclamped := unclamped_of_mem_tiled hwhole hplaced
    have hrowFrom := hunclamped.rowFrom
    have hrow : keptRow start till placed := by
      rw [keptRow, Bool.or_eq_true, decide_eq_true_eq]
      omega
    have hreaches := rowTill_of_layout hrows (by rw [hlayout, List.length_map, hsteps])
    rw [hlayout] at hreaches
    have hplacedReach := (forall₂_steps_iff (R := fun entry tile => tile.rowTill =
      entry.1 + clampTableRowspan entry.2.rowspan entry.1
        (limitedRowCount (eraseRows tableRows start till) limits)) hentries).1 hreaches placed
      (List.mem_filter.2 ⟨hplaced, hrow⟩)
    rw [hcount] at hplacedReach
    exact (rowTill_left_iff hunclamped hrow hlt htill (layout_bounds hmem).1.2.2).1 hplacedReach
      hfrom hreach

end Whole

end Yunogram.Iv.Editor
