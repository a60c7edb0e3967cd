import Mathlib
import Yunogram.Iv.PageTableRuns

/-!
# Iv/PageTableFirstFit — the grid of a table

The grid without limits is sound and laid out by first fit.  From first fit alone follows that a row
into which no span from above reaches has all its cells, side by side and as wide as they are.
-/

open Machinery

namespace Yunogram.Iv.Editor

variable {Text : Type} {tableRows : List (TableRow Text)} {building : Building}
  {grid : TableGrid} {rowCount maxColumns : ℤ} {admits : ℤ → ℤ → Bool} {rowIndex cellIndex : ℕ}
  {row : TableRow Text} {cell : TableCell Text}

/-! ## Columns -/

/-- The width of a row, were none of its cells moved or cut off. -/
def spanSum (cells : List (TableCell Text)) : ℤ :=
  (cells.map fun cell => normalizeTableSpan cell.colspan).sum

theorem length_le_spanSum (cells : List (TableCell Text)) : (cells.length : ℤ) ≤ spanSum cells := by
  induction cells with
  | nil => exact le_rfl
  | cons cell cells ih =>
    have hspan := one_le_normalizeTableSpan cell.colspan
    rw [spanSum, List.map_cons, List.sum_cons, ← spanSum, List.length_cons, Nat.cast_succ]
    omega

theorem spanSum_append (cells cells' : List (TableCell Text)) :
    spanSum (cells ++ cells') = spanSum cells + spanSum cells' := by
  rw [spanSum, List.map_append, List.sum_append]
  rfl

theorem spanSum_nonneg (cells : List (TableCell Text)) : 0 ≤ spanSum cells :=
  (Int.natCast_nonneg _).trans (length_le_spanSum cells)

/-- The sum of the spans of a row is that of the loop, if it stays in its range. -/
theorem rowColumns_eq (h : spanSum row.cells < 2 ^ 31) : rowColumns row = spanSum row.cells := by
  have hrun : ∀ (cells : List (TableCell Text)) (columns : ℤ), 0 ≤ columns →
      columns + spanSum cells < 2 ^ 31 →
      cells.foldl (fun columns cell => addInt columns (normalizeTableSpan cell.colspan)) columns =
        columns + spanSum cells := by
    intro cells
    induction cells with
    | nil => exact fun columns _ _ => (add_zero columns).symm
    | cons cell cells ih =>
      intro columns h0 hlt
      have hspan := one_le_normalizeTableSpan cell.colspan
      have hrest := spanSum_nonneg cells
      rw [spanSum, List.map_cons, List.sum_cons, ← spanSum] at hlt ⊢
      have hadd : addInt columns (normalizeTableSpan cell.colspan) =
          columns + normalizeTableSpan cell.colspan :=
        Int.bmod_eq_of_le (by omega) (by omega)
      rw [List.foldl_cons, hadd, ih _ (by omega) (by omega)]
      omega
  rw [rowColumns, hrun row.cells 0 le_rfl (by omega), zero_add]

theorem foldl_max_le_iff {α : Type} (f : α → ℤ) (list : List α) (first bound : ℤ) :
    list.foldl (fun result a => max result (f a)) first ≤ bound
      ↔ first ≤ bound ∧ ∀ a ∈ list, f a ≤ bound := by
  induction list generalizing first with
  | nil => simp
  | cons a list ih => rw [List.foldl_cons, ih, max_le_iff, List.forall_mem_cons, and_assoc]

theorem rowColumns_le_tableMaxColumns (h : row ∈ tableRows) :
    rowColumns row ≤ tableMaxColumns tableRows :=
  ((foldl_max_le_iff rowColumns tableRows 0 _).1 le_rfl).2 row h

theorem length_le_tableGridColumnCount {occupancy : TableGridOccupancy} {n : ℕ} :
    ((occupancy.getD n []).length : ℤ) ≤ tableGridColumnCount occupancy := by
  obtain ⟨hzero, hrows⟩ := (foldl_max_le_iff (fun row : List Bool => (row.length : ℤ)) occupancy 0
    (tableGridColumnCount occupancy)).1 le_rfl
  rw [List.getD_eq_getElem?_getD]
  by_cases hn : n < occupancy.length
  · rw [List.getElem?_eq_getElem hn]
    exact hrows _ (List.getElem_mem hn)
  · rw [List.getElem?_eq_none (not_lt.1 hn)]
    exact hzero

/-! ## Sound grids -/

/-- **A sound grid**: its cells are cells of the table, in their order and each at most once, that
start in their row, lie inside of the grid and do not meet, and the slots that are taken are
theirs. -/
structure TableGrid.Sound (tableRows : List (TableRow Text)) (grid : TableGrid) : Prop where
  ofTable : ∀ ref ∈ grid.cells, ∃ step ∈ steps tableRows,
    ref.rowIndex = step.rowIndex ∧ ref.cellIndex = step.cellIndex
  ordered : grid.cells.Pairwise fun a b => Before a.rowIndex a.cellIndex b.rowIndex b.cellIndex
  startsInRow : ∀ ref ∈ grid.cells, ref.rowFrom = ref.rowIndex
  rows : ∀ ref ∈ grid.cells,
    0 ≤ ref.rowFrom ∧ ref.rowFrom < ref.rowTill ∧ ref.rowTill ≤ grid.rowCount
  columns : ∀ ref ∈ grid.cells,
    0 ≤ ref.columnFrom ∧ ref.columnFrom < ref.columnTill ∧ ref.columnTill ≤ grid.columnCount
  disjoint : grid.cells.Pairwise fun a b => Disjoint a.slots b.slots
  taken : ∀ slot, Taken grid.occupancy slot ↔ ∃ ref ∈ grid.cells, slot ∈ ref.slots

/-- The invariant of the loops gives a sound grid. -/
theorem Building.Sound.toGrid (h : building.Sound rowCount maxColumns)
    (hcells : ∀ ref ∈ building.cells, ∃ step ∈ steps tableRows,
      ref.rowIndex = step.rowIndex ∧ ref.cellIndex = step.cellIndex)
    (hordered : building.cells.Pairwise fun a b =>
      Before a.rowIndex a.cellIndex b.rowIndex b.cellIndex) :
    (building.grid rowCount).Sound tableRows where
  ofTable := hcells
  ordered := hordered
  startsInRow := h.startsInRow
  rows := h.rows
  columns := fun ref hmem => by
    obtain ⟨h0, hlt, -⟩ := h.columns ref hmem
    exact ⟨h0, hlt, (h.wide ref hmem).trans length_le_tableGridColumnCount⟩
  disjoint := List.pairwise_map.1 h.disjoint
  taken := fun slot => by
    refine (h.taken slot).trans (mem_covered.trans ?_)
    simp only [List.mem_map, exists_exists_and_eq_and]
    rfl

/-! ## First fit -/

/-- The cells of a grid that come before one. -/
def TableGrid.cellsBefore (grid : TableGrid) (rowIndex cellIndex : ℕ) :
    List TableGridCellReference :=
  grid.cells.filter fun ref => Before ref.rowIndex ref.cellIndex rowIndex cellIndex

/-- A cell fits from a column: its clamped rectangle meets no cell before it. -/
def TableGrid.Fits (grid : TableGrid) (maxColumns : ℤ) (rowIndex cellIndex : ℕ)
    (cell : TableCell Text) (column : ℤ) : Prop :=
  ∀ ref ∈ grid.cellsBefore rowIndex cellIndex,
    Disjoint ref.slots (refAt grid.rowCount maxColumns rowIndex cellIndex cell column).slots

/-- **First fit**: a cell is placed from the first column that it fits from, or left out where it
fits from none. -/
def TableGrid.FirstFit (tableRows : List (TableRow Text)) (maxColumns : ℤ) (grid : TableGrid) :
    Prop :=
  ∀ step ∈ steps tableRows,
    (∃ column,
      IsFirst (grid.Fits maxColumns step.rowIndex step.cellIndex step.cell) maxColumns column
        ∧ refAt grid.rowCount maxColumns step.rowIndex step.cellIndex step.cell column ∈ grid.cells)
    ∨ (∀ column, 0 ≤ column → column < maxColumns →
        ¬grid.Fits maxColumns step.rowIndex step.cellIndex step.cell column)
      ∧ ∀ ref ∈ grid.cells, ¬(ref.rowIndex = step.rowIndex ∧ ref.cellIndex = step.cellIndex)

/-- Free slots are those that no cell has. -/
theorem Building.Sound.free_iff (h : building.Sound rowCount maxColumns)
    {slots : Finset (ℤ × ℤ)} :
    Free building.occupancy slots ↔ ∀ ref ∈ building.cells, Disjoint ref.slots slots := by
  constructor
  · intro hfree ref hmem
    rw [Finset.disjoint_left]
    intro slot hslot hin
    exact hfree slot hin ((h.taken slot).2
      (mem_covered.2 ⟨ref.slots, List.mem_map_of_mem hmem, hslot⟩))
  · intro hdisjoint slot hin htaken
    obtain ⟨_, hmem, hslot⟩ := mem_covered.1 ((h.taken slot).1 htaken)
    obtain ⟨ref, href, rfl⟩ := List.mem_map.1 hmem
    exact Finset.disjoint_left.1 (hdisjoint ref href) hslot hin

theorem Before.asymm {a b c d : ℤ} (h : Before a b c d) : ¬Before c d a b := by
  unfold Before at h ⊢
  omega

theorem not_before_self (a b : ℤ) : ¬Before a b a b := by
  unfold Before
  omega

/-- The cells before one are a first part of the cells. -/
theorem cellsBefore_eq {first rest : List TableGridCellReference}
    (hcells : grid.cells = first ++ rest)
    (hfirst : ∀ ref ∈ first, Before ref.rowIndex ref.cellIndex rowIndex cellIndex)
    (hrest : ∀ ref ∈ rest, ¬Before ref.rowIndex ref.cellIndex rowIndex cellIndex) :
    grid.cellsBefore rowIndex cellIndex = first := by
  rw [TableGrid.cellsBefore, hcells, List.filter_append, List.filter_eq_self.2,
    List.filter_eq_nil_iff.2, List.append_nil]
  · exact fun ref hmem => by simpa using hrest ref hmem
  · exact fun ref hmem => by simpa using hfirst ref hmem

/-- The rows of the steps are rows of the table. -/
theorem rowIndex_lt_of_mem_steps {step : CellStep Text} (hmem : step ∈ steps tableRows) :
    step.rowIndex < tableRows.length := by
  obtain ⟨row, hrow, -⟩ := mem_steps.1 hmem
  exact (List.getElem?_eq_some_iff.1 hrow).1

/-- **A run without limits is a first fit**, and sound. -/
theorem run_firstFit (hrowCount : (tableRows.length : ℤ) = rowCount) (hmax : maxColumns ≤ intMax) :
    let grid := ((steps tableRows).foldl (place rowCount maxColumns fun _ _ => true)
      (.start rowCount)).grid rowCount
    grid.Sound tableRows ∧ grid.FirstFit tableRows maxColumns := by
  intro grid
  have hrows : ∀ step ∈ steps tableRows, (step.rowIndex : ℤ) < rowCount := fun step hmem => by
    have hlt := rowIndex_lt_of_mem_steps hmem
    omega
  have hstart : (Building.start rowCount).Sound rowCount maxColumns :=
    sound_start (by omega) maxColumns
  have hsound := hstart.run hmax (fun _ _ => true) hrows
  have hordered := pairwise_steps tableRows
  obtain ⟨later, hlater, hof, hsorted⟩ := hstart.run_cells hmax (fun _ _ => true) hrows hordered
  rw [show (Building.start rowCount).cells = [] from rfl, List.nil_append] at hlater
  refine ⟨hsound.toGrid (hlater ▸ hof) (hlater ▸ hsorted), fun step hmem => ?_⟩
  obtain ⟨earlier, after, hsplit⟩ := List.append_of_mem hmem
  obtain ⟨later, hcells, hbefore, hafter⟩ := hstart.split hmax (fun _ _ => true) hrows hsplit
  have hat : (earlier.foldl (place rowCount maxColumns fun _ _ => true)
      (.start rowCount)).Sound rowCount maxColumns :=
    hstart.run hmax _ fun step' hmem' => hrows step' (by
      rw [hsplit]
      exact List.mem_append_left _ hmem')
  have hfits : ∀ rest : List TableGridCellReference, grid.cells = (earlier.foldl
      (place rowCount maxColumns fun _ _ => true) (.start rowCount)).cells ++ rest →
      (∀ ref ∈ rest, ¬Before ref.rowIndex ref.cellIndex step.rowIndex step.cellIndex) →
      grid.Fits maxColumns step.rowIndex step.cellIndex step.cell = fun column =>
        Free (earlier.foldl (place rowCount maxColumns fun _ _ => true)
          (.start rowCount)).occupancy
          (refAt rowCount maxColumns step.rowIndex step.cellIndex step.cell column).slots := by
    intro rest hgrid hrest
    funext column
    rw [TableGrid.Fits, cellsBefore_eq hgrid hbefore hrest]
    exact propext hat.free_iff.symm
  have hnotBefore : ∀ ref ∈ later,
      ¬Before ref.rowIndex ref.cellIndex step.rowIndex step.cellIndex :=
    fun ref hmem => (hafter ref hmem).asymm
  rcases placeCell_cases hat.length (hrows step hmem) hmax (fun _ _ => true) step.cellIndex
    step.cell with ⟨column, hfirst, heq⟩ | ⟨hnone, heq⟩
  · left
    rw [place, heq, if_pos rfl, Building.add, List.append_assoc] at hcells
    have hgrid : grid.cells = _ := hcells
    refine ⟨column, ?_, ?_⟩
    · rw [hfits _ hgrid (List.forall_mem_cons.2 ⟨not_before_self _ _, hnotBefore⟩)]
      exact hfirst
    · rw [hgrid]
      exact List.mem_append_right _ (List.mem_cons_self ..)
  · right
    rw [place, heq] at hcells
    have hgrid : grid.cells = _ := hcells
    refine ⟨?_, fun ref hmem' hindex => ?_⟩
    · rw [hfits _ hgrid hnotBefore]
      exact hnone
    · have hself := not_before_self ref.rowIndex ref.cellIndex
      rw [hgrid, List.mem_append] at hmem'
      rcases hmem' with hold | hnew
      · have hold' := hbefore ref hold
        rw [← hindex.1, ← hindex.2] at hold'
        exact hself hold'
      · have hnew' := hafter ref hnew
        rw [← hindex.1, ← hindex.2] at hnew'
        exact hself hnew'

/-! ## Rows that no span reaches -/

/-- No span from above reaches into a row. -/
def TableGrid.Unreached (grid : TableGrid) (rowIndex : ℕ) : Prop :=
  ∀ ref ∈ grid.cells, ref.rowIndex < rowIndex → ref.rowTill ≤ rowIndex

/-- A cell of a list ends where the cells up to it do. -/
theorem spanSum_take_succ {cells : List (TableCell Text)} (hcell : cells[cellIndex]? = some cell) :
    spanSum (cells.take (cellIndex + 1)) =
      spanSum (cells.take cellIndex) + normalizeTableSpan cell.colspan := by
  rw [List.take_add_one, hcell, spanSum_append]
  simp [spanSum]

theorem spanSum_take_le (cells : List (TableCell Text)) {i j : ℕ} (h : i ≤ j) :
    spanSum (cells.take i) ≤ spanSum (cells.take j) := by
  have hsplit := spanSum_append ((cells.take j).take i) ((cells.take j).drop i)
  have hrest := spanSum_nonneg ((cells.take j).drop i)
  rw [List.take_append_drop, List.take_take, min_eq_left h] at hsplit
  omega

/-- The cells side by side leave no gap. -/
theorem exists_take_le {cells : List (TableCell Text)} {column : ℤ} (h0 : 0 ≤ column)
    (hle : cellIndex ≤ cells.length) (hlt : column < spanSum (cells.take cellIndex)) :
    ∃ i < cellIndex, ∃ cell, cells[i]? = some cell ∧ spanSum (cells.take i) ≤ column
      ∧ column < spanSum (cells.take i) + normalizeTableSpan cell.colspan := by
  induction cellIndex with
  | zero => exact absurd hlt (not_lt.2 h0)
  | succ n ih =>
    have hcell : cells[n]? = some cells[n] := List.getElem?_eq_getElem (by omega)
    by_cases hn : column < spanSum (cells.take n)
    · obtain ⟨i, hi, found⟩ := ih (by omega) hn
      exact ⟨i, by omega, found⟩
    · rw [spanSum_take_succ hcell] at hlt
      exact ⟨n, by omega, cells[n], hcell, not_lt.1 hn, hlt⟩

/-- A sound grid places a cell at most once. -/
theorem TableGrid.Sound.unique (h : grid.Sound tableRows) {ref ref' : TableGridCellReference}
    (hmem : ref ∈ grid.cells) (hmem' : ref' ∈ grid.cells) (hrow : ref.rowIndex = ref'.rowIndex)
    (hcell : ref.cellIndex = ref'.cellIndex) : ref = ref' := by
  have hnodup : (grid.cells.map fun ref => (ref.rowIndex, ref.cellIndex)).Nodup := by
    refine List.pairwise_map.2 (h.ordered.imp fun {a b} hbefore heq => ?_)
    rw [(Prod.mk.inj heq).1, (Prod.mk.inj heq).2] at hbefore
    exact not_before_self _ _ hbefore
  exact List.inj_on_of_nodup_map hnodup hmem hmem' (Prod.ext hrow hcell)

/-- **A row that no span reaches has all its cells**, side by side and as wide as they are. -/
theorem TableGrid.FirstFit.unreached (hfit : grid.FirstFit tableRows maxColumns)
    (hsound : grid.Sound tableRows) (hrow : tableRows[rowIndex]? = some row)
    (hunreached : grid.Unreached rowIndex) (hwide : spanSum row.cells ≤ maxColumns)
    (hcount : (rowIndex : ℤ) < grid.rowCount) (hcell : row.cells[cellIndex]? = some cell) :
    ∃ ref ∈ grid.cells, ref.rowIndex = rowIndex ∧ ref.cellIndex = cellIndex
      ∧ ref.columnFrom = spanSum (row.cells.take cellIndex)
      ∧ ref.columnTill = ref.columnFrom + normalizeTableSpan cell.colspan := by
  induction cellIndex using Nat.strong_induction_on generalizing cell with
  | h cellIndex ih =>
  have hr0 : (0 : ℤ) ≤ rowIndex := Int.natCast_nonneg rowIndex
  have hspan := one_le_normalizeTableSpan cell.colspan
  have hstart := spanSum_nonneg (row.cells.take cellIndex)
  have hlength := (List.getElem?_eq_some_iff.1 hcell).1
  have hend : spanSum (row.cells.take cellIndex) + normalizeTableSpan cell.colspan ≤
      maxColumns := by
    have hle := spanSum_take_le row.cells (show cellIndex + 1 ≤ row.cells.length from hlength)
    rw [spanSum_take_succ hcell, List.take_length] at hle
    exact hle.trans hwide
  -- What is before in the row takes the columns up to the start, and what is above takes none.
  have hfirst : IsFirst (grid.Fits maxColumns rowIndex cellIndex cell) maxColumns
      (spanSum (row.cells.take cellIndex)) := by
    refine ⟨hstart, by omega, fun ref hmem => ?_, fun column h0 hlt hfits => ?_⟩
    · obtain ⟨hmem, hbefore⟩ := List.mem_filter.1 hmem
      rw [Finset.disjoint_left]
      rintro slot hslot hnew
      rw [mem_slots] at hslot hnew
      simp only [refAt] at hnew
      rcases of_decide_eq_true hbefore with habove | ⟨hsame, hearlier⟩
      · have htill := hunreached ref hmem habove
        omega
      · obtain ⟨step, hstep, hstepRow, hstepCell⟩ := hsound.ofTable ref hmem
        obtain ⟨row', hrow', hcell'⟩ := mem_steps.1 hstep
        obtain rfl : row = row' := by
          have hindex : step.rowIndex = rowIndex := by omega
          rw [hindex, hrow] at hrow'
          exact Option.some.inj hrow'
        obtain ⟨ref', hmem', hrow'', hcell'', hfrom, htill⟩ :=
          ih step.cellIndex (by omega) hcell'
        obtain rfl := hsound.unique hmem hmem' (by omega) (by omega)
        have hmono : spanSum (row.cells.take (step.cellIndex + 1)) ≤
            spanSum (row.cells.take cellIndex) := spanSum_take_le row.cells (by omega)
        rw [spanSum_take_succ hcell'] at hmono
        omega
    · obtain ⟨i, hi, cell', hcell', hle, hlt'⟩ := exists_take_le h0 hlength.le hlt
      obtain ⟨ref, hmem, hrow', hindex, hfrom, htill⟩ := ih i hi hcell'
      have hmemBefore : ref ∈ grid.cellsBefore rowIndex cellIndex :=
        List.mem_filter.2 ⟨hmem, decide_eq_true (.inr ⟨hrow', by omega⟩)⟩
      have hrows := hsound.rows ref hmem
      have hstarts := hsound.startsInRow ref hmem
      have hpositive := clampTableSpan_pos hr0 hcount cell.rowspan
      have hpositive' := clampTableSpan_pos h0 (show column < maxColumns by omega)
        (normalizeTableSpan cell.colspan)
      have hslot : ((rowIndex : ℤ), column) ∈ ref.slots := by
        rw [mem_slots]
        dsimp only
        omega
      refine Finset.disjoint_left.1 (hfits ref hmemBefore) hslot ?_
      rw [mem_slots]
      simp only [refAt, clampTableRowspan, clampTableColspan]
      omega
  rcases hfit ⟨rowIndex, cellIndex, cell⟩ (mem_steps.2 ⟨row, hrow, hcell⟩) with
    ⟨column, hcolumn, hmem⟩ | ⟨hnone, -⟩
  · obtain rfl := hcolumn.unique hfirst
    refine ⟨_, hmem, rfl, rfl, rfl, ?_⟩
    have hclamp := clampTableSpan_eq hstart hfirst.lt (normalizeTableSpan cell.colspan)
    rw [normalizeTableSpan_normalizeTableSpan] at hclamp
    simp only [refAt, clampTableColspan, hclamp]
    omega
  · exact absurd hfirst.fits (hnone _ hfirst.nonneg hfirst.lt)

end Yunogram.Iv.Editor
