import Yunogram.Iv.PageTablePlacing

/-!
# Iv/PageTableRuns — the loops over a table, and the grids they end with

The double loop is one run over the cells of the table in their order, and what is placed later does
not change what came before.  Hence first fit can be read off the grid (`TableGrid.FirstFit`).
-/

open Machinery

namespace Yunogram.Iv.Editor

variable {Text : Type} {tableRows : List (TableRow Text)} {building : Building}
  {rowCount maxColumns : ℤ} {admits : ℤ → ℤ → Bool} {slots : Finset (ℤ × ℤ)}

/-! ## The cells in their order -/

/-- A step of the double loop. -/
structure CellStep (Text : Type) where
  rowIndex : ℕ
  cellIndex : ℕ
  cell : TableCell Text

/-- The steps of the double loop. -/
def steps (tableRows : List (TableRow Text)) : List (CellStep Text) :=
  tableRows.zipIdx.flatMap fun (row, rowIndex) =>
    row.cells.zipIdx.map fun (cell, cellIndex) => ⟨rowIndex, cellIndex, cell⟩

/-- A cell comes before another one, by their rows and places. -/
def Before (rowIndex cellIndex rowIndex' cellIndex' : ℤ) : Prop :=
  rowIndex < rowIndex' ∨ rowIndex = rowIndex' ∧ cellIndex < cellIndex'

instance (a b c d : ℤ) : Decidable (Before a b c d) :=
  inferInstanceAs (Decidable (a < c ∨ a = c ∧ b < d))

theorem mem_steps {step : CellStep Text} : step ∈ steps tableRows
    ↔ ∃ row, tableRows[step.rowIndex]? = some row
      ∧ row.cells[step.cellIndex]? = some step.cell := by
  simp only [steps, List.mem_flatMap, List.mem_map, Prod.exists, List.mem_zipIdx_iff_getElem?]
  constructor
  · rintro ⟨row, rowIndex, hrow, cell, cellIndex, hcell, rfl⟩
    exact ⟨row, hrow, hcell⟩
  · rintro ⟨row, hrow, hcell⟩
    exact ⟨row, step.rowIndex, hrow, step.cell, step.cellIndex, hcell, rfl⟩

theorem pairwise_zipIdx {α : Type} (l : List α) : l.zipIdx.Pairwise fun a b => a.2 < b.2 := by
  have hindices : (l.zipIdx.map Prod.snd).Pairwise (· < ·) := by
    rw [List.zipIdx_map_snd]
    exact List.pairwise_lt_range'
  exact List.pairwise_map.1 hindices

/-- The steps are in the order of their cells. -/
theorem pairwise_steps (tableRows : List (TableRow Text)) : (steps tableRows).Pairwise fun a b =>
    Before a.rowIndex a.cellIndex b.rowIndex b.cellIndex := by
  rw [steps, List.pairwise_flatMap]
  constructor
  · rintro ⟨row, rowIndex⟩ -
    refine List.pairwise_map.2 ((pairwise_zipIdx row.cells).imp fun h => .inr ⟨rfl, ?_⟩)
    exact Int.ofNat_lt.2 h
  · refine (pairwise_zipIdx tableRows).imp fun h a ha b hb => .inl ?_
    obtain ⟨-, -, rfl⟩ := List.mem_map.1 ha
    obtain ⟨-, -, rfl⟩ := List.mem_map.1 hb
    exact Int.ofNat_lt.2 h

/-! ## Runs -/

/-- A step of the double loop is taken. -/
def place (rowCount maxColumns : ℤ) (admits : ℤ → ℤ → Bool) (building : Building)
    (step : CellStep Text) : Building :=
  placeCell rowCount maxColumns admits building step.rowIndex step.cellIndex step.cell

/-- What the loops start from. -/
def Building.start (rowCount : ℤ) : Building where
  cells := []
  occupancy := List.replicate rowCount.toNat []
  occupiedSlotCountSoFar := 0

/-- The double loop is one run over the cells. -/
theorem placeRows_eq (rowCount maxColumns : ℤ) (admits : ℤ → ℤ → Bool)
    (tableRows : List (TableRow Text)) : placeRows rowCount maxColumns admits tableRows =
      (steps (tableRows.take rowCount.toNat)).foldl (place rowCount maxColumns admits)
        (.start rowCount) := by
  rw [steps, List.foldl_flatMap]
  simp only [List.foldl_map]
  rfl

/-- A step adds nothing, or its cell. -/
theorem place_cells (hlength : (building.occupancy.length : ℤ) = rowCount)
    (hmax : maxColumns ≤ intMax) (admits : ℤ → ℤ → Bool) {step : CellStep Text}
    (hrow : (step.rowIndex : ℤ) < rowCount) :
    (place rowCount maxColumns admits building step).cells = building.cells
      ∨ ∃ column, (place rowCount maxColumns admits building step).cells = building.cells
        ++ [refAt rowCount maxColumns step.rowIndex step.cellIndex step.cell column] := by
  rcases placeCell_cases hlength hrow hmax admits step.cellIndex step.cell with
    ⟨column, -, heq⟩ | ⟨-, heq⟩
  · rw [place, heq]
    split_ifs
    · exact .inr ⟨column, rfl⟩
    · exact .inl rfl
  · rw [place, heq]
    exact .inl rfl

/-- **Every run keeps the invariant.** -/
theorem Building.Sound.run (h : building.Sound rowCount maxColumns) (hmax : maxColumns ≤ intMax)
    (admits : ℤ → ℤ → Bool) {list : List (CellStep Text)}
    (hrows : ∀ step ∈ list, (step.rowIndex : ℤ) < rowCount) :
    (list.foldl (place rowCount maxColumns admits) building).Sound rowCount maxColumns :=
  List.foldlRecOn list _ h fun _ hbuilding step hmem =>
    hbuilding.step hmax (hrows step hmem) admits step.cellIndex step.cell

/-- A run in the order of the cells adds cells of its steps at the end, in their order. -/
theorem Building.Sound.run_cells (h : building.Sound rowCount maxColumns)
    (hmax : maxColumns ≤ intMax) (admits : ℤ → ℤ → Bool) {list : List (CellStep Text)}
    (hrows : ∀ step ∈ list, (step.rowIndex : ℤ) < rowCount)
    (horder : list.Pairwise fun a b => Before a.rowIndex a.cellIndex b.rowIndex b.cellIndex) :
    ∃ later, (list.foldl (place rowCount maxColumns admits) building).cells =
        building.cells ++ later
      ∧ (∀ ref ∈ later, ∃ step ∈ list, ref.rowIndex = step.rowIndex
        ∧ ref.cellIndex = step.cellIndex)
      ∧ later.Pairwise fun a b => Before a.rowIndex a.cellIndex b.rowIndex b.cellIndex := by
  induction list generalizing building with
  | nil =>
    exact ⟨[], (List.append_nil _).symm, fun ref hmem => absurd hmem List.not_mem_nil, .nil⟩
  | cons step list ih =>
    obtain ⟨hstep, hlist⟩ := List.forall_mem_cons.1 hrows
    obtain ⟨hfirst, hrest⟩ := List.pairwise_cons.1 horder
    obtain ⟨later, hlater, hof, hsorted⟩ :=
      ih (h.step hmax hstep admits step.cellIndex step.cell) hlist hrest
    have hofLater : ∀ ref ∈ later, ∃ step' ∈ step :: list, ref.rowIndex = step'.rowIndex
        ∧ ref.cellIndex = step'.cellIndex := fun ref hmem => by
      obtain ⟨step', hmem', hindex⟩ := hof ref hmem
      exact ⟨step', List.mem_cons_of_mem step hmem', hindex⟩
    rw [List.foldl_cons]
    rcases place_cells h.length hmax admits hstep with hcells | ⟨column, hcells⟩
    · exact ⟨later, by rw [← hcells]; exact hlater, hofLater, hsorted⟩
    · refine ⟨refAt rowCount maxColumns step.rowIndex step.cellIndex step.cell column :: later,
        ?_, ?_, List.pairwise_cons.2 ⟨fun ref hmem => ?_, hsorted⟩⟩
      · rw [List.append_cons, ← hcells]
        exact hlater
      · rintro ref (_ | ⟨_, hmem⟩)
        · exact ⟨step, List.mem_cons_self .., rfl, rfl⟩
        · exact hofLater ref hmem
      · obtain ⟨step', hmem', hrow, hcell⟩ := hof ref hmem
        rw [hrow, hcell]
        exact hfirst step' hmem'

/-- **What is placed before a cell and after it**: the cells of the final state are those of the
state at its step, what the step adds, and cells that come after. -/
theorem Building.Sound.split (h : (Building.start rowCount).Sound rowCount maxColumns)
    (hmax : maxColumns ≤ intMax) (admits : ℤ → ℤ → Bool)
    (hrows : ∀ step ∈ steps tableRows, (step.rowIndex : ℤ) < rowCount) {step : CellStep Text}
    {earlier after : List (CellStep Text)} (hsplit : steps tableRows = earlier ++ step :: after) :
    let at_ := earlier.foldl (place rowCount maxColumns admits) (.start rowCount)
    ∃ later, ((steps tableRows).foldl (place rowCount maxColumns admits) (.start rowCount)).cells =
        (place rowCount maxColumns admits at_ step).cells ++ later
      ∧ (∀ ref ∈ at_.cells, Before ref.rowIndex ref.cellIndex step.rowIndex step.cellIndex)
      ∧ ∀ ref ∈ later, Before step.rowIndex step.cellIndex ref.rowIndex ref.cellIndex := by
  intro at_
  have horder := pairwise_steps tableRows
  rw [hsplit] at horder hrows
  obtain ⟨hsorted, hafter, hearlier⟩ := List.pairwise_append.1 horder
  have hat : at_.Sound rowCount maxColumns := h.run hmax admits fun step' hmem =>
    hrows step' (List.mem_append_left _ hmem)
  have hstep := hrows step (List.mem_append_right _ (List.mem_cons_self ..))
  obtain ⟨first, hfirst, hofFirst, -⟩ := h.run_cells hmax admits (fun step' hmem =>
    hrows step' (List.mem_append_left (step :: after) hmem)) hsorted
  obtain ⟨later, hlater, hofLater, -⟩ :=
    (hat.step hmax hstep admits step.cellIndex step.cell).run_cells hmax admits (fun step' hmem =>
      hrows step' (List.mem_append_right earlier (List.mem_cons_of_mem step hmem)))
      (List.pairwise_cons.1 hafter).2
  refine ⟨later, ?_, fun ref hmem => ?_, fun ref hmem => ?_⟩
  · rw [hsplit, List.foldl_append, List.foldl_cons]
    exact hlater
  · have hmemFirst : ref ∈ first := by
      rw [show at_.cells = _ from hfirst] at hmem
      exact hmem
    obtain ⟨step', hmem', hrow, hcell⟩ := hofFirst ref hmemFirst
    rw [hrow, hcell]
    exact hearlier step' hmem' step (List.mem_cons_self ..)
  · obtain ⟨step', hmem', hrow, hcell⟩ := hofLater ref hmem
    rw [hrow, hcell]
    exact (List.pairwise_cons.1 hafter).1 step' hmem'

end Yunogram.Iv.Editor
