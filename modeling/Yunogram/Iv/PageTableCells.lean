import Yunogram.Iv.PageTableEdits
import Yunogram.Machinery.Positions

/-!
# Iv/PageTableCells — cells of a table changed in their places and erased

What the loops over cells make of the steps of a table: a cell that is changed keeps its step, and
cells that are erased one by one, the last one first, are those that are missing afterwards.
-/

open Machinery

namespace Yunogram.Iv.Editor

variable {Text : Type} {tableRows : List (TableRow Text)}

/-! ## Cells changed in their places -/

/-- A cell is changed where a step is. -/
def changeAt (step : CellStep Text) (change : TableCell Text → TableCell Text)
    (other : CellStep Text) : CellStep Text :=
  if other.rowIndex = step.rowIndex ∧ other.cellIndex = step.cellIndex then
    { other with cell := change other.cell }
  else other

theorem steps_modifyCell (tableRows : List (TableRow Text)) (step : CellStep Text)
    (tile : Tile Text) (change : TableCell Text → TableCell Text) :
    steps (modifyCell tableRows (refOf step tile) change) =
      (steps tableRows).map (changeAt step change) := by
  have hrow : (refOf step tile).rowIndex.toNat = step.rowIndex := Int.toNat_natCast _
  have hcell : (refOf step tile).cellIndex.toNat = step.cellIndex := Int.toNat_natCast _
  rw [modifyCell, hrow, hcell, steps, steps, zipIdx_modify, List.flatMap_map, List.map_flatMap]
  refine List.flatMap_congr (Prod.forall.2 fun row rowIndex _ => ?_)
  dsimp only
  rw [List.map_map]
  by_cases hrowIndex : rowIndex = step.rowIndex
  · rw [if_pos hrowIndex, zipIdx_modify, List.map_map]
    refine List.map_congr_left (Prod.forall.2 fun cell cellIndex _ => ?_)
    simp only [Function.comp, changeAt, hrowIndex, true_and]
    split_ifs <;> rfl
  · rw [if_neg hrowIndex]
    refine List.map_congr_left (Prod.forall.2 fun cell cellIndex _ => ?_)
    simp only [Function.comp, changeAt, hrowIndex, false_and, if_false]

theorem length_modifyCell (tableRows : List (TableRow Text)) (ref : TableGridCellReference)
    (change : TableCell Text → TableCell Text) :
    (modifyCell tableRows ref change).length = tableRows.length := List.length_modify ..

theorem steps_foldl_modifyCell
    (change : CellStep Text × Tile Text → TableCell Text → TableCell Text)
    (changed : List (CellStep Text × Tile Text)) (tableRows : List (TableRow Text)) :
    steps (changed.foldl (fun tableRows placed =>
        modifyCell tableRows (refOf placed.1 placed.2) (change placed)) tableRows) =
      (steps tableRows).map fun step =>
        changed.foldl (fun step placed => changeAt placed.1 (change placed) step) step := by
  induction changed generalizing tableRows with
  | nil => exact (List.map_id' _).symm
  | cons placed changed ih =>
    rw [List.foldl_cons, ih, steps_modifyCell, List.map_map]
    rfl

theorem length_foldl_modifyCell
    (change : CellStep Text × Tile Text → TableCell Text → TableCell Text)
    (changed : List (CellStep Text × Tile Text)) (tableRows : List (TableRow Text)) :
    (changed.foldl (fun tableRows placed =>
      modifyCell tableRows (refOf placed.1 placed.2) (change placed)) tableRows).length =
        tableRows.length := by
  induction changed generalizing tableRows with
  | nil => rfl
  | cons placed changed ih => rw [List.foldl_cons, ih, length_modifyCell]

/-- **Cells of a whole grid are changed where they are.** -/
theorem steps_foldl_modifyCell_tiled {limits : MarkdownPrepareTableRenderLimits}
    (hwhole : (buildTableGridWithin tableRows limits).Whole tableRows)
    (change : CellStep Text × Tile Text → TableCell Text → TableCell Text)
    (p : CellStep Text × Tile Text → Bool) :
    steps (((tiled tableRows limits).filter p).foldl (fun tableRows placed =>
        modifyCell tableRows (refOf placed.1 placed.2) (change placed)) tableRows) =
      (tiled tableRows limits).map fun placed =>
        if p placed then { placed.1 with cell := change placed placed.1.cell } else placed.1 := by
  rw [steps_foldl_modifyCell]
  conv_lhs => rw [← map_fst_tiled hwhole, List.map_map]
  refine List.map_congr_left fun placed hmem => ?_
  have hother : ∀ other ∈ (tiled tableRows limits).filter p, other ≠ placed →
      ¬(placed.1.rowIndex = other.1.rowIndex ∧ placed.1.cellIndex = other.1.cellIndex) :=
    fun other hother hne hindex => hne (eq_of_mem_tiled hwhole (List.mem_filter.1 hother).1 hmem
      hindex.1.symm hindex.2.symm)
  rw [Function.comp]
  split_ifs with hp
  · have hself : changeAt placed.1 (change placed) placed.1 =
        { placed.1 with cell := change placed placed.1.cell } := if_pos ⟨rfl, rfl⟩
    rw [foldl_eq_of_unique ((nodup_tiled hwhole).filter _) (List.mem_filter.2 ⟨hmem, hp⟩), hself]
    · exact fun other hmem' hne => if_neg (hother other hmem' hne)
    · intro other hmem' hne
      rw [hself]
      exact if_neg (hother other hmem' hne)
  · exact foldl_eq_self fun other hmem' => if_neg (hother other hmem' fun heq =>
      hp (heq ▸ (List.mem_filter.1 hmem').2))

/-! ## Cells erased -/

/-- The cells at the places that are kept. -/
def keepCells (keep : ℕ → ℕ → Bool) (tableRows : List (TableRow Text)) : List (TableRow Text) :=
  tableRows.mapIdx fun rowIndex row => { cells := keepAt (keep rowIndex) row.cells }

/-- A cell is erased, where all up to it in its row are kept. -/
theorem eraseCell_keepCells {keep : ℕ → ℕ → Bool} {step : CellStep Text}
    (hmem : step ∈ steps tableRows) (tile : Tile Text)
    (hkept : ∀ cellIndex ≤ step.cellIndex, keep step.rowIndex cellIndex) :
    eraseCell (keepCells keep tableRows) (refOf step tile) =
      keepCells (fun rowIndex cellIndex => keep rowIndex cellIndex
        && !decide (rowIndex = step.rowIndex ∧ cellIndex = step.cellIndex)) tableRows := by
  obtain ⟨row, hrow, hcell⟩ := mem_steps.1 hmem
  have hrowIndex : (refOf step tile).rowIndex.toNat = step.rowIndex := Int.toNat_natCast _
  have hcellIndex : (refOf step tile).cellIndex.toNat = step.cellIndex := Int.toNat_natCast _
  rw [eraseCell, hrowIndex, hcellIndex]
  refine List.ext_getElem? fun j => ?_
  rw [List.getElem?_modify, keepCells, keepCells, List.getElem?_mapIdx, List.getElem?_mapIdx,
    Option.map_eq_map, Option.map_map]
  by_cases hj : step.rowIndex = j
  · subst hj
    rw [hrow]
    simp only [if_true, Option.map_some, Function.comp, Option.some.injEq, TableRow.mk.injEq,
      true_and]
    exact eraseIdx_keepAt (List.getElem?_eq_some_iff.1 hcell).1 hkept
  · simp only [hj, if_false, Ne.symm hj, false_and, decide_false, Bool.not_false, Bool.and_true]
    rfl

theorem keepCells_true (tableRows : List (TableRow Text)) :
    keepCells (fun _ _ => true) tableRows = tableRows := by
  refine List.ext_getElem? fun j => ?_
  rw [keepCells, List.getElem?_mapIdx]
  simp only [keepAt_true]
  exact Option.map_id' ..

theorem length_keepCells (keep : ℕ → ℕ → Bool) (tableRows : List (TableRow Text)) :
    (keepCells keep tableRows).length = tableRows.length := List.length_mapIdx ..

/-- The cells that are kept, from the steps of the table. -/
theorem entriesFrom_keepCells (keep : ℕ → ℕ → Bool) (tableRows : List (TableRow Text)) :
    entriesFrom 0 (keepCells keep tableRows) =
      ((steps tableRows).filter fun step => keep step.rowIndex step.cellIndex).map
        CellStep.entry := by
  have hzip : (keepCells keep tableRows).zipIdx = tableRows.zipIdx.map fun x =>
      (({ cells := keepAt (keep x.2) x.1.cells } : TableRow Text), x.2) := by
    refine List.ext_getElem? fun j => ?_
    rw [List.getElem?_map, List.getElem?_zipIdx, List.getElem?_zipIdx, keepCells,
      List.getElem?_mapIdx]
    cases tableRows[j]? <;> simp
  rw [entriesFrom, hzip, List.flatMap_map, steps, List.filter_flatMap, List.map_flatMap]
  refine List.flatMap_congr (Prod.forall.2 fun row rowIndex _ => ?_)
  dsimp only
  rw [keepAt, List.filter_map, List.map_map, List.map_map]
  rfl

/-- References in the order of the table are erased with the last one first. -/
theorem mergeSort_erasedBefore {refs : List TableGridCellReference}
    (horder : refs.Pairwise fun a b => Before a.rowIndex a.cellIndex b.rowIndex b.cellIndex) :
    refs.mergeSort erasedBefore = refs.reverse := by
  have hbefore : ∀ a b : TableGridCellReference, erasedBefore a b = true
      ↔ Before b.rowIndex b.cellIndex a.rowIndex a.cellIndex
        ∨ a.rowIndex = b.rowIndex ∧ a.cellIndex = b.cellIndex := by
    intro a b
    unfold erasedBefore Before
    split_ifs <;> rw [decide_eq_true_eq] <;> omega
  have hnodup : (refs.map fun ref => (ref.rowIndex, ref.cellIndex)).Nodup := by
    refine List.pairwise_map.2 (horder.imp fun {a b} h heq => ?_)
    rw [(Prod.mk.inj heq).1, (Prod.mk.inj heq).2] at h
    exact not_before_self _ _ h
  have hsorted : refs.reverse.Pairwise fun a b => erasedBefore a b = true :=
    List.pairwise_reverse.2 (horder.imp fun h => (hbefore _ _).2 (.inl h))
  refine @List.Perm.eq_of_pairwise _ (fun a b => erasedBefore a b = true) _ _ ?_
    (List.pairwise_mergeSort ?_ ?_ refs) hsorted
    ((List.mergeSort_perm refs erasedBefore).trans (List.reverse_perm refs).symm)
  · intro a b ha hb hab hba
    have hindex : a.rowIndex = b.rowIndex ∧ a.cellIndex = b.cellIndex := by
      have hab := (hbefore a b).1 hab
      have hba := (hbefore b a).1 hba
      unfold Before at hab hba
      omega
    exact List.inj_on_of_nodup_map hnodup (List.mem_mergeSort.1 ha) (List.mem_reverse.1 hb)
      (Prod.ext hindex.1 hindex.2)
  · intro a b c hab hbc
    rw [hbefore] at hab hbc ⊢
    unfold Before at hab hbc ⊢
    omega
  · intro a b
    rw [Bool.or_eq_true, hbefore, hbefore]
    unfold Before
    omega

/-- **Cells are erased one by one**, the last one first. -/
theorem foldl_eraseCell {erased : List (CellStep Text × Tile Text)}
    (horder : (erased.map Prod.fst).Pairwise fun a b =>
      Before a.rowIndex a.cellIndex b.rowIndex b.cellIndex)
    (hmem : ∀ placed ∈ erased, ∃ cell, (⟨placed.1.rowIndex, placed.1.cellIndex, cell⟩ :
      CellStep Text) ∈ steps tableRows) :
    ((erased.map fun placed => refOf placed.1 placed.2).reverse).foldl eraseCell tableRows =
      keepCells (fun rowIndex cellIndex => erased.all fun placed =>
        !decide (rowIndex = placed.1.rowIndex ∧ cellIndex = placed.1.cellIndex)) tableRows := by
  rw [List.foldl_reverse]
  induction erased with
  | nil => exact (keepCells_true tableRows).symm
  | cons placed erased ih =>
    obtain ⟨hfirst, horder⟩ := List.pairwise_cons.1 horder
    obtain ⟨⟨cell, hplaced⟩, hmem⟩ := List.forall_mem_cons.1 hmem
    rw [List.map_cons, List.foldr_cons, ih horder hmem]
    refine (eraseCell_keepCells hplaced placed.2 fun cellIndex hle => ?_).trans ?_
    · rw [List.all_eq_true]
      intro other hother
      have hbefore := hfirst other.1 (List.mem_map_of_mem hother)
      unfold Before at hbefore
      simp only [Bool.not_eq_true', decide_eq_false_iff_not]
      dsimp only at hle ⊢
      omega
    · simp only [List.all_cons, Bool.and_comm]

theorem length_foldl_eraseCell (refs : List TableGridCellReference)
    (tableRows : List (TableRow Text)) :
    (refs.foldl eraseCell tableRows).length = tableRows.length := by
  induction refs generalizing tableRows with
  | nil => rfl
  | cons ref refs ih => rw [List.foldl_cons, ih, eraseCell, List.length_modify]

/-- **Cells of a whole grid are erased**, after some of them have been changed in their places: the
others are left. -/
theorem entriesFrom_eraseCells {limits : MarkdownPrepareTableRenderLimits}
    {changed : List (TableRow Text)}
    (hwhole : (buildTableGridWithin tableRows limits).Whole tableRows)
    (change : CellStep Text × Tile Text → CellStep Text)
    (hsteps : steps changed = (tiled tableRows limits).map change)
    (hindex : ∀ placed, (change placed).rowIndex = placed.1.rowIndex
      ∧ (change placed).cellIndex = placed.1.cellIndex)
    (erased : CellStep Text × Tile Text → Bool) :
    entriesFrom 0 (((((tiled tableRows limits).filter erased).map fun placed =>
        refOf placed.1 placed.2).mergeSort erasedBefore).foldl eraseCell changed) =
      ((tiled tableRows limits).filter fun placed => !erased placed).map fun placed =>
        (change placed).entry := by
  have horder := pairwise_tiled hwhole erased
  have hrefs : (((tiled tableRows limits).filter erased).map fun placed =>
      refOf placed.1 placed.2).Pairwise fun a b =>
        Before a.rowIndex a.cellIndex b.rowIndex b.cellIndex :=
    List.pairwise_map.2 (List.pairwise_map.1 horder)
  rw [mergeSort_erasedBefore hrefs, foldl_eraseCell horder fun placed hmem => ?_,
    entriesFrom_keepCells, hsteps, List.filter_map, List.map_map]
  · refine congrArg (List.map _) (List.filter_congr fun placed hmem => ?_)
    rw [Function.comp, (hindex placed).1, (hindex placed).2, Bool.eq_iff_iff, List.all_eq_true]
    constructor
    · intro hall
      by_contra herased
      rw [Bool.not_eq_true', Bool.not_eq_false] at herased
      have hself := hall placed (List.mem_filter.2 ⟨hmem, herased⟩)
      simp at hself
    · intro hkept other hother
      rw [Bool.not_eq_true', decide_eq_false_iff_not]
      rintro ⟨hrow, hcell⟩
      obtain ⟨hmem', herased⟩ := List.mem_filter.1 hother
      rw [← eq_of_mem_tiled hwhole hmem hmem' hrow hcell] at herased
      rw [herased] at hkept
      exact Bool.false_ne_true hkept
  · have hchanged : change placed ∈ steps changed := by
      rw [hsteps]
      exact List.mem_map_of_mem (List.mem_filter.1 hmem).1
    refine ⟨(change placed).cell, ?_⟩
    rw [← (hindex placed).1, ← (hindex placed).2]
    exact hchanged

end Yunogram.Iv.Editor
