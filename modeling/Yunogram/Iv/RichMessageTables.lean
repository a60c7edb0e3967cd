import Mathlib
import Yunogram.Iv.RichMessageLimits

/-!
# Iv/RichMessageTables — the columns of a table are measured as they are laid out

`valid_message_tables`: a message that is valid has only tables of which the grid, with the limits
made from those of the message, has every cell as wide as it is, in as many columns as were
measured; and where a message is refused for its columns, there is a table of which the grid leaves
a cell out or cuts one off.

The measure goes one column further than the grid.  As long as no cell reaches into it, a column is
first in the one if and only if it is in the other (`isFirst_iff`), so both walk in step. -/

open Machinery
open scoped Machinery.Computed

namespace Yunogram.Iv.RichMessage

open Editor hiding canOccupyTableSlots firstAvailableTableColumn markTableSlots
open FinalSubmit (RichText)

variable {Text : Type} {occupancy occupancy' : TableOccupancyGrid} {building : Building}
  {row column rowspan colspan rowCount maxColumns maxColumns' : ℤ} {rowIndex cellIndex : ℕ}
  {cell : TableCell Text} {tableRows : List (TableRow Text)}
  {limits : MarkdownPrepareTableRenderLimits}

/-! ## The helpers are those of the grid -/

theorem canOccupyTableSlots_eq (hmax : column + colspan ≤ intMax) :
    canOccupyTableSlots occupancy row column rowspan colspan =
      Editor.canOccupyTableSlots occupancy row column rowspan colspan := by
  unfold canOccupyTableSlots Editor.canOccupyTableSlots
  dsimp only
  rw [min_eq_left hmax]
  split_ifs
  · rfl
  · omega
  · rfl

theorem firstAvailableTableColumn_eq (hmax : maxColumns ≤ intMax) :
    firstAvailableTableColumn occupancy row rowspan colspan maxColumns =
      Editor.firstAvailableTableColumn occupancy row rowspan colspan maxColumns := by
  unfold firstAvailableTableColumn Editor.firstAvailableTableColumn
  dsimp only
  have hcongr : ∀ column ∈ indices 0 maxColumns,
      canOccupyTableSlots occupancy row column rowspan
          (clampTableColspan colspan column maxColumns) =
        Editor.canOccupyTableSlots occupancy row column rowspan
          (clampTableColspan colspan column maxColumns) := fun column hmem => by
    obtain ⟨h0, hlt⟩ := (mem_indices le_rfl).1 hmem
    have hend : (column : ℤ) + clampTableColspan colspan column maxColumns ≤ maxColumns :=
      add_clampTableSpan_le h0 hlt colspan
    exact canOccupyTableSlots_eq (hend.trans hmax)
  rw [List.find?_congr fun column hmem => congrArg _ (hcongr column hmem)] <;> rfl

theorem markTableSlots_eq (hmax : column + colspan ≤ intMax) :
    markTableSlots occupancy row column rowspan colspan =
      Editor.markTableSlots occupancy row column rowspan colspan := by
  unfold markTableSlots Editor.markTableSlots
  dsimp only
  rw [min_eq_left hmax]
  split_ifs
  · rfl
  · omega
  · rfl

/-! ## One cell -/

/-- **A cell is measured** where it fits in a column as wide as it is, and marked there. -/
theorem measureCell_eq_some_iff (hlength : (building.occupancy.length : ℤ) = rowCount)
    (hrow : (rowIndex : ℤ) < rowCount) (hmax : maxColumns ≤ intMax) (cellIndex : ℕ) :
    measureCell rowCount maxColumns rowIndex building.occupancy cell = some occupancy' ↔
      ∃ column, IsFirst (fun column => Free building.occupancy
          (refAt rowCount maxColumns rowIndex cellIndex cell column).slots) maxColumns column
        ∧ column + normalizeTableSpan cell.colspan ≤ maxColumns
        ∧ (building.add (refAt rowCount maxColumns rowIndex cellIndex cell column)).occupancy =
          occupancy' := by
  have hr0 : (0 : ℤ) ≤ rowIndex := Int.natCast_nonneg rowIndex
  have hrowspan : 0 < clampTableRowspan cell.rowspan rowIndex rowCount :=
    clampTableSpan_pos hr0 hrow cell.rowspan
  have hcolspan : 0 < normalizeTableSpan cell.colspan :=
    Int.lt_of_lt_of_le one_pos (one_le_normalizeTableSpan cell.colspan)
  unfold measureCell
  dsimp only
  rw [if_neg (not_le.2 hrowspan), firstAvailableTableColumn_eq hmax]
  rcases firstAvailableTableColumn_cases hr0 (by rwa [hlength]) hrowspan hcolspan hmax with
    ⟨column, hcolumn, h0, hlt, hfits, hbefore⟩ | ⟨hnone, hfits⟩
  · have hfirst : IsFirst (fun column => Free building.occupancy
        (refAt rowCount maxColumns rowIndex cellIndex cell column).slots) maxColumns column :=
      ⟨h0, hlt, hfits, hbefore⟩
    have hclamp := clampTableSpan_eq h0 hlt (normalizeTableSpan cell.colspan)
    rw [normalizeTableSpan_normalizeTableSpan] at hclamp
    rw [hcolumn, if_neg (not_lt.2 h0), clampTableColspan, hclamp]
    split_ifs with hcut
    · refine iff_of_false id ?_
      rintro ⟨column', hcolumn', hend, -⟩
      obtain rfl := hcolumn'.unique hfirst
      omega
    · rw [not_not] at hcut
      have hend : column + normalizeTableSpan cell.colspan ≤ maxColumns := by omega
      have hadd : (building.add (refAt rowCount maxColumns rowIndex cellIndex cell column)).occupancy
          = markTableSlots building.occupancy rowIndex column
            (clampTableRowspan cell.rowspan rowIndex rowCount)
            (normalizeTableSpan cell.colspan) := by
        rw [markTableSlots_eq (hend.trans hmax)]
        simp only [Building.add, refAt, add_sub_cancel_left, clampTableColspan, hclamp, hcut]
      rw [hcut, ← hadd]
      refine ⟨fun h => ⟨column, hfirst, hend, Option.some.inj h⟩, ?_⟩
      rintro ⟨column', hcolumn', -, rfl⟩
      rw [hcolumn'.unique hfirst]
  · rw [hnone, if_pos (by decide)]
    refine iff_of_false (Option.some_ne_none _).symm ?_
    rintro ⟨column, hcolumn, -⟩
    exact hfits column hcolumn.nonneg hcolumn.lt hcolumn.fits

/-- A column is first among more of them if it is among those that hold the cell. -/
theorem isFirst_iff (hle : maxColumns ≤ maxColumns')
    (hend : column + normalizeTableSpan cell.colspan ≤ maxColumns) :
    IsFirst (fun column => Free building.occupancy
        (refAt rowCount maxColumns' rowIndex cellIndex cell column).slots) maxColumns' column
      ↔ IsFirst (fun column => Free building.occupancy
        (refAt rowCount maxColumns rowIndex cellIndex cell column).slots) maxColumns column := by
  have hspan := one_le_normalizeTableSpan cell.colspan
  have hcongr : ∀ before, 0 ≤ before → before ≤ column →
      refAt rowCount maxColumns' rowIndex cellIndex cell before =
        refAt rowCount maxColumns rowIndex cellIndex cell before := fun before h0 hbefore =>
    refAt_congr h0 (by omega) hle
  constructor
  · rintro ⟨h0, -, hfits, hbefore⟩
    refine ⟨h0, by omega, ?_, fun before h0' hlt hfree => hbefore before h0' hlt ?_⟩
    · rwa [hcongr column h0 le_rfl] at hfits
    · rwa [hcongr before h0' hlt.le]
  · rintro ⟨h0, -, hfits, hbefore⟩
    refine ⟨h0, by omega, ?_, fun before h0' hlt hfree => hbefore before h0' hlt ?_⟩
    · rwa [hcongr column h0 le_rfl]
    · rwa [hcongr before h0' hlt.le] at hfree

/-! ## Cells one after the other -/

/-- Cells that are placed one after the other, each as wide as it is. -/
inductive Widens (rowCount maxColumns : ℤ) :
    Building → List (CellStep Text) → Building → Prop
  | nil (building : Building) : Widens rowCount maxColumns building [] building
  | cons {building building' : Building} {step : CellStep Text} {list : List (CellStep Text)}
      {column : ℤ} (first : IsFirst (fun column => Free building.occupancy
        (refAt rowCount maxColumns step.rowIndex step.cellIndex step.cell column).slots)
        maxColumns column)
      (wide : column + normalizeTableSpan step.cell.colspan ≤ maxColumns)
      (rest : Widens rowCount maxColumns (building.add
        (refAt rowCount maxColumns step.rowIndex step.cellIndex step.cell column)) list building') :
      Widens rowCount maxColumns building (step :: list) building'

variable {building' : Building} {step : CellStep Text} {list : List (CellStep Text)}

/-- A cell that fits ends where it is as wide as it is. -/
theorem columnTill_refAt (h0 : 0 ≤ column)
    (hwide : column + normalizeTableSpan cell.colspan ≤ maxColumns) :
    (refAt rowCount maxColumns rowIndex cellIndex cell column).columnTill =
      column + normalizeTableSpan cell.colspan := by
  have hspan := one_le_normalizeTableSpan cell.colspan
  have hclamp := clampTableSpan_eq h0 (show column < maxColumns by omega)
    (normalizeTableSpan cell.colspan)
  rw [normalizeTableSpan_normalizeTableSpan, min_eq_left (by omega)] at hclamp
  rw [refAt, clampTableColspan, hclamp]

theorem Widens.concat {column : ℤ} (h : Widens rowCount maxColumns building list building')
    (hfirst : IsFirst (fun column => Free building'.occupancy
      (refAt rowCount maxColumns step.rowIndex step.cellIndex step.cell column).slots)
      maxColumns column)
    (hwide : column + normalizeTableSpan step.cell.colspan ≤ maxColumns) :
    Widens rowCount maxColumns building (list ++ [step]) (building'.add
      (refAt rowCount maxColumns step.rowIndex step.cellIndex step.cell column)) := by
  induction h with
  | nil building => exact .cons hfirst hwide (.nil _)
  | cons first wide _ ih => exact .cons first wide (ih hfirst)

/-- What is placed stays. -/
theorem Widens.cells_subset (h : Widens rowCount maxColumns building list building') :
    building.cells ⊆ building'.cells := by
  induction h with
  | nil building => exact fun _ hmem => hmem
  | cons _ _ _ ih => exact fun _ hmem => ih (List.mem_append_left _ hmem)

/-- Every cell is placed. -/
theorem Widens.exists_ref (h : Widens rowCount maxColumns building list building') :
    ∀ step ∈ list, ∃ ref ∈ building'.cells, ref.rowIndex = step.rowIndex
      ∧ ref.cellIndex = step.cellIndex
      ∧ ref.columnTill = ref.columnFrom + normalizeTableSpan step.cell.colspan := by
  induction h with
  | nil building => exact fun _ hmem => absurd hmem List.not_mem_nil
  | cons first wide rest ih =>
    refine List.forall_mem_cons.2 ⟨⟨_, rest.cells_subset (List.mem_append_right _
      (List.mem_singleton_self _)), rfl, rfl, ?_⟩, ih⟩
    exact columnTill_refAt first.nonneg wide

/-- **More columns** place cells as wide as they are in the same way, and fewer do if they hold
what is placed. -/
theorem widens_iff (hle : maxColumns ≤ maxColumns')
    (hcells : ∀ ref ∈ building.cells, ref.columnTill ≤ maxColumns) :
    Widens rowCount maxColumns building list building' ↔
      Widens rowCount maxColumns' building list building'
        ∧ ∀ ref ∈ building'.cells, ref.columnTill ≤ maxColumns := by
  constructor
  · intro h
    induction h with
    | nil building => exact ⟨.nil _, hcells⟩
    | @cons building _ step _ column first wide rest ih =>
      have hsame : refAt rowCount maxColumns' step.rowIndex step.cellIndex step.cell column
          = refAt rowCount maxColumns step.rowIndex step.cellIndex step.cell column :=
        refAt_congr first.nonneg wide hle
      have hcells' : ∀ ref ∈ (building.add (refAt rowCount maxColumns step.rowIndex step.cellIndex
          step.cell column)).cells, ref.columnTill ≤ maxColumns :=
        List.forall_mem_append.2 ⟨hcells, List.forall_mem_singleton.2
          ((columnTill_refAt first.nonneg wide).trans_le wide)⟩
      obtain ⟨hrest, hall⟩ := ih hcells'
      refine ⟨.cons ((isFirst_iff hle wide).2 first) (wide.trans hle) ?_, hall⟩
      rwa [hsame]
  · rintro ⟨h, hall⟩
    induction h with
    | nil building => exact .nil _
    | @cons building _ step _ column first wide rest ih =>
      have hend := hall _ (rest.cells_subset (List.mem_append_right _ (List.mem_singleton_self _)))
      have hwide : column + normalizeTableSpan step.cell.colspan ≤ maxColumns :=
        (columnTill_refAt first.nonneg wide).symm.trans_le hend
      have hsame : refAt rowCount maxColumns' step.rowIndex step.cellIndex step.cell column
          = refAt rowCount maxColumns step.rowIndex step.cellIndex step.cell column :=
        refAt_congr first.nonneg hwide hle
      refine .cons ((isFirst_iff hle hwide).1 first) hwide ?_
      rw [← hsame]
      exact ih (List.forall_mem_append.2 ⟨hcells, List.forall_mem_singleton.2 hend⟩) hall

/-! ## The measure -/

/-- `measureCell`, at a step of the loops. -/
def measure (rowCount maxColumns : ℤ) (occupancy : TableOccupancyGrid) (step : CellStep Text) :
    Option TableOccupancyGrid :=
  measureCell rowCount maxColumns step.rowIndex occupancy step.cell

theorem foldlM_flatMap {α β γ : Type} (f : α → List β) (g : γ → β → Option γ) (list : List α)
    (first : γ) : (list.flatMap f).foldlM g first =
      list.foldlM (fun result a => (f a).foldlM g result) first := by
  induction list generalizing first with
  | nil => rfl
  | cons a list ih =>
    rw [List.flatMap_cons, List.foldlM_append, List.foldlM_cons]
    exact congrArg _ (funext ih)

/-- The double loop is one walk over the cells. -/
theorem measureRows_eq (maxColumns : ℤ) (tableRows : List (TableRow Text)) :
    measureRows maxColumns tableRows = (steps tableRows).foldlM
      (measure tableRows.length maxColumns) (List.replicate tableRows.length []) := by
  rw [steps, foldlM_flatMap, measureRows]
  refine congrArg (fun f => List.foldlM f _ _) (funext fun occupancy => funext fun rowAt => ?_)
  obtain ⟨row, rowIndex⟩ := rowAt
  dsimp only
  rw [List.foldlM_map]
  have hunzip : row.cells = row.cells.zipIdx.map Prod.fst := (List.zipIdx_map_fst ..).symm
  conv_lhs => rw [hunzip, List.foldlM_map]
  rfl

/-- **The measure walks in step** with cells placed as wide as they are. -/
theorem foldlM_measure_iff (h : building.Sound rowCount maxColumns) (hmax : maxColumns ≤ intMax)
    (hrows : ∀ step ∈ list, (step.rowIndex : ℤ) < rowCount) :
    list.foldlM (measure rowCount maxColumns) building.occupancy = some occupancy' ↔
      ∃ building', Widens rowCount maxColumns building list building'
        ∧ building'.occupancy = occupancy' := by
  induction list generalizing building with
  | nil =>
    refine ⟨fun hsome => ⟨building, .nil _, Option.some.inj hsome⟩, ?_⟩
    rintro ⟨_, ⟨⟩, rfl⟩
    rfl
  | cons step list ih =>
    obtain ⟨hrow, hrows⟩ := List.forall_mem_cons.1 hrows
    have hcell : ∀ next, measureCell rowCount maxColumns step.rowIndex building.occupancy step.cell
        = some next ↔ _ := fun next => measureCell_eq_some_iff h.length hrow hmax step.cellIndex
    rw [List.foldlM_cons]
    constructor
    · intro hsome
      obtain ⟨next, hnext, hrest⟩ := Option.bind_eq_some_iff.1 hsome
      obtain ⟨column, hfirst, hwide, rfl⟩ := (hcell next).1 hnext
      obtain ⟨building', hwidens, hoccupancy⟩ :=
        (ih (h.add_refAt hmax hrow hfirst.nonneg hfirst.lt hfirst.fits) hrows).1 hrest
      exact ⟨building', .cons hfirst hwide hwidens, hoccupancy⟩
    · rintro ⟨building', hwidens, hoccupancy⟩
      obtain ⟨_⟩ | ⟨hfirst, hwide, hrest⟩ := hwidens
      refine Option.bind_eq_some_iff.2 ⟨_, (hcell _).2 ⟨_, hfirst, hwide, rfl⟩, ?_⟩
      exact (ih (h.add_refAt hmax hrow hfirst.nonneg hfirst.lt hfirst.fits) hrows).2
        ⟨building', hrest, hoccupancy⟩

/-! ## The grid -/

/-- A sound state has no more slots than rows and columns. -/
theorem count_le_area (h : building.Sound rowCount maxColumns) (h0 : 0 ≤ rowCount)
    (hcolumns : 0 ≤ maxColumns) : building.occupiedSlotCountSoFar ≤ rowCount * maxColumns := by
  have hinside : covered (building.cells.map Editor.TableGridCellReference.slots) ⊆
      rect 0 0 rowCount maxColumns := fun slot hslot => by
    obtain ⟨_, hmem, hin⟩ := mem_covered.1 hslot
    obtain ⟨ref, href, rfl⟩ := List.mem_map.1 hmem
    have hrows := h.rows ref href
    have hcolumns := h.columns ref href
    rw [Editor.mem_slots] at hin
    rw [mem_rect]
    omega
  rw [h.count, ← card_rect 0 0 h0 hcolumns]
  exact Int.ofNat_le.2 (Finset.card_le_card hinside)

/-- **The grid places a cell at its first column**, where its limits hold all slots. -/
theorem place_eq_add (h : building.Sound rowCount limits.maxColumns)
    (hrow : (step.rowIndex : ℤ) < rowCount) (h0 : 0 ≤ limits.maxColumns)
    (hcells : rowCount * limits.maxColumns ≤ limits.maxCells)
    (hfirst : IsFirst (fun column => Free building.occupancy
      (refAt rowCount limits.maxColumns step.rowIndex step.cellIndex step.cell column).slots)
      limits.maxColumns column) :
    place rowCount limits.maxColumns limits.admits building step = building.add
      (refAt rowCount limits.maxColumns step.rowIndex step.cellIndex step.cell column) := by
  have hnext : (building.add (refAt rowCount limits.maxColumns step.rowIndex step.cellIndex
      step.cell column)).Sound rowCount limits.maxColumns :=
    h.add_refAt limits.maxColumns_le hrow hfirst.nonneg hfirst.lt hfirst.fits
  have hcount := (count_le_area hnext (by omega) h0).trans hcells
  rcases placeCell_cases h.length hrow limits.maxColumns_le limits.admits step.cellIndex
    step.cell with ⟨column', hcolumn', heq⟩ | ⟨hnone, -⟩
  · obtain rfl := hcolumn'.unique hfirst
    rw [place, heq, if_pos]
    exact admits_of_le (h.count ▸ Int.natCast_nonneg _) hcount
  · exact absurd hfirst.fits (hnone column hfirst.nonneg hfirst.lt)

theorem Widens.foldl_place (h : Widens rowCount limits.maxColumns building list building')
    (hsound : building.Sound rowCount limits.maxColumns) (h0 : 0 ≤ limits.maxColumns)
    (hrows : ∀ step ∈ list, (step.rowIndex : ℤ) < rowCount)
    (hcells : rowCount * limits.maxColumns ≤ limits.maxCells) :
    list.foldl (place rowCount limits.maxColumns limits.admits) building = building' := by
  generalize hcolumns : limits.maxColumns = columns at h
  induction h with
  | nil building => rfl
  | cons first wide _ ih =>
    subst hcolumns
    obtain ⟨hrow, hrows⟩ := List.forall_mem_cons.1 hrows
    rw [List.foldl_cons, place_eq_add hsound hrow h0 hcells first]
    exact ih (hsound.add_refAt limits.maxColumns_le hrow first.nonneg first.lt first.fits) hrows

/-- **A full grid** has placed every cell as wide as it is. -/
theorem widens_of_full (h0 : 0 ≤ limits.maxColumns)
    (hrowCount : (tableRows.length : ℤ) ≤ limits.maxRows)
    (hcells : tableRows.length * limits.maxColumns ≤ limits.maxCells)
    (hfull : (buildTableGridWithin tableRows limits).Full tableRows) :
    Widens tableRows.length limits.maxColumns (.start tableRows.length) (steps tableRows)
      ((steps tableRows).foldl (place tableRows.length limits.maxColumns limits.admits)
        (.start tableRows.length)) := by
  have hstart : (Building.start tableRows.length).Sound tableRows.length limits.maxColumns :=
    sound_start (Int.natCast_nonneg _) _
  have hrows : ∀ step ∈ steps tableRows, (step.rowIndex : ℤ) < (tableRows.length : ℤ) :=
    fun step hmem => Int.ofNat_lt.2 (rowIndex_lt_of_mem_steps hmem)
  rw [buildTableGridWithin_eq hrowCount] at hfull
  suffices hall : ∀ earlier after, steps tableRows = earlier ++ after →
      Widens tableRows.length limits.maxColumns (.start tableRows.length) earlier
        (earlier.foldl (place tableRows.length limits.maxColumns limits.admits)
          (.start tableRows.length)) from hall _ [] (List.append_nil _).symm
  intro earlier
  induction earlier using List.reverseRecOn with
  | nil => exact fun _ _ => .nil _
  | append_singleton earlier step ih =>
    intro after hsplit
    rw [List.append_assoc, List.singleton_append] at hsplit
    obtain ⟨later, hlater, hbefore, hafter⟩ :=
      hstart.split limits.maxColumns_le limits.admits hrows hsplit
    have hmem : step ∈ steps tableRows := hsplit ▸ List.mem_append_right _ List.mem_cons_self
    have hat : (earlier.foldl (place tableRows.length limits.maxColumns limits.admits)
        (.start tableRows.length)).Sound tableRows.length limits.maxColumns :=
      hstart.run limits.maxColumns_le _ fun step' hmem' =>
        hrows step' (hsplit ▸ List.mem_append_left _ hmem')
    obtain ⟨ref, href, hrow, hcell, hwide⟩ := hfull step hmem
    have hself := Editor.not_before_self (step.rowIndex : ℤ) step.cellIndex
    rw [Building.grid, hlater, List.mem_append] at href
    have hnew := href.resolve_right fun hmem => hself (by
      have hnew := hafter ref hmem
      rwa [hrow, hcell] at hnew)
    rw [List.foldl_append, List.foldl_cons, List.foldl_nil]
    rcases placeCell_cases hat.length (hrows step hmem) limits.maxColumns_le (fun _ _ => true)
      step.cellIndex step.cell with ⟨column, hfirst, -⟩ | ⟨hnone, -⟩
    · rw [place_eq_add hat (hrows step hmem) h0 hcells hfirst] at hnew ⊢
      obtain rfl := List.mem_singleton.1 ((List.mem_append.1 hnew).resolve_left fun hmem =>
        hself (by
          have hold := hbefore ref hmem
          rwa [hrow, hcell] at hold))
      have hend : column + clampTableColspan (normalizeTableSpan step.cell.colspan) column
          limits.maxColumns ≤ limits.maxColumns := add_clampTableSpan_le hfirst.nonneg hfirst.lt _
      exact (ih _ hsplit).concat hfirst (hwide.symm.trans_le hend)
    · rcases placeCell_cases hat.length (hrows step hmem) limits.maxColumns_le limits.admits
        step.cellIndex step.cell with ⟨column, hfirst, -⟩ | ⟨-, heq⟩
      · exact absurd hfirst.fits (hnone column hfirst.nonneg hfirst.lt)
      · rw [place, heq] at hnew
        exact absurd (by
          have hold := hbefore ref hnew
          rwa [hrow, hcell] at hold) hself

end Yunogram.Iv.RichMessage
