import Mathlib
import Yunogram.Iv.PageTableLimits

/-!
# Iv/PageTableTiles — a grid as tiles, and when first fit lays out given tiles

A tile is a cell, apart from its spans, with its rectangle.  Tiles that do not meet are laid out as
they are exactly when each is held in place: from any column to the left of its own it would meet,
in its first row, a tile that comes before it (`cells_eq_iff`).  The further rows do not matter,
since what comes before starts no later.
-/

open Machinery
open scoped Machinery.Computed

namespace Yunogram.Iv.Editor

deriving instance DecidableEq for TableAlignment, TableVerticalAlignment, TableCell, TableRow

variable {Text : Type} {tableRows : List (TableRow Text)} {building : Building}
  {rowCount maxColumns column : ℤ} {admits : ℤ → ℤ → Bool} {before : Finset (ℤ × ℤ)}

/-! ## Tiles -/

/-- A cell apart from its spans. -/
def TableCell.content (cell : TableCell Text) : TableCell Text :=
  { cell with colspan := 1, rowspan := 1 }

/-- A cell, apart from its spans, and the rectangle it is laid out in. -/
structure Tile (Text : Type) where
  cell : TableCell Text
  rowFrom : ℤ
  rowTill : ℤ
  columnFrom : ℤ
  columnTill : ℤ
  deriving DecidableEq

/-- The rectangle of a tile. -/
def Tile.slots (tile : Tile Text) : Finset (ℤ × ℤ) :=
  Finset.Ico tile.rowFrom tile.rowTill ×ˢ Finset.Ico tile.columnFrom tile.columnTill

@[simp]
theorem Tile.mem_slots {tile : Tile Text} {slot : ℤ × ℤ} :
    slot ∈ tile.slots ↔ (tile.rowFrom ≤ slot.1 ∧ slot.1 < tile.rowTill)
      ∧ tile.columnFrom ≤ slot.2 ∧ slot.2 < tile.columnTill := by
  rw [Tile.slots, Finset.mem_product, Finset.mem_Ico, Finset.mem_Ico]

/-- The number of slots of a tile. -/
def Tile.area (tile : Tile Text) : ℤ :=
  (tile.rowTill - tile.rowFrom) * (tile.columnTill - tile.columnFrom)

/-- The cell that a reference is to. -/
def referredCell (tableRows : List (TableRow Text)) (ref : TableGridCellReference) :
    Option (TableCell Text) :=
  tableRows[ref.rowIndex.toNat]?.bind fun row => row.cells[ref.cellIndex.toNat]?

/-- The tile of a cell that is laid out. -/
def tileOf (ref : TableGridCellReference) (cell : TableCell Text) : Tile Text where
  cell := cell.content
  rowFrom := ref.rowFrom
  rowTill := ref.rowTill
  columnFrom := ref.columnFrom
  columnTill := ref.columnTill

/-- The tiles of a grid, in the order of the table. -/
def layout (tableRows : List (TableRow Text)) (grid : TableGrid) : List (Tile Text) :=
  grid.cells.filterMap fun ref => (referredCell tableRows ref).map (tileOf ref)

/-- A tile is clear of the slots that are taken. -/
def Tile.Clear (before : Finset (ℤ × ℤ)) (tile : Tile Text) : Prop := Disjoint before tile.slots

/-- **A tile is held in place** by the slots that are taken: as wide as it is, it would meet one of
them in its first row from every column to the left of its own. -/
def Tile.Held (before : Finset (ℤ × ℤ)) (tile : Tile Text) : Prop :=
  ∀ column ∈ Finset.Ico 0 tile.columnFrom,
    ∃ y ∈ Finset.Ico column (column + (tile.columnTill - tile.columnFrom)),
      (tile.rowFrom, y) ∈ before

instance : DecidablePred (@Tile.Clear Text before) := fun tile =>
  inferInstanceAs (Decidable (Disjoint before tile.slots))

instance : DecidablePred (@Tile.Held Text before) := fun tile =>
  inferInstanceAs (Decidable (∀ column ∈ Finset.Ico 0 tile.columnFrom, ∃ y ∈ Finset.Ico column
    (column + (tile.columnTill - tile.columnFrom)), (tile.rowFrom, y) ∈ before))

/-- Tiles that meet neither what is taken before them nor one another. -/
def AllClear (before : Finset (ℤ × ℤ)) : List (Tile Text) → Prop
  | [] => True
  | tile :: tiles => tile.Clear before ∧ AllClear (before ∪ tile.slots) tiles

/-- Tiles each of which is held in place by those before it. -/
def AllHeld (before : Finset (ℤ × ℤ)) : List (Tile Text) → Prop
  | [] => True
  | tile :: tiles => tile.Held before ∧ AllHeld (before ∪ tile.slots) tiles

instance decidableAllHeld : (before : Finset (ℤ × ℤ)) → (tiles : List (Tile Text)) →
    Decidable (AllHeld before tiles)
  | _, [] => inferInstanceAs (Decidable True)
  | before, tile :: tiles =>
    have := decidableAllHeld (before ∪ tile.slots) tiles
    inferInstanceAs (Decidable (tile.Held before ∧ AllHeld (before ∪ tile.slots) tiles))

/-- A tile has the content of a cell and its spans, from a row on. -/
structure Shaped (rowCount : ℤ) (rowIndex : ℕ) (cell : TableCell Text) (tile : Tile Text) :
    Prop where
  content : tile.cell = cell.content
  rowFrom : tile.rowFrom = rowIndex
  rowTill : tile.rowTill = rowIndex + clampTableRowspan cell.rowspan rowIndex rowCount
  columnTill : tile.columnTill = tile.columnFrom + normalizeTableSpan cell.colspan

/-- The reference to a cell that is laid out as a tile. -/
def refOf (step : CellStep Text) (tile : Tile Text) : TableGridCellReference where
  rowIndex := step.rowIndex
  cellIndex := step.cellIndex
  rowFrom := tile.rowFrom
  rowTill := tile.rowTill
  columnFrom := tile.columnFrom
  columnTill := tile.columnTill

/-- The slots that the cells placed so far take. -/
def Building.taken (building : Building) : Finset (ℤ × ℤ) :=
  covered (building.cells.map TableGridCellReference.slots)

/-! ## One cell -/

section OneCell

variable {step : CellStep Text} {tile : Tile Text} {limits : MarkdownPrepareTableRenderLimits}

theorem free_iff_disjoint (h : building.Sound rowCount maxColumns) {slots : Finset (ℤ × ℤ)} :
    Free building.occupancy slots ↔ Disjoint building.taken slots := by
  rw [Finset.disjoint_right]
  exact forall₂_congr fun slot _ => not_congr (h.taken slot)

/-- A cell as it is placed where its tile is. -/
theorem refAt_eq_refOf (hshape : Shaped rowCount step.rowIndex step.cell tile)
    (h0 : 0 ≤ tile.columnFrom) (htill : tile.columnTill ≤ maxColumns) :
    refAt rowCount maxColumns step.rowIndex step.cellIndex step.cell tile.columnFrom =
      refOf step tile := by
  have hspan := one_le_normalizeTableSpan step.cell.colspan
  have hcolumnTill := hshape.columnTill
  have hclamp := clampTableSpan_eq h0 (by omega : tile.columnFrom < maxColumns)
    (normalizeTableSpan step.cell.colspan)
  rw [normalizeTableSpan_normalizeTableSpan, min_eq_left (by omega)] at hclamp
  rw [refAt, refOf, clampTableColspan, hclamp, ← hcolumnTill, ← hshape.rowTill, hshape.rowFrom]

/-- From a column to the left, a cell meets what starts no later in its first row, or not at all. -/
theorem not_disjoint_refAt_iff (hshape : Shaped rowCount step.rowIndex step.cell tile)
    (hrow : (step.rowIndex : ℤ) < rowCount) (h0 : 0 ≤ column) (hlt : column < tile.columnFrom)
    (htill : tile.columnTill ≤ maxColumns)
    (hearlier : ∀ ref ∈ building.cells, ref.rowFrom ≤ step.rowIndex) :
    ¬Disjoint building.taken
        (refAt rowCount maxColumns step.rowIndex step.cellIndex step.cell column).slots
      ↔ ∃ y ∈ Finset.Ico column (column + (tile.columnTill - tile.columnFrom)),
        (tile.rowFrom, y) ∈ building.taken := by
  have hspan := one_le_normalizeTableSpan step.cell.colspan
  have hcolumnTill := hshape.columnTill
  have hrows := clampTableSpan_pos (Int.natCast_nonneg step.rowIndex) hrow step.cell.rowspan
  have hclamp := clampTableSpan_eq h0 (by omega : column < maxColumns)
    (normalizeTableSpan step.cell.colspan)
  rw [normalizeTableSpan_normalizeTableSpan, min_eq_left (by omega)] at hclamp
  have hwidth : (refAt rowCount maxColumns step.rowIndex step.cellIndex step.cell
      column).columnTill = column + (tile.columnTill - tile.columnFrom) := by
    change column + clampTableColspan _ column maxColumns = _
    rw [clampTableColspan, hclamp]
    omega
  rw [Finset.not_disjoint_iff, hshape.rowFrom]
  constructor
  · rintro ⟨⟨row, y⟩, htaken, hslot⟩
    rw [Editor.mem_slots, hwidth] at hslot
    obtain ⟨_, hmem, hin⟩ := mem_covered.1 htaken
    obtain ⟨ref, href, rfl⟩ := List.mem_map.1 hmem
    rw [Editor.mem_slots] at hin
    refine ⟨y, Finset.mem_Ico.2 hslot.2, mem_covered.2 ⟨ref.slots, hmem, ?_⟩⟩
    rw [Editor.mem_slots]
    exact ⟨⟨hearlier ref href, hslot.1.1.trans_lt hin.1.2⟩, hin.2⟩
  · rintro ⟨y, hy, htaken⟩
    refine ⟨(step.rowIndex, y), htaken, ?_⟩
    rw [Editor.mem_slots, hwidth]
    exact ⟨⟨le_rfl, lt_add_of_pos_right _ hrows⟩, Finset.mem_Ico.1 hy⟩

/-- **First fit finds the column of a tile** exactly when the tile is clear of what is placed and
held in place by it. -/
theorem isFirst_iff (h : building.Sound rowCount maxColumns)
    (hshape : Shaped rowCount step.rowIndex step.cell tile) (hrow : (step.rowIndex : ℤ) < rowCount)
    (h0 : 0 ≤ tile.columnFrom) (htill : tile.columnTill ≤ maxColumns)
    (hearlier : ∀ ref ∈ building.cells, ref.rowFrom ≤ step.rowIndex) :
    IsFirst (fun column => Free building.occupancy
        (refAt rowCount maxColumns step.rowIndex step.cellIndex step.cell column).slots)
      maxColumns tile.columnFrom ↔ tile.Clear building.taken ∧ tile.Held building.taken := by
  have hspan := one_le_normalizeTableSpan step.cell.colspan
  have hcolumnTill := hshape.columnTill
  have hfits : Free building.occupancy (refAt rowCount maxColumns step.rowIndex step.cellIndex
      step.cell tile.columnFrom).slots ↔ tile.Clear building.taken := by
    rw [free_iff_disjoint h, refAt_eq_refOf hshape h0 htill]
    rfl
  constructor
  · intro hfirst
    refine ⟨hfits.1 hfirst.fits, fun column hcolumn => ?_⟩
    obtain ⟨hcolumn0, hlt⟩ := Finset.mem_Ico.1 hcolumn
    refine (not_disjoint_refAt_iff hshape hrow hcolumn0 hlt htill hearlier).1 ?_
    rw [← free_iff_disjoint h]
    exact hfirst.first column hcolumn0 hlt
  · rintro ⟨hclear, hheld⟩
    refine ⟨h0, by omega, hfits.2 hclear, fun column hcolumn0 hlt => ?_⟩
    rw [free_iff_disjoint h]
    exact (not_disjoint_refAt_iff hshape hrow hcolumn0 hlt htill hearlier).2
      (hheld column (Finset.mem_Ico.2 ⟨hcolumn0, hlt⟩))

/-- A tile that is clear and held is what its cell is placed as, where its slots are admitted. -/
theorem place_eq_add (h : building.Sound rowCount limits.maxColumns)
    (hshape : Shaped rowCount step.rowIndex step.cell tile) (hrow : (step.rowIndex : ℤ) < rowCount)
    (h0 : 0 ≤ tile.columnFrom) (htill : tile.columnTill ≤ limits.maxColumns)
    (hearlier : ∀ ref ∈ building.cells, ref.rowFrom ≤ step.rowIndex)
    (hclear : tile.Clear building.taken) (hheld : tile.Held building.taken)
    (hadmits : admits building.occupiedSlotCountSoFar tile.area = true) :
    place rowCount limits.maxColumns admits building step = building.add (refOf step tile) := by
  have hcolumn := (isFirst_iff h hshape hrow h0 htill hearlier).2 ⟨hclear, hheld⟩
  rcases placeCell_cases h.length hrow limits.maxColumns_le admits step.cellIndex step.cell with
    ⟨column, hcolumn', heq⟩ | ⟨hnone, -⟩
  · obtain rfl := hcolumn'.unique hcolumn
    rw [refAt_eq_refOf hshape h0 htill] at heq
    exact heq.trans (if_pos hadmits)
  · exact absurd hcolumn.fits (hnone _ hcolumn.nonneg hcolumn.lt)

/-- **What a step does, against a tile**: it lays the tile out, which is then clear and held; or
nothing; or its cell elsewhere. -/
theorem place_cases (h : building.Sound rowCount limits.maxColumns)
    (hshape : Shaped rowCount step.rowIndex step.cell tile) (hrow : (step.rowIndex : ℤ) < rowCount)
    (h0 : 0 ≤ tile.columnFrom) (htill : tile.columnTill ≤ limits.maxColumns)
    (hearlier : ∀ ref ∈ building.cells, ref.rowFrom ≤ step.rowIndex) (admits : ℤ → ℤ → Bool) :
    (place rowCount limits.maxColumns admits building step = building.add (refOf step tile)
        ∧ tile.Clear building.taken ∧ tile.Held building.taken)
      ∨ place rowCount limits.maxColumns admits building step = building
      ∨ ∃ column, place rowCount limits.maxColumns admits building step = building.add
          (refAt rowCount limits.maxColumns step.rowIndex step.cellIndex step.cell column)
        ∧ column ≠ tile.columnFrom := by
  rcases placeCell_cases h.length hrow limits.maxColumns_le admits step.cellIndex step.cell with
    ⟨column, hcolumn, heq⟩ | ⟨-, heq⟩
  · by_cases hadmits : admits building.occupiedSlotCountSoFar
        (refAt rowCount limits.maxColumns step.rowIndex step.cellIndex step.cell column).area = true
    · rw [if_pos hadmits] at heq
      by_cases hsame : column = tile.columnFrom
      · rw [hsame] at hcolumn
        rw [hsame, refAt_eq_refOf hshape h0 htill] at heq
        exact .inl ⟨heq, (isFirst_iff h hshape hrow h0 htill hearlier).1 hcolumn⟩
      · exact .inr (.inr ⟨column, heq, hsame⟩)
    · rw [if_neg hadmits] at heq
      exact .inr (.inl heq)
  · exact .inr (.inl heq)

end OneCell

/-! ## A run -/

theorem taken_add (building : Building) (ref : TableGridCellReference) :
    (building.add ref).taken = building.taken ∪ ref.slots := by
  ext slot
  simp only [Building.taken, Building.add, List.map_append, List.map_singleton, mem_covered,
    List.mem_append, List.mem_singleton, or_and_right, exists_or, exists_eq_left, Finset.mem_union]

/-- A run adds cells of a part of its steps, each from some column on. -/
theorem run_sublist (h : building.Sound rowCount maxColumns) (hmax : maxColumns ≤ intMax)
    (admits : ℤ → ℤ → Bool) {list : List (CellStep Text)}
    (hrows : ∀ step ∈ list, (step.rowIndex : ℤ) < rowCount) :
    ∃ placed later, (list.foldl (place rowCount maxColumns admits) building).cells =
        building.cells ++ later
      ∧ placed.Sublist list
      ∧ List.Forall₂ (fun (step : CellStep Text) ref => ∃ column,
        ref = refAt rowCount maxColumns step.rowIndex step.cellIndex step.cell column)
          placed later := by
  induction list generalizing building with
  | nil => exact ⟨[], [], (List.append_nil _).symm, .slnil, .nil⟩
  | cons step list ih =>
    obtain ⟨hstep, hlist⟩ := List.forall_mem_cons.1 hrows
    obtain ⟨placed, later, hlater, hsublist, hof⟩ :=
      ih (h.step hmax hstep admits step.cellIndex step.cell) hlist
    rw [List.foldl_cons]
    rcases place_cells h.length hmax admits hstep with hcells | ⟨column, hcells⟩
    · exact ⟨placed, later, by rw [← hcells]; exact hlater, hsublist.cons _, hof⟩
    · refine ⟨step :: placed, _ :: later, ?_, hsublist.cons_cons _, .cons ⟨column, rfl⟩ hof⟩
      rw [List.append_cons, ← hcells]
      exact hlater

theorem area_refOf (step : CellStep Text) (tile : Tile Text) :
    (refOf step tile).area = tile.area := rfl

theorem area_nonneg {tile : Tile Text} {rowIndex : ℕ} {cell : TableCell Text}
    (hshape : Shaped rowCount rowIndex cell tile) (hrow : (rowIndex : ℤ) < rowCount) :
    0 ≤ tile.area := by
  have hspan := one_le_normalizeTableSpan cell.colspan
  have hrows := clampTableSpan_pos (Int.natCast_nonneg rowIndex) hrow cell.rowspan
  have hrowTill := hshape.rowTill
  have hcolumnTill := hshape.columnTill
  rw [clampTableRowspan, ← hshape.rowFrom] at hrowTill
  rw [← hshape.rowFrom] at hrows
  exact Int.mul_nonneg (by omega) (by omega)

theorem sum_area_nonneg {list : List (CellStep Text)} {tiles : List (Tile Text)}
    (hshape : List.Forall₂ (fun (step : CellStep Text) tile =>
      Shaped rowCount step.rowIndex step.cell tile) list tiles)
    (hrows : ∀ step ∈ list, (step.rowIndex : ℤ) < rowCount) : 0 ≤ (tiles.map Tile.area).sum := by
  induction hshape with
  | nil => exact le_rfl
  | cons hstep _ ih =>
    obtain ⟨hrow, hrows⟩ := List.forall_mem_cons.1 hrows
    rw [List.map_cons, List.sum_cons]
    exact Int.add_nonneg (area_nonneg hstep hrow) (ih hrows)

/-- What is placed before a step starts in no later row, and so does the cell of the step. -/
theorem earlier_add {step : CellStep Text} {tile : Tile Text} {list : List (CellStep Text)}
    (hshape : Shaped rowCount step.rowIndex step.cell tile)
    (horder : (step :: list).Pairwise fun a b => a.rowIndex ≤ b.rowIndex)
    (hearlier : ∀ ref ∈ building.cells, ∀ later ∈ step :: list, ref.rowFrom ≤ later.rowIndex) :
    ∀ ref ∈ (building.add (refOf step tile)).cells, ∀ later ∈ list,
      ref.rowFrom ≤ later.rowIndex := by
  intro ref hmem later hlater
  rcases List.mem_append.1 hmem with hold | hnew
  · exact hearlier ref hold later (List.mem_cons_of_mem step hlater)
  · obtain rfl := List.mem_singleton.1 hnew
    have hle := (List.pairwise_cons.1 horder).1 later hlater
    have hrowFrom := hshape.rowFrom
    change tile.rowFrom ≤ _
    omega

/-- **A run that lays tiles out as they are** had each clear of what came before it and held in
place by it. -/
theorem clear_held_of_run {list : List (CellStep Text)} {tiles : List (Tile Text)}
    {limits : MarkdownPrepareTableRenderLimits} (h : building.Sound rowCount limits.maxColumns)
    (hshape : List.Forall₂ (fun (step : CellStep Text) tile =>
      Shaped rowCount step.rowIndex step.cell tile) list tiles)
    (hrows : ∀ step ∈ list, (step.rowIndex : ℤ) < rowCount)
    (horder : list.Pairwise fun a b => a.rowIndex ≤ b.rowIndex)
    (hearlier : ∀ ref ∈ building.cells, ∀ step ∈ list, ref.rowFrom ≤ step.rowIndex)
    (hbounds : ∀ tile ∈ tiles, 0 ≤ tile.columnFrom ∧ tile.columnTill ≤ limits.maxColumns)
    (hcells : (list.foldl (place rowCount limits.maxColumns admits) building).cells =
      building.cells ++ List.zipWith refOf list tiles) :
    AllClear building.taken tiles ∧ AllHeld building.taken tiles := by
  induction hshape generalizing building with
  | nil => exact ⟨trivial, trivial⟩
  | @cons step tile list tiles hstep hshape ih =>
    obtain ⟨hrow, hrows⟩ := List.forall_mem_cons.1 hrows
    obtain ⟨⟨h0, htill⟩, hbounds⟩ := List.forall_mem_cons.1 hbounds
    have hstarts : ∀ ref ∈ building.cells, ref.rowFrom ≤ step.rowIndex := fun ref hmem =>
      hearlier ref hmem step (List.mem_cons_self ..)
    have hnext : (place rowCount limits.maxColumns admits building step).Sound rowCount
        limits.maxColumns := h.step limits.maxColumns_le hrow admits step.cellIndex step.cell
    obtain ⟨placed, later, hlater, hsublist, hof⟩ :=
      run_sublist hnext limits.maxColumns_le admits hrows
    have hfinal := hcells
    rw [List.foldl_cons, List.zipWith_cons_cons, hlater] at hcells
    rcases place_cases h hstep hrow h0 htill hstarts admits with
      ⟨hadd, hclear, hheld⟩ | hsame | ⟨column, hother, hne⟩
    · rw [List.foldl_cons, List.zipWith_cons_cons, hadd, List.append_cons] at hfinal
      obtain ⟨hclears, hhelds⟩ := ih (hadd ▸ hnext) hrows (List.pairwise_cons.1 horder).2
        (earlier_add hstep horder hearlier) hbounds hfinal
      rw [taken_add] at hclears hhelds
      exact ⟨⟨hclear, hclears⟩, hheld, hhelds⟩
    · -- The steps that are left do not suffice for the tiles.
      rw [hsame, List.append_cancel_left_eq] at hcells
      have hlengths := congrArg List.length hcells
      have hlength := hsublist.length_le
      rw [List.length_cons, List.length_zipWith, ← hshape.length_eq, min_self,
        ← hof.length_eq] at hlengths
      omega
    · rw [hother, Building.add, List.append_assoc, List.append_cancel_left_eq,
        List.singleton_append] at hcells
      exact absurd (congrArg TableGridCellReference.columnFrom (List.cons.inj hcells).1) hne

/-- **A run lays out tiles as they are**, if each is clear of what comes before it and held in place
by it and their slots are admitted. -/
theorem run_eq_of_clear_held {list : List (CellStep Text)} {tiles : List (Tile Text)}
    {limits : MarkdownPrepareTableRenderLimits} (h : building.Sound rowCount limits.maxColumns)
    (hshape : List.Forall₂ (fun (step : CellStep Text) tile =>
      Shaped rowCount step.rowIndex step.cell tile) list tiles)
    (hrows : ∀ step ∈ list, (step.rowIndex : ℤ) < rowCount)
    (horder : list.Pairwise fun a b => a.rowIndex ≤ b.rowIndex)
    (hearlier : ∀ ref ∈ building.cells, ∀ step ∈ list, ref.rowFrom ≤ step.rowIndex)
    (hbounds : ∀ tile ∈ tiles, 0 ≤ tile.columnFrom ∧ tile.columnTill ≤ limits.maxColumns)
    (hcount : building.occupiedSlotCountSoFar + (tiles.map Tile.area).sum ≤ limits.maxCells)
    (hclears : AllClear building.taken tiles) (hhelds : AllHeld building.taken tiles) :
    (list.foldl (place rowCount limits.maxColumns limits.admits) building).cells =
      building.cells ++ List.zipWith refOf list tiles := by
  induction hshape generalizing building with
  | nil => exact (List.append_nil _).symm
  | @cons step tile list tiles hstep hshape ih =>
    obtain ⟨hrow, hrows⟩ := List.forall_mem_cons.1 hrows
    obtain ⟨⟨h0, htill⟩, hbounds⟩ := List.forall_mem_cons.1 hbounds
    obtain ⟨hclear, hclears⟩ := hclears
    obtain ⟨hheld, hhelds⟩ := hhelds
    have hstarts : ∀ ref ∈ building.cells, ref.rowFrom ≤ step.rowIndex := fun ref hmem =>
      hearlier ref hmem step (List.mem_cons_self ..)
    have hareas := sum_area_nonneg hshape hrows
    rw [List.map_cons, List.sum_cons] at hcount
    have hadmits := admits_of_le (h.count ▸ Int.natCast_nonneg _)
      (show building.occupiedSlotCountSoFar + tile.area ≤ limits.maxCells by omega)
    have hadd := place_eq_add h hstep hrow h0 htill hstarts hclear hheld hadmits
    have hnext : (place rowCount limits.maxColumns limits.admits building step).Sound rowCount
        limits.maxColumns := h.step limits.maxColumns_le hrow limits.admits step.cellIndex step.cell
    rw [hadd] at hnext
    have hcount' : (building.add (refOf step tile)).occupiedSlotCountSoFar
        + (tiles.map Tile.area).sum ≤ limits.maxCells := by
      change building.occupiedSlotCountSoFar + tile.area + _ ≤ _
      omega
    have htaken : (building.add (refOf step tile)).taken = building.taken ∪ tile.slots :=
      taken_add building (refOf step tile)
    rw [List.foldl_cons, List.zipWith_cons_cons, hadd, List.append_cons]
    exact ih hnext hrows (List.pairwise_cons.1 horder).2 (earlier_add hstep horder hearlier) hbounds
      hcount' (by rwa [htaken]) (by rwa [htaken])

end Yunogram.Iv.Editor
