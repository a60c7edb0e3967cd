import Yunogram.Iv.FinalSubmitContent

/-!
# Iv/FinalSubmitStable — normalizing again changes nothing

A block that stays is left as it is the second time, with the same flag (`stable`): its text was
cleared only where it is empty, what is left of the blocks below it stays and has nothing to trim at
its edges, and what was left out had no real content.

* `stable` — one block.
* `normalizeFinalSubmitBlocks_again` — the blocks of a page. -/

namespace Yunogram.Iv.FinalSubmit

open Markdown (Unicode)
open Machinery (trimEdges_trimEdges any_trimEdges mem_of_mem_trimEdges)

section

variable (unicode : Unicode) (context : SerializeContext)

/-- What stays of the block is left as it is the second time. -/
def Stable (block : Block) : Prop :=
  block.leftOut unicode context = false →
    (normalizeFinalSubmitBlock unicode context (block.kept unicode context)).value
        = some (block.kept unicode context) ∧
      (normalizeFinalSubmitBlock unicode context (block.kept unicode context)).hasRealContent
        = (normalizeFinalSubmitBlock unicode context block).hasRealContent

variable {unicode context}

/-! ## Texts and rows -/

theorem structurallyEmpty_surfaceText {trims : Bool} {text : RichText} {blocks : List Block}
    (h : trims = true → richTextIsStructurallyEmpty unicode text = true) :
    richTextIsStructurallyEmpty unicode (surfaceText trims text blocks)
      = richTextIsStructurallyEmpty unicode text := by
  rw [surfaceText]
  split
  · next hcleared =>
    rw [h (Bool.and_eq_true_iff.1 hcleared).1]
    simp [richTextIsStructurallyEmpty, stringIsEmpty, richTextHasAnchorPayload, Unicode.trimmed]
  · rfl

/-- A text is cleared once. -/
theorem surfaceText_surfaceText {trims : Bool} {text : RichText} {blocks kept : List Block}
    (h : blocks = [] → kept = []) :
    surfaceText trims (surfaceText trims text blocks) kept = surfaceText trims text blocks := by
  by_cases hnil : blocks = []
  · simp [surfaceText, hnil, h hnil]
  · have hne : blocks.isEmpty = false := by simpa using hnil
    cases trims
    · rfl
    · simp [surfaceText, hne]

theorem filledRows_filledRows (rows : List TableRow) :
    filledRows (filledRows rows) = filledRows rows := by
  simp [filledRows, List.filter_filter]

theorem rowsVisible_filledRows (rows : List TableRow) :
    rowsVisible unicode (filledRows rows) = rowsVisible unicode rows := by
  rw [rowsVisible, filledRows, List.any_filter, rowsVisible]
  congr 1
  funext row
  rcases row with ⟨_ | ⟨cell, rest⟩⟩ <;> simp

/-! ## Lists of blocks -/

theorem mem_survivors {blocks : List Block} {kept : Block} :
    kept ∈ survivors unicode context blocks
      ↔ ∃ block ∈ blocks, block.leftOut unicode context = false ∧
        block.kept unicode context = kept := by
  rw [survivors, List.mem_filterMap]
  refine exists_congr fun block => and_congr_right fun _ => ?_
  rw [value_eq]
  rcases block.leftOut unicode context <;> simp

/-- What is left of such blocks stays. -/
theorem keptBlocks_keptBlocks {blocks : List Block}
    (h : ∀ block ∈ blocks, Stable unicode context block) (atFront : Bool) :
    keptBlocks unicode context atFront (keptBlocks unicode context atFront blocks)
      = keptBlocks unicode context atFront blocks := by
  have hsome : ∀ kept ∈ keptBlocks unicode context atFront blocks,
      (normalizeFinalSubmitBlock unicode context kept).value = some kept := by
    intro kept hkept
    obtain ⟨block, hblock, hleft, rfl⟩ := mem_survivors.1 (mem_of_mem_trimEdges _ _ hkept)
    exact (h block hblock hleft).1
  have hsurvivors : survivors unicode context (keptBlocks unicode context atFront blocks)
      = keptBlocks unicode context atFront blocks := by
    rw [survivors, List.filterMap_congr hsome, List.filterMap_some]
  rw [keptBlocks, hsurvivors, keptBlocks, trimEdges_trimEdges]

/-- What is left of such blocks has real content when they have. -/
theorem anyReal_keptBlocks {blocks : List Block}
    (h : ∀ block ∈ blocks, Stable unicode context block)
    (hwell : ∀ block ∈ blocks, WellFormed block) (atFront : Bool) :
    anyReal unicode context (keptBlocks unicode context atFront blocks)
      = anyReal unicode context blocks := by
  have hvanish : ∀ block ∈ blocks,
      (normalizeFinalSubmitBlock unicode context block).value.all
        (paragraphHasTrimmableEdges unicode) = true →
      (normalizeFinalSubmitBlock unicode context block).hasRealContent = false := by
    intro block hblock hall
    obtain ⟨heq, hreal⟩ := @all_trimmable_eq unicode context _
      (hwell block hblock)
    exact hreal (heq ▸ hall)
  have hsurvivors : anyReal unicode context (survivors unicode context blocks)
      = anyReal unicode context blocks := by
    rw [anyReal, survivors, List.any_filterMap, anyReal, Bool.eq_iff_iff, List.any_eq_true,
      List.any_eq_true]
    refine exists_congr fun block => and_congr_right fun hblock => ?_
    rcases hleft : block.leftOut unicode context
    · simp [value_eq, hleft, (h block hblock hleft).2]
    · rw [hvanish block hblock (by simp [value_eq, hleft])]
      simp [value_eq, hleft]
  rw [← hsurvivors]
  refine any_trimEdges _ _ fun kept hkept htrims => ?_
  obtain ⟨block, hblock, hleft, rfl⟩ := mem_survivors.1 hkept
  rw [(h block hblock hleft).2]
  exact hvanish block hblock (by simp [value_eq, hleft, htrims])

/-- No blocks are left of none. -/
theorem keptBlocks_of_nil {blocks : List Block} (atFront : Bool) (h : blocks = []) :
    keptBlocks unicode context atFront blocks = [] := by
  rw [h, keptBlocks, survivors, List.filterMap_nil, Machinery.trimEdges_nil]

/-! ## List items -/

/-- A list item is left as it is the second time. -/
theorem keptItem_keptItem {item : ListItem Block}
    (h : ∀ block ∈ item.blocks, Stable unicode context block) :
    keptItem unicode context (keptItem unicode context item) = keptItem unicode context item := by
  have hempty : (item.anchorId.isEmpty && richTextIsStructurallyEmpty unicode item.text) = true →
      richTextIsStructurallyEmpty unicode item.text = true :=
    fun htrims => (Bool.and_eq_true_iff.1 htrims).2
  simp only [keptItem]
  rw [structurallyEmpty_surfaceText hempty, surfaceText_surfaceText (keptBlocks_of_nil _),
    keptBlocks_keptBlocks h]

theorem map_keptItem_keptItem {items : List (ListItem Block)}
    (h : ∀ item ∈ items, ∀ block ∈ item.blocks, Stable unicode context block) :
    (items.map (keptItem unicode context)).map (keptItem unicode context)
      = items.map (keptItem unicode context) := by
  rw [List.map_map]
  exact List.map_congr_left fun item hitem => keptItem_keptItem (h item hitem)

/-- What is left of list items has real content when they have. -/
theorem itemsReal_keptItem {items : List (ListItem Block)}
    (h : ∀ item ∈ items, ∀ block ∈ item.blocks, Stable unicode context block)
    (hwell : ∀ item ∈ items, ∀ block ∈ item.blocks, WellFormed block) :
    itemsReal unicode context (items.map (keptItem unicode context))
      = itemsReal unicode context items := by
  rw [itemsReal, itemsReal, List.any_map, Bool.eq_iff_iff, List.any_eq_true, List.any_eq_true]
  refine exists_congr fun item => and_congr_right fun hitem => ?_
  simp only [Function.comp_apply, keptItem]
  rw [visible_surfaceText fun htrims => (Bool.and_eq_true_iff.1 htrims).2,
    anyReal_keptBlocks (h item hitem) (hwell item hitem)]

/-! ## One block -/

theorem shape_kept (block : Block) :
    shape (block.kept unicode context).own.kind = shape block.own.kind := by
  rcases h : shape block.own.kind <;> simp only [Block.kept, h]

/-- The text of a quote was cleared only where it is empty. -/
theorem quote_trims {block : Block}
    (h : (richTextIsStructurallyEmpty unicode block.own.text && !block.own.pullquote) = true) :
    richTextIsStructurallyEmpty unicode block.own.text = true :=
  (Bool.and_eq_true_iff.1 h).1

theorem kept_kept {block : Block} (h : ∀ child ∈ block.nested, Stable unicode context child) :
    (block.kept unicode context).kept unicode context = block.kept unicode context := by
  rcases hshape : shape block.own.kind with _ | _ | _ | _ | _ | _ | _
  · simp only [Block.kept, hshape]
  · simp only [Block.kept, hshape]
  · simp only [Block.kept, hshape]
    rw [structurallyEmpty_surfaceText quote_trims, surfaceText_surfaceText (keptBlocks_of_nil _),
      keptBlocks_keptBlocks
        fun child hchild => h child (mem_nested_of_mem_blocks hchild (by simp [hshape]))]
  · simp only [Block.kept, hshape]
    rw [map_keptItem_keptItem fun item hitem child hchild =>
      h child (mem_nested_of_mem_items hitem hchild (by simp [hshape]))]
  · simp only [Block.kept, hshape]
    rw [filledRows_filledRows]
  · simp only [Block.kept, hshape]
    rw [keptBlocks_keptBlocks
      fun child hchild => h child (mem_nested_of_mem_blocks hchild (by simp [hshape]))]
  · simp only [Block.kept, hshape]
    rw [filledRows_filledRows, keptBlocks_keptBlocks
        fun child hchild => h child (mem_nested_of_mem_blocks hchild (by simp [hshape])),
      map_keptItem_keptItem fun item hitem child hchild =>
        h child (mem_nested_of_mem_items hitem hchild (by simp [hshape]))]

/-- What stays of a block has the flag of the block. -/
theorem real_kept {block : Block} (h : ∀ child ∈ block.nested, Stable unicode context child)
    (hwell : ∀ child ∈ block.nested, WellFormed child) :
    (normalizeFinalSubmitBlock unicode context (block.kept unicode context)).hasRealContent
      = (normalizeFinalSubmitBlock unicode context block).hasRealContent := by
  have hkind := @shape_kept unicode context block
  rcases hshape : shape block.own.kind with _ | _ | _ | _ | _ | _ | _
  · rw [Block.kept, hshape]
  · rw [Block.kept, hshape]
  · rw [(quote_eq (hkind.trans hshape)).2, (quote_eq hshape).2]
    simp only [Block.kept, hshape]
    rw [visible_surfaceText quote_trims, anyReal_keptBlocks
      (fun child hchild => h child (mem_nested_of_mem_blocks hchild (by simp [hshape])))
      (fun child hchild => hwell child (mem_nested_of_mem_blocks hchild (by simp [hshape])))]
  · rw [(list_eq (hkind.trans hshape)).2, (list_eq hshape).2]
    simp only [Block.kept, hshape]
    rw [itemsReal_keptItem
      (fun item hitem child hchild =>
        h child (mem_nested_of_mem_items hitem hchild (by simp [hshape])))
      (fun item hitem child hchild =>
        hwell child (mem_nested_of_mem_items hitem hchild (by simp [hshape])))]
  · rw [(table_eq (hkind.trans hshape)).2, (table_eq hshape).2]
    simp only [Block.kept, hshape]
    rw [rowsVisible_filledRows]
  · rw [(details_eq (hkind.trans hshape)).2, (details_eq hshape).2]
    simp only [Block.kept, hshape]
    rw [anyReal_keptBlocks
      (fun child hchild => h child (mem_nested_of_mem_blocks hchild (by simp [hshape])))
      (fun child hchild => hwell child (mem_nested_of_mem_blocks hchild (by simp [hshape])))]
  · rw [(other_eq (hkind.trans hshape)).2, (other_eq hshape).2]
    simp only [Block.kept, hshape]
    rw [rowsVisible_filledRows, anyReal_keptBlocks
        (fun child hchild => h child (mem_nested_of_mem_blocks hchild (by simp [hshape])))
        (fun child hchild => hwell child (mem_nested_of_mem_blocks hchild (by simp [hshape]))),
      itemsReal_keptItem
        (fun item hitem child hchild =>
          h child (mem_nested_of_mem_items hitem hchild (by simp [hshape])))
        (fun item hitem child hchild =>
          hwell child (mem_nested_of_mem_items hitem hchild (by simp [hshape])))]
    rfl

/-- What stays of a block is left out no more than the block. -/
theorem leftOut_kept {block : Block} (h : ∀ child ∈ block.nested, Stable unicode context child)
    (hwell : ∀ child ∈ block.nested, WellFormed child) :
    (block.kept unicode context).leftOut unicode context = block.leftOut unicode context := by
  have hkept := kept_kept h
  have hreal := real_kept h hwell
  have hkind := @shape_kept unicode context block
  rcases hshape : shape block.own.kind with _ | _ | _ | _ | _ | _ | _
  · simp only [Block.kept, hshape]
  · simp only [Block.kept, hshape]
  · rw [(quote_eq (hkind.trans hshape)).2, (quote_eq hshape).2] at hreal
    rw [Block.leftOut, hkind, hshape, hkept, hreal, Block.leftOut, hshape]
  · rw [Block.leftOut, hkind, hshape, Block.leftOut, hshape]
    simp only [Block.kept, hshape, List.isEmpty_map]
  · rw [Block.leftOut, hkind, hshape, Block.leftOut, hshape]
    simp only [Block.kept, hshape, rowsVisible_filledRows]
  · rw [Block.leftOut, hkind, hshape, hkept, Block.leftOut, hshape]
  · rw [Block.leftOut, hkind, hshape, Block.leftOut, hshape]

/-- **A block that stays is left as it is the second time.** -/
theorem stable {block : Block} (h : WellFormed block) : Stable unicode context block := by
  induction h with
  | intro _ hwell ih =>
    intro hleft
    refine ⟨?_, real_kept ih hwell⟩
    rw [value_eq, leftOut_kept ih hwell, hleft, kept_kept ih]
    rfl

/-! ## The blocks of a page -/

theorem normalizeFinalSubmitBlocks_value (blocks : List Block) :
    (normalizeFinalSubmitBlocks unicode context blocks).value
      = keptBlocks unicode context true blocks := finished_value blocks true

theorem normalizeFinalSubmitBlocks_real (blocks : List Block) :
    (normalizeFinalSubmitBlocks unicode context blocks).hasRealContent
      = anyReal unicode context blocks := finished_real blocks true

/-- **Normalizing again changes nothing**, neither the blocks nor the flag. -/
theorem normalizeFinalSubmitBlocks_again (page : RichPage) :
    let result := normalizeFinalSubmitBlocks unicode context page.blocks
    let again := normalizeFinalSubmitBlocks unicode context result.value
    again.value = result.value ∧ again.hasRealContent = result.hasRealContent := by
  have hstable : ∀ block ∈ page.blocks, Stable unicode context block :=
    fun block hblock => stable (page.wellFormed block hblock)
  dsimp only
  rw [normalizeFinalSubmitBlocks_value, normalizeFinalSubmitBlocks_real,
    normalizeFinalSubmitBlocks_value, normalizeFinalSubmitBlocks_real,
    keptBlocks_keptBlocks hstable, anyReal_keptBlocks hstable page.wellFormed]
  exact ⟨rfl, rfl⟩

end

end Yunogram.Iv.FinalSubmit
