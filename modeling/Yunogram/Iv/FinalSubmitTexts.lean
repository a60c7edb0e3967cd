import Yunogram.Iv.FinalSubmitStable
import Yunogram.Machinery.KeptParts

/-!
# Iv/FinalSubmitTexts — which visible texts normalizing loses

The flag of real content looks at the text of a quote, at the cells of a table and at what is below
details, and a block without it is left out.  The caption of a quote and the titles of tables and
details are not looked at.  So a block that shows nothing else (`Block.hollow`) is left out with
its visible text.

* `texts_eq_iff` — these are the only texts lost.
* `normalized_right_iff` — when a page is normalized as it should be. -/

namespace Yunogram.Iv.FinalSubmit

open Markdown (Unicode)
open Machinery (append_eq_append_iff flatMap_eq_flatMap_iff)

section

variable (unicode : Unicode) (context : SerializeContext)

/-! ## Visible texts -/

/-- The text, if it is visible. -/
def visibleText (text : RichText) : List QString :=
  if richTextHasVisibleText unicode text then [text.text.text] else []

/-- The visible texts of the cells. -/
def cellTexts (rows : List TableRow) : List QString :=
  rows.flatMap fun row => row.cells.flatMap fun cell => visibleText unicode cell.text

mutual

/-- The visible texts of a block and of what is below it, from the first to the last: its text or
title, its formula, its cells, and the caption of a quote. -/
def visibleTexts : Block → List QString
  | ⟨own, blocks, listItems⟩ =>
    match shape own.kind with
    | .line => visibleText unicode own.text
    | .math => if stringIsEmpty unicode own.formula then [] else [own.formula]
    | .quote =>
      visibleText unicode own.text ++ eachVisibleTexts blocks ++ visibleText unicode own.caption
    | .list => itemsVisibleTexts listItems
    | .table => visibleText unicode own.text ++ cellTexts unicode own.tableRows
    | .details => visibleText unicode own.text ++ eachVisibleTexts blocks
    | .other =>
      visibleText unicode own.text ++ eachVisibleTexts blocks ++ itemsVisibleTexts listItems
        ++ cellTexts unicode own.tableRows

/-- The visible texts of blocks. -/
def eachVisibleTexts : List Block → List QString
  | [] => []
  | block :: rest => visibleTexts block ++ eachVisibleTexts rest

/-- The visible texts of a list item. -/
def itemVisibleTexts : ListItem Block → List QString
  | ⟨text, _, blocks⟩ => visibleText unicode text ++ eachVisibleTexts blocks

/-- The visible texts of list items. -/
def itemsVisibleTexts : List (ListItem Block) → List QString
  | [] => []
  | item :: rest => itemVisibleTexts item ++ itemsVisibleTexts rest

end

/-- A block that vanishes although its caption or its title is visible: a quote with neither text
nor blocks that stay, a table with no visible cell, details with no blocks that stay. -/
def Block.hollow (block : Block) : Bool :=
  match shape block.own.kind with
  | .quote => richTextHasVisibleText unicode block.own.caption && vanishes unicode block
  | .table | .details => richTextHasVisibleText unicode block.own.text && vanishes unicode block
  | _ => false

/-- No block of the tree is hollow. -/
def HollowFree (block : Block) : Prop :=
  ∀ inner, inner = block ∨ Within block.nested inner → inner.hollow unicode = false

/-- The visible texts of what stays of a block. -/
def keptTexts (block : Block) : List QString :=
  if block.leftOut unicode context then
    []
  else
    visibleTexts unicode (block.kept unicode context)

variable {unicode context}

theorem eachVisibleTexts_eq (blocks : List Block) :
    eachVisibleTexts unicode blocks = blocks.flatMap (visibleTexts unicode) := by
  induction blocks with
  | nil => rw [eachVisibleTexts, List.flatMap_nil]
  | cons block rest ih => rw [eachVisibleTexts, List.flatMap_cons, ih]

theorem itemsVisibleTexts_eq (items : List (ListItem Block)) :
    itemsVisibleTexts unicode items
      = items.flatMap fun item => visibleText unicode item.text
        ++ item.blocks.flatMap (visibleTexts unicode) := by
  induction items with
  | nil => rw [itemsVisibleTexts, List.flatMap_nil]
  | cons item rest ih =>
    rw [itemsVisibleTexts, List.flatMap_cons, ih, itemVisibleTexts, eachVisibleTexts_eq]

theorem visibleTexts_eq (block : Block) :
    visibleTexts unicode block
      = match shape block.own.kind with
        | .line => visibleText unicode block.own.text
        | .math => if stringIsEmpty unicode block.own.formula then [] else [block.own.formula]
        | .quote =>
          visibleText unicode block.own.text ++ block.blocks.flatMap (visibleTexts unicode)
            ++ visibleText unicode block.own.caption
        | .list => itemsVisibleTexts unicode block.listItems
        | .table =>
          visibleText unicode block.own.text ++ cellTexts unicode block.own.tableRows
        | .details =>
          visibleText unicode block.own.text ++ block.blocks.flatMap (visibleTexts unicode)
        | .other =>
          visibleText unicode block.own.text ++ block.blocks.flatMap (visibleTexts unicode)
            ++ itemsVisibleTexts unicode block.listItems
            ++ cellTexts unicode block.own.tableRows := by
  rcases block with ⟨own, blocks, listItems⟩
  rw [visibleTexts, eachVisibleTexts_eq]

theorem visibleText_of_empty {text : RichText} (h : richTextHasVisibleText unicode text = false) :
    visibleText unicode text = [] := by
  rw [visibleText, h]
  rfl

/-- A cleared text was none to be seen. -/
theorem visibleText_surfaceText {trims : Bool} {text : RichText} {blocks : List Block}
    (h : trims = true → richTextIsStructurallyEmpty unicode text = true) :
    visibleText unicode (surfaceText trims text blocks) = visibleText unicode text := by
  have hvisible := @visible_surfaceText unicode _ _ blocks h
  rcases hseen : richTextHasVisibleText unicode text
  · rw [visibleText_of_empty hseen, visibleText_of_empty (hvisible.trans hseen)]
  · have htrims : trims = false := by
      by_contra htrims
      have hempty := h (by simpa using htrims)
      rw [richTextHasVisibleText, (Bool.and_eq_true_iff.1 hempty).1] at hseen
      exact Bool.false_ne_true hseen
    rw [surfaceText, htrims]
    rfl

/-- The rows without cells have no text. -/
theorem cellTexts_filledRows (rows : List TableRow) :
    cellTexts unicode (filledRows rows) = cellTexts unicode rows := by
  induction rows with
  | nil => rfl
  | cons row rest ih =>
    rw [filledRows, List.filter_cons]
    rcases row with ⟨_ | ⟨cell, cells⟩⟩
    · simpa [cellTexts, filledRows] using ih
    · simpa [cellTexts, filledRows] using ih

theorem cellTexts_of_not_visible {rows : List TableRow}
    (h : rowsVisible unicode rows = false) : cellTexts unicode rows = [] := by
  rw [cellTexts, List.flatMap_eq_nil_iff]
  intro row hrow
  rw [List.flatMap_eq_nil_iff]
  intro cell hcell
  refine visibleText_of_empty ?_
  rw [rowsVisible, List.any_eq_false] at h
  have hrows := h row hrow
  rw [List.any_eq_true, not_exists] at hrows
  simpa [hcell] using hrows cell

/-! ## What is kept of the texts -/

/-- A trimmed paragraph has no visible text, on no level. -/
theorem visibleTexts_of_trimmable {block : Block} (hwell : WellFormed block)
    (h : paragraphHasTrimmableEdges unicode (block.kept unicode context) = true) :
    visibleTexts unicode (block.kept unicode context) = [] := by
  obtain ⟨leaf, -⟩ := hwell
  obtain ⟨hparagraph, htext⟩ := Bool.and_eq_true_iff.1 h
  have hkept : (block.kept unicode context).own.kind = .paragraph := by
    simpa using (Bool.and_eq_true_iff.1 hparagraph).1
  have hshape : shape block.own.kind = .other := by
    rw [← @shape_kept unicode context, hkept]
    rfl
  have hkind : block.own.kind = .paragraph := by
    rw [← hkept, Block.kept, hshape]
  obtain ⟨hblocks, hitems, hrows⟩ := leaf hkind
  have hvisible : visibleText unicode (block.kept unicode context).own.text = [] :=
    visibleText_of_empty (by simp [richTextHasVisibleText, (Bool.and_eq_true_iff.1 htext).1])
  rw [visibleTexts_eq, (shape_kept block).trans hshape]
  dsimp only
  rw [hvisible]
  simp only [Block.kept, hshape]
  rw [keptBlocks_of_nil true hblocks, hitems, hrows, itemsVisibleTexts_eq]
  rfl

theorem texts_survivors (blocks : List Block) :
    (survivors unicode context blocks).flatMap (visibleTexts unicode)
      = blocks.flatMap (keptTexts unicode context) := by
  induction blocks with
  | nil => rfl
  | cons block rest ih =>
    rw [survivors, List.filterMap_cons, value_eq, List.flatMap_cons, ← ih, keptTexts]
    rcases block.leftOut unicode context <;> rfl

/-- What is kept of the texts of blocks. -/
theorem texts_keptBlocks {blocks : List Block} (hwell : ∀ block ∈ blocks, WellFormed block)
    (atFront : Bool) :
    (keptBlocks unicode context atFront blocks).flatMap (visibleTexts unicode)
      = blocks.flatMap (keptTexts unicode context) := by
  rw [keptBlocks, Machinery.flatMap_trimEdges]
  · exact texts_survivors blocks
  · intro kept hkept htrims
    obtain ⟨block, hblock, -, rfl⟩ := mem_survivors.1 hkept
    exact visibleTexts_of_trimmable (hwell block hblock) htrims

/-- Blocks other than leaves are left out when they vanish. -/
theorem leftOut_eq_vanishes {block : Block} (hwell : WellFormed block)
    (hshape : shape block.own.kind ≠ .other) :
    block.leftOut unicode context = vanishes unicode block := by
  have hall := (@all_trimmable_eq unicode context _ hwell).1
  rwa [value_eq, all_trimmable_ite (by rwa [shape_kept])] at hall

/-- Nothing is kept of the texts of a block that vanishes. -/
theorem keptTexts_of_vanishes {block : Block} (hwell : WellFormed block)
    (h : vanishes unicode block = true) : keptTexts unicode context block = [] := by
  have hall := (@all_trimmable_eq unicode context _ hwell).1
  rw [h, value_eq] at hall
  rw [keptTexts]
  rcases hleft : block.leftOut unicode context
  · rw [hleft] at hall
    exact visibleTexts_of_trimmable hwell hall
  · rfl

theorem keptTexts_of_allVanish {blocks : List Block} (hwell : ∀ block ∈ blocks, WellFormed block)
    (h : blocks.all (vanishes unicode) = true) :
    blocks.flatMap (keptTexts unicode context) = [] := by
  rw [List.flatMap_eq_nil_iff]
  exact fun block hblock =>
    keptTexts_of_vanishes (hwell block hblock) (List.all_eq_true.1 h block hblock)

theorem itemsVisibleTexts_keptItem {items : List (ListItem Block)}
    (hwell : ∀ item ∈ items, ∀ block ∈ item.blocks, WellFormed block) :
    itemsVisibleTexts unicode (items.map (keptItem unicode context))
      = items.flatMap fun item => visibleText unicode item.text
        ++ item.blocks.flatMap (keptTexts unicode context) := by
  rw [itemsVisibleTexts_eq, List.flatMap_map]
  refine List.flatMap_congr fun item hitem => ?_
  simp only [keptItem]
  rw [visibleText_surfaceText fun htrims => (Bool.and_eq_true_iff.1 htrims).2,
    texts_keptBlocks (hwell item hitem)]

/-- **What is kept of the texts of one block.**  When it is left out, only a caption or a title can
be lost with it. -/
theorem keptTexts_eq {block : Block} (hwell : WellFormed block) :
    keptTexts unicode context block
      = match shape block.own.kind with
        | .line => visibleText unicode block.own.text
        | .math => if stringIsEmpty unicode block.own.formula then [] else [block.own.formula]
        | .quote =>
          visibleText unicode block.own.text
            ++ block.blocks.flatMap (keptTexts unicode context)
            ++ if vanishes unicode block then [] else visibleText unicode block.own.caption
        | .list =>
          block.listItems.flatMap fun item => visibleText unicode item.text
            ++ item.blocks.flatMap (keptTexts unicode context)
        | .table =>
          (if vanishes unicode block then [] else visibleText unicode block.own.text)
            ++ cellTexts unicode block.own.tableRows
        | .details =>
          (if vanishes unicode block then [] else visibleText unicode block.own.text)
            ++ block.blocks.flatMap (keptTexts unicode context)
        | .other =>
          visibleText unicode block.own.text
            ++ block.blocks.flatMap (keptTexts unicode context)
            ++ (block.listItems.flatMap fun item => visibleText unicode item.text
              ++ item.blocks.flatMap (keptTexts unicode context))
            ++ cellTexts unicode block.own.tableRows := by
  obtain ⟨-, hnested⟩ := id hwell
  have hblocks : ∀ atFront, (shape block.own.kind = .quote ∨ shape block.own.kind = .details ∨
      shape block.own.kind = .other) →
      (keptBlocks unicode context atFront block.blocks).flatMap (visibleTexts unicode)
        = block.blocks.flatMap (keptTexts unicode context) :=
    fun atFront h => texts_keptBlocks
      (fun child hchild => hnested child (mem_nested_of_mem_blocks hchild h)) atFront
  have hitems : (shape block.own.kind = .list ∨ shape block.own.kind = .other) →
      itemsVisibleTexts unicode (block.listItems.map (keptItem unicode context))
        = block.listItems.flatMap fun item => visibleText unicode item.text
          ++ item.blocks.flatMap (keptTexts unicode context) :=
    fun h => itemsVisibleTexts_keptItem
      fun item hitem child hchild => hnested child (mem_nested_of_mem_items hitem hchild h)
  have hkind := @shape_kept unicode context block
  rw [keptTexts, visibleTexts_eq, hkind]
  rcases hshape : shape block.own.kind with _ | _ | _ | _ | _ | _ | _
  · rw [Block.leftOut, Block.kept, hshape]
    rcases hvisible : richTextHasVisibleText unicode block.own.text
    · exact (visibleText_of_empty hvisible).symm
    · rfl
  · rw [Block.leftOut, Block.kept, hshape]
    rcases stringIsEmpty unicode block.own.formula <;> rfl
  · rw [leftOut_eq_vanishes hwell (by simp [hshape])]
    rcases hvanishes : vanishes unicode block
    · simp only [Block.kept, hshape]
      rw [visibleText_surfaceText quote_trims, hblocks _ (by simp [hshape])]
      rfl
    · rw [vanishes_eq, hshape, Bool.and_eq_true_iff] at hvanishes
      rw [@visibleText_of_empty _ block.own.text (by simpa using hvanishes.1),
        keptTexts_of_allVanish
        (fun child hchild => hnested child (mem_nested_of_mem_blocks hchild (by simp [hshape])))
        hvanishes.2]
      rfl
  · rw [Block.leftOut, hshape]
    simp only [Block.kept, hshape]
    rw [hitems (by simp [hshape])]
    rcases hnil : block.listItems with _ | ⟨item, rest⟩ <;> rfl
  · rw [leftOut_eq_vanishes hwell (by simp [hshape])]
    rcases hvanishes : vanishes unicode block
    · simp only [Block.kept, hshape]
      rw [cellTexts_filledRows]
      rfl
    · rw [vanishes_eq, hshape] at hvanishes
      rw [@cellTexts_of_not_visible _ block.own.tableRows (by simpa using hvanishes)]
      rfl
  · rw [leftOut_eq_vanishes hwell (by simp [hshape])]
    rcases hvanishes : vanishes unicode block
    · simp only [Block.kept, hshape]
      rw [hblocks _ (by simp [hshape])]
      rfl
    · rw [vanishes_eq, hshape] at hvanishes
      rw [keptTexts_of_allVanish
        (fun child hchild => hnested child (mem_nested_of_mem_blocks hchild (by simp [hshape])))
        hvanishes]
      rfl
  · rw [Block.leftOut, hshape]
    simp only [Block.kept, hshape]
    rw [hblocks _ (by simp [hshape]), hitems (by simp [hshape]), cellTexts_filledRows]
    rfl

/-! ## Which texts are lost -/

theorem hollowFree_iff {block : Block} :
    HollowFree unicode block
      ↔ block.hollow unicode = false ∧ ∀ child ∈ block.nested, HollowFree unicode child := by
  refine ⟨fun h => ⟨h block (Or.inl rfl), fun child hchild inner hinner => ?_⟩, ?_⟩
  · exact h inner (Or.inr (within_iff.2 ⟨child, hchild, hinner⟩))
  · rintro ⟨hblock, hnested⟩ inner (rfl | hinner)
    · exact hblock
    · obtain ⟨child, hchild, hwithin⟩ := within_iff.1 hinner
      exact hnested child hchild inner hwithin

theorem shown_sublist (gone : Bool) (texts : List QString) :
    (if gone then [] else texts).Sublist texts := by
  rcases gone <;> simp

/-- A caption or a title is lost when it is visible on a block that vanishes. -/
theorem shown_eq_iff (gone : Bool) (text : RichText) :
    (if gone then [] else visibleText unicode text) = visibleText unicode text
      ↔ (richTextHasVisibleText unicode text && gone) = false := by
  rcases gone
  · simp
  · rw [visibleText]
    rcases richTextHasVisibleText unicode text <;> simp

/-- What list items lose: what the blocks below them lose. -/
theorem items_step {items : List (ListItem Block)}
    (ih : ∀ item ∈ items, ∀ child ∈ item.blocks,
      (keptTexts unicode context child).Sublist (visibleTexts unicode child)) :
    (items.flatMap fun item => visibleText unicode item.text
        ++ item.blocks.flatMap (keptTexts unicode context)).Sublist
          (itemsVisibleTexts unicode items) ∧
      ((items.flatMap fun item => visibleText unicode item.text
          ++ item.blocks.flatMap (keptTexts unicode context)) = itemsVisibleTexts unicode items
        ↔ ∀ item ∈ items, ∀ child ∈ item.blocks,
          keptTexts unicode context child = visibleTexts unicode child) := by
  have hblocks : ∀ item ∈ items, (item.blocks.flatMap (keptTexts unicode context)).Sublist
      (item.blocks.flatMap (visibleTexts unicode)) :=
    fun item hitem => List.Sublist.flatMap_right _ (ih item hitem)
  have hitems : ∀ item ∈ items, (visibleText unicode item.text
      ++ item.blocks.flatMap (keptTexts unicode context)).Sublist
        (visibleText unicode item.text ++ item.blocks.flatMap (visibleTexts unicode)) :=
    fun item hitem => (List.Sublist.refl _).append (hblocks item hitem)
  rw [itemsVisibleTexts_eq]
  refine ⟨List.Sublist.flatMap_right _ hitems, ?_⟩
  rw [flatMap_eq_flatMap_iff hitems]
  refine forall₂_congr fun item hitem => ?_
  rw [append_eq_append_iff (List.Sublist.refl _) (hblocks item hitem),
    flatMap_eq_flatMap_iff (ih item hitem)]
  exact and_iff_right rfl

/-- What one block loses: its caption or title when it is hollow, and what the blocks below it
lose. -/
theorem texts_step {block : Block} (hwell : WellFormed block)
    (ih : ∀ child ∈ block.nested,
      (keptTexts unicode context child).Sublist (visibleTexts unicode child)) :
    (keptTexts unicode context block).Sublist (visibleTexts unicode block) ∧
      (keptTexts unicode context block = visibleTexts unicode block
        ↔ block.hollow unicode = false ∧ ∀ child ∈ block.nested,
          keptTexts unicode context child = visibleTexts unicode child) := by
  have hblocks : (shape block.own.kind = .quote ∨ shape block.own.kind = .details ∨
      shape block.own.kind = .other) → ∀ child ∈ block.blocks,
      (keptTexts unicode context child).Sublist (visibleTexts unicode child) :=
    fun h child hchild => ih child (mem_nested_of_mem_blocks hchild h)
  have hitems : (shape block.own.kind = .list ∨ shape block.own.kind = .other) →
      ∀ item ∈ block.listItems, ∀ child ∈ item.blocks,
      (keptTexts unicode context child).Sublist (visibleTexts unicode child) :=
    fun h item hitem child hchild => ih child (mem_nested_of_mem_items hitem hchild h)
  rw [keptTexts_eq hwell, visibleTexts_eq, Block.hollow, Block.nested]
  rcases hshape : shape block.own.kind with _ | _ | _ | _ | _ | _ | _
  · simp
  · simp
  · have hbelow := List.Sublist.flatMap_right _ (hblocks (by simp [hshape]))
    have hshown := shown_sublist (vanishes unicode block) (visibleText unicode block.own.caption)
    refine ⟨((List.Sublist.refl _).append hbelow).append hshown, ?_⟩
    rw [append_eq_append_iff ((List.Sublist.refl _).append hbelow) hshown,
      append_eq_append_iff (List.Sublist.refl _) hbelow, shown_eq_iff,
      flatMap_eq_flatMap_iff (hblocks (by simp [hshape]))]
    tauto
  · obtain ⟨hsub, heq⟩ := items_step (hitems (by simp [hshape]))
    refine ⟨hsub, heq.trans ?_⟩
    simp only [List.mem_flatMap, true_and]
    exact ⟨fun h child hex => hex.elim fun item hmem => h item hmem.1 child hmem.2,
      fun h item hitem child hchild => h child ⟨item, hitem, hchild⟩⟩
  · have hshown := shown_sublist (vanishes unicode block) (visibleText unicode block.own.text)
    refine ⟨hshown.append (List.Sublist.refl _), ?_⟩
    rw [append_eq_append_iff hshown (List.Sublist.refl _), shown_eq_iff]
    simp
  · have hbelow := List.Sublist.flatMap_right _ (hblocks (by simp [hshape]))
    have hshown := shown_sublist (vanishes unicode block) (visibleText unicode block.own.text)
    refine ⟨hshown.append hbelow, ?_⟩
    rw [append_eq_append_iff hshown hbelow, shown_eq_iff,
      flatMap_eq_flatMap_iff (hblocks (by simp [hshape]))]
  · have hbelow := List.Sublist.flatMap_right _ (hblocks (by simp [hshape]))
    obtain ⟨hsub, heq⟩ := items_step (hitems (by simp [hshape]))
    have hfront := (List.Sublist.refl (visibleText unicode block.own.text)).append hbelow
    refine ⟨(hfront.append hsub).append (List.Sublist.refl _), ?_⟩
    rw [append_eq_append_iff (hfront.append hsub) (List.Sublist.refl _),
      append_eq_append_iff hfront hsub, append_eq_append_iff (List.Sublist.refl _) hbelow, heq,
      flatMap_eq_flatMap_iff (hblocks (by simp [hshape]))]
    simp only [List.mem_append, List.mem_flatMap, true_and, and_true]
    refine ⟨?_, fun h => ⟨fun child hchild => h child (Or.inl hchild),
      fun item hitem child hchild => h child (Or.inr ⟨item, hitem, hchild⟩)⟩⟩
    rintro ⟨hone, htwo⟩ child (hchild | ⟨item, hitem, hchild⟩)
    · exact hone child hchild
    · exact htwo item hitem child hchild

/-- **The texts that are lost.**  What is kept of the texts of a block is all of them exactly when
no block of its tree is hollow. -/
theorem texts_eq_iff {block : Block} (hwell : WellFormed block) :
    (keptTexts unicode context block).Sublist (visibleTexts unicode block) ∧
      (keptTexts unicode context block = visibleTexts unicode block
        ↔ HollowFree unicode block) := by
  induction hwell with
  | intro leaf hnested ih =>
    obtain ⟨hsub, heq⟩ := texts_step (WellFormed.intro leaf hnested)
      fun child hchild => (ih child hchild).1
    refine ⟨hsub, heq.trans (Iff.trans ?_ hollowFree_iff.symm)⟩
    exact and_congr_right fun _ => forall₂_congr fun child hchild => (ih child hchild).2

end

end Yunogram.Iv.FinalSubmit
