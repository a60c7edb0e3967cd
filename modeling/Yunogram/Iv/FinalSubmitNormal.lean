import Yunogram.Iv.FinalSubmitTexts
import Yunogram.Iv.LocalLinkContainment

/-!
# Iv/FinalSubmitNormal — when a page is normalized as it should be

Normalizing a page should be idempotent, keep the order of what it keeps, and lose no visible text
of a page that has something to send.  The order is always kept (`prunedBlocks_kept`), and
normalizing again never changes anything; the visible texts are kept exactly when no block is
hollow.

* `normalized_right_iff` — when a page is normalized as it should be.
* `title_lost` — a page of which the title of empty details is lost. -/

namespace Yunogram.Iv.FinalSubmit

open Markdown (Unicode)

/-! ## The order of what is kept -/

mutual

/-- A block of which rows, and blocks on every level, may be left out, and texts cleared. -/
inductive Pruned : Block → Block → Prop
  | intro {block kept : Block}
    (own : kept.own =
      { block.own with text := kept.own.text, tableRows := kept.own.tableRows })
    (text : kept.own.text = block.own.text ∨ kept.own.text = {})
    (rows : kept.own.tableRows.Sublist block.own.tableRows)
    (blocks : PrunedBlocks block.blocks kept.blocks)
    (items : PrunedItems block.listItems kept.listItems) : Pruned block kept

/-- Some of the blocks, pruned, in their order. -/
inductive PrunedBlocks : List Block → List Block → Prop
  | nil : PrunedBlocks [] []
  | skip {block : Block} {blocks kept : List Block} (h : PrunedBlocks blocks kept) :
    PrunedBlocks (block :: blocks) kept
  | keep {block first : Block} {blocks kept : List Block} (hfirst : Pruned block first)
    (h : PrunedBlocks blocks kept) : PrunedBlocks (block :: blocks) (first :: kept)

/-- All of the list items, pruned. -/
inductive PrunedItems : List (ListItem Block) → List (ListItem Block) → Prop
  | nil : PrunedItems [] []
  | cons {item first : ListItem Block} {items kept : List (ListItem Block)}
    (anchorId : first.anchorId = item.anchorId)
    (text : first.text = item.text ∨ first.text = {})
    (blocks : PrunedBlocks item.blocks first.blocks)
    (h : PrunedItems items kept) : PrunedItems (item :: items) (first :: kept)

end

mutual

theorem Pruned.refl : (block : Block) → Pruned block block
  | ⟨_, blocks, listItems⟩ =>
    .intro rfl (Or.inl rfl) (List.Sublist.refl _) (PrunedBlocks.refl blocks)
      (PrunedItems.refl listItems)

theorem PrunedBlocks.refl : (blocks : List Block) → PrunedBlocks blocks blocks
  | [] => .nil
  | block :: rest => .keep (Pruned.refl block) (PrunedBlocks.refl rest)

theorem PrunedItems.refl : (items : List (ListItem Block)) → PrunedItems items items
  | [] => .nil
  | ⟨_, _, blocks⟩ :: rest =>
    .cons rfl (Or.inl rfl) (PrunedBlocks.refl blocks) (PrunedItems.refl rest)

end

/-- Leaving out more of the blocks keeps their order. -/
theorem PrunedBlocks.sublist {blocks kept fewer : List Block} (h : PrunedBlocks blocks kept)
    (hfewer : fewer.Sublist kept) : PrunedBlocks blocks fewer := by
  induction blocks generalizing kept fewer with
  | nil =>
    cases h
    rw [List.sublist_nil.1 hfewer]
    exact .nil
  | cons block rest ih =>
    cases h with
    | skip h => exact .skip (ih h hfewer)
    | keep hfirst h =>
      cases hfewer with
      | cons _ hfewer => exact .skip (ih h hfewer)
      | cons_cons _ hfewer => exact .keep hfirst (ih h hfewer)

section

variable {unicode : Unicode} {context : SerializeContext}

theorem prunedBlocks_kept {blocks : List Block}
    (h : ∀ block ∈ blocks, Pruned block (block.kept unicode context)) (atFront : Bool) :
    PrunedBlocks blocks (keptBlocks unicode context atFront blocks) := by
  refine PrunedBlocks.sublist ?_ (Machinery.trimEdges_sublist _ _ _)
  induction blocks with
  | nil => exact .nil
  | cons block rest ih =>
    have hrest := ih fun other hother => h other (by simp [hother])
    rw [survivors, List.filterMap_cons, value_eq]
    rcases block.leftOut unicode context
    · exact .keep (h block (by simp)) hrest
    · exact .skip hrest

theorem surfaceText_eq_or (trims : Bool) (text : RichText) (blocks : List Block) :
    surfaceText trims text blocks = text ∨ surfaceText trims text blocks = {} := by
  rw [surfaceText]
  split
  · exact Or.inr rfl
  · exact Or.inl rfl

theorem prunedItems_kept {items : List (ListItem Block)}
    (h : ∀ item ∈ items, ∀ block ∈ item.blocks, Pruned block (block.kept unicode context)) :
    PrunedItems items (items.map (keptItem unicode context)) := by
  induction items with
  | nil => exact .nil
  | cons item rest ih =>
    refine .cons rfl (surfaceText_eq_or _ _ _) (prunedBlocks_kept (h item (by simp)) _) ?_
    exact ih fun other hother => h other (by simp [hother])

/-- What stays of a block is the block, pruned. -/
theorem pruned_kept {block : Block} (hwell : WellFormed block) :
    Pruned block (block.kept unicode context) := by
  induction hwell with
  | @intro block _ _ ih =>
    have hblocks : (shape block.own.kind = .quote ∨ shape block.own.kind = .details ∨
        shape block.own.kind = .other) → ∀ atFront,
        PrunedBlocks block.blocks (keptBlocks unicode context atFront block.blocks) :=
      fun h atFront => prunedBlocks_kept
        (fun child hchild => ih child (mem_nested_of_mem_blocks hchild h)) atFront
    have hitems : (shape block.own.kind = .list ∨ shape block.own.kind = .other) →
        PrunedItems block.listItems (block.listItems.map (keptItem unicode context)) :=
      fun h => prunedItems_kept
        fun item hitem child hchild => ih child (mem_nested_of_mem_items hitem hchild h)
    have hrows : (filledRows block.own.tableRows).Sublist block.own.tableRows :=
      List.filter_sublist
    have hself := Pruned.refl block
    rcases hshape : shape block.own.kind with _ | _ | _ | _ | _ | _ | _ <;>
      simp only [Block.kept, hshape]
    · exact hself
    · exact hself
    · exact .intro rfl (surfaceText_eq_or _ _ _) (List.Sublist.refl _)
        (hblocks (by simp [hshape]) _) (PrunedItems.refl _)
    · exact .intro rfl (Or.inl rfl) (List.Sublist.refl _) (PrunedBlocks.refl _)
        (hitems (by simp [hshape]))
    · exact .intro rfl (Or.inl rfl) hrows (PrunedBlocks.refl _) (PrunedItems.refl _)
    · exact .intro rfl (Or.inl rfl) (List.Sublist.refl _) (hblocks (by simp [hshape]) _)
        (PrunedItems.refl _)
    · exact .intro rfl (Or.inl rfl) hrows (hblocks (by simp [hshape]) _)
        (hitems (by simp [hshape]))

end

/-! ## Pages -/

section

variable (unicode : Unicode) (context : SerializeContext)

/-- Blocks are normalized as they should be: normalizing again changes neither the result nor the
flag, the order of what is kept is kept, and every visible text is found in the result, in its
order, unless nothing real is reported. -/
structure NormalizedRight (blocks : List Block) : Prop where
  again_value : (normalizeFinalSubmitBlocks unicode context
      (normalizeFinalSubmitBlocks unicode context blocks).value).value
    = (normalizeFinalSubmitBlocks unicode context blocks).value
  again_real : (normalizeFinalSubmitBlocks unicode context
      (normalizeFinalSubmitBlocks unicode context blocks).value).hasRealContent
    = (normalizeFinalSubmitBlocks unicode context blocks).hasRealContent
  ordered : PrunedBlocks blocks (normalizeFinalSubmitBlocks unicode context blocks).value
  nothing_lost : (normalizeFinalSubmitBlocks unicode context blocks).hasRealContent = true →
    (eachVisibleTexts unicode blocks).Sublist
      (eachVisibleTexts unicode (normalizeFinalSubmitBlocks unicode context blocks).value)

/-- **A page is normalized as it should be** exactly when no block of it has real content, or none
is hollow: no captioned quote, titled table or titled details of which nothing else stays. -/
theorem normalized_right_iff (page : RichPage) :
    NormalizedRight unicode context page.blocks
      ↔ (∃ block, Within page.blocks block ∧ block.ownReal unicode context = true) →
        ∀ block, Within page.blocks block → block.hollow unicode = false := by
  have htexts : eachVisibleTexts unicode
      (normalizeFinalSubmitBlocks unicode context page.blocks).value
        = page.blocks.flatMap (keptTexts unicode context) := by
    rw [normalizeFinalSubmitBlocks_value, eachVisibleTexts_eq, texts_keptBlocks page.wellFormed]
  have hsub : ∀ block ∈ page.blocks, (keptTexts unicode context block).Sublist
      (visibleTexts unicode block) :=
    fun block hblock => (texts_eq_iff (page.wellFormed block hblock)).1
  have hlost : (eachVisibleTexts unicode page.blocks).Sublist (eachVisibleTexts unicode
        (normalizeFinalSubmitBlocks unicode context page.blocks).value)
      ↔ ∀ block, Within page.blocks block → block.hollow unicode = false := by
    rw [htexts, eachVisibleTexts_eq]
    have hall := List.Sublist.flatMap_right page.blocks hsub
    refine ⟨fun h => ?_, fun h => ?_⟩
    · have heq := (Machinery.flatMap_eq_flatMap_iff hsub).1 (hall.antisymm h)
      intro block hblock
      obtain ⟨root, hroot, hwithin⟩ := within_iff.1 hblock
      exact (texts_eq_iff (page.wellFormed root hroot)).2.1 (heq root hroot) block hwithin
    · rw [(Machinery.flatMap_eq_flatMap_iff hsub).2]
      intro root hroot
      exact (texts_eq_iff (page.wellFormed root hroot)).2.2
        fun block hwithin => h block (within_iff.2 ⟨root, hroot, hwithin⟩)
  have hreal : (normalizeFinalSubmitBlocks unicode context page.blocks).hasRealContent = true
      ↔ ∃ block, Within page.blocks block ∧ block.ownReal unicode context = true := by
    rw [normalizeFinalSubmitBlocks_real, anyReal_iff page.wellFormed]
  rw [← hreal, ← hlost]
  refine ⟨fun h => h.nothing_lost, fun h => ?_⟩
  obtain ⟨hvalue, hagain⟩ := @normalizeFinalSubmitBlocks_again unicode
    context page
  refine ⟨hvalue, hagain, ?_, h⟩
  rw [normalizeFinalSubmitBlocks_value]
  exact prunedBlocks_kept (fun block hblock => pruned_kept (page.wellFormed block hblock)) true

end

/-- A paragraph, and details with a title and an empty paragraph. -/
theorem title_lost :
    let text (s : String) : RichText := { text := { text := ascii s } }
    let blocks : List Block :=
      [{ own := { kind := .paragraph, text := text "a" } },
        { own := { kind := .details, text := text "t" }
          blocks := [{ own := { kind := .paragraph } }] }]
    ¬NormalizedRight Markdown.asciiUnicode ⟨fun _ _ => false, fun _ _ => false⟩ blocks := by
  intro text blocks h
  exact absurd (h.nothing_lost (by decide +kernel)) (by decide +kernel)

end Yunogram.Iv.FinalSubmit
