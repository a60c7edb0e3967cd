import Yunogram.Iv.FinalSubmitSteps

/-!
# Iv/FinalSubmitContent — what a tree of blocks has to send

What normalizing leaves out and what it reports, told from the blocks alone: the blocks below a
block (`Block.nested`), those that have real content (`Block.ownReal`), and those of which nothing
is left (`vanishes`).

* `anyReal_iff` — real content is reported exactly when some block of the tree has it. *
`all_trimmable_eq` — a block is left out, or trimmed at an edge, exactly when it vanishes; and then
it has no real content. -/

namespace Yunogram.Iv.FinalSubmit

open Markdown (Unicode)

/-! ## Trees -/

/-- The blocks that normalizing a block goes into. -/
def Block.nested (block : Block) : List Block :=
  match shape block.own.kind with
  | .line | .math | .table => []
  | .quote | .details => block.blocks
  | .list => block.listItems.flatMap (·.blocks)
  | .other => block.blocks ++ block.listItems.flatMap (·.blocks)

/-- A block somewhere in such trees. -/
inductive Within (blocks : List Block) : Block → Prop
  | here {block : Block} (h : block ∈ blocks) : Within blocks block
  | deeper {block child : Block} (h : Within blocks block) (hchild : child ∈ block.nested) :
    Within blocks child

/-- Paragraphs are leaves.  Neither the parser nor the editor puts anything below a paragraph. -/
inductive WellFormed : Block → Prop
  | intro {block : Block}
    (leaf : block.own.kind = .paragraph →
      block.blocks = [] ∧ block.listItems = [] ∧ block.own.tableRows = [])
    (nested : ∀ child ∈ block.nested, WellFormed child) : WellFormed block

/-- The blocks of a `RichPage`. -/
structure RichPage where
  blocks : List Block
  wellFormed : ∀ block ∈ blocks, WellFormed block

theorem mem_nested_of_mem_blocks {block child : Block} (hchild : child ∈ block.blocks)
    (h : shape block.own.kind = .quote ∨ shape block.own.kind = .details ∨
      shape block.own.kind = .other) : child ∈ block.nested := by
  rcases h with h | h | h <;> simp [Block.nested, h, hchild]

theorem mem_nested_of_mem_items {block child : Block} {item : ListItem Block}
    (hitem : item ∈ block.listItems) (hchild : child ∈ item.blocks)
    (h : shape block.own.kind = .list ∨ shape block.own.kind = .other) :
    child ∈ block.nested := by
  have hmem : child ∈ block.listItems.flatMap (·.blocks) :=
    List.mem_flatMap.2 ⟨item, hitem, hchild⟩
  rcases h with h | h <;> simp only [Block.nested, h]
  · exact hmem
  · exact List.mem_append_right _ hmem

/-- A block of the trees is a root or below one. -/
theorem within_iff {blocks : List Block} {block : Block} :
    Within blocks block ↔ ∃ root ∈ blocks, block = root ∨ Within root.nested block := by
  refine ⟨fun h => ?_, ?_⟩
  · induction h with
    | here h => exact ⟨_, h, Or.inl rfl⟩
    | deeper _ hchild ih =>
      obtain ⟨root, hroot, rfl | hnested⟩ := ih
      · exact ⟨_, hroot, Or.inr (Within.here hchild)⟩
      · exact ⟨root, hroot, Or.inr (hnested.deeper hchild)⟩
  · rintro ⟨root, hroot, rfl | hnested⟩
    · exact Within.here hroot
    · induction hnested with
      | here h => exact (Within.here hroot).deeper h
      | deeper _ hchild ih => exact ih.deeper hchild

section

variable (unicode : Unicode) (context : SerializeContext)

/-- A block has real content of its own, in its text, its items, its cells or its media.  The
caption of a quote and the titles of tables and details do not count. -/
def Block.ownReal (block : Block) : Bool :=
  match shape block.own.kind with
  | .line | .quote => richTextHasVisibleText unicode block.own.text
  | .math => !stringIsEmpty unicode block.own.formula
  | .list => block.listItems.any fun item => richTextHasVisibleText unicode item.text
  | .table => rowsVisible unicode block.own.tableRows
  | .details => false
  | .other =>
    (block.listItems.any fun item => richTextHasVisibleText unicode item.text)
      || rowsVisible unicode block.own.tableRows
      || blockHasOwnMeaningfulContent unicode context block.own

mutual

/-- Nothing is left of the block at an edge: it is empty, or an empty paragraph. -/
def vanishes : Block → Bool
  | ⟨own, blocks, listItems⟩ =>
    match shape own.kind with
    | .line => !richTextHasVisibleText unicode own.text
    | .math => stringIsEmpty unicode own.formula
    | .quote => !richTextHasVisibleText unicode own.text && allVanish blocks
    | .list => listItems.isEmpty
    | .table => !rowsVisible unicode own.tableRows
    | .details => allVanish blocks
    | .other => paragraphHasTrimmableEdges unicode ⟨own, blocks, listItems⟩

/-- Nothing is left of all the blocks. -/
def allVanish : List Block → Bool
  | [] => true
  | block :: rest => vanishes block && allVanish rest

end

variable {unicode context}

theorem allVanish_eq_all (blocks : List Block) :
    allVanish unicode blocks = blocks.all (vanishes unicode) := by
  induction blocks with
  | nil => rw [allVanish, List.all_nil]
  | cons block rest ih => rw [allVanish, List.all_cons, ih]

theorem vanishes_eq (block : Block) :
    vanishes unicode block
      = match shape block.own.kind with
        | .line => !richTextHasVisibleText unicode block.own.text
        | .math => stringIsEmpty unicode block.own.formula
        | .quote =>
          !richTextHasVisibleText unicode block.own.text
            && block.blocks.all (vanishes unicode)
        | .list => block.listItems.isEmpty
        | .table => !rowsVisible unicode block.own.tableRows
        | .details => block.blocks.all (vanishes unicode)
        | .other => paragraphHasTrimmableEdges unicode block := by
  rcases block with ⟨own, blocks, listItems⟩
  rw [vanishes, allVanish_eq_all]

/-! ## Real content -/

/-- The flag of a block: its own content, or that of the blocks below it. -/
theorem real_eq (block : Block) :
    (normalizeFinalSubmitBlock unicode context block).hasRealContent
      = (block.ownReal unicode context || anyReal unicode context block.nested) := by
  have hitems : ∀ items : List (ListItem Block),
      itemsReal unicode context items
        = ((items.any fun item => richTextHasVisibleText unicode item.text)
          || anyReal unicode context (items.flatMap (·.blocks))) := by
    intro items
    rw [itemsReal]
    induction items with
    | nil => rfl
    | cons item rest ih =>
      rw [List.any_cons, List.any_cons, List.flatMap_cons, ih]
      simp only [anyReal, List.any_append]
      ac_rfl
  rw [Block.ownReal, Block.nested]
  rcases h : shape block.own.kind with _ | _ | _ | _ | _ | _ | _
  · rw [normalizeFinalSubmitBlock_eq, h]
    rcases richTextHasVisibleText unicode block.own.text <;> simp [anyReal]
  · rw [normalizeFinalSubmitBlock_eq, h]
    rcases stringIsEmpty unicode block.own.formula <;> simp [anyReal]
  · rw [(quote_eq h).2]
    exact Bool.or_comm _ _
  · rw [(list_eq h).2, hitems]
  · rw [(table_eq h).2]
    simp [anyReal]
  · rw [(details_eq h).2, Bool.false_or]
  · rw [(other_eq h).2, hitems]
    simp only [anyReal, List.any_append]
    ac_rfl

/-- **Real content is reported exactly when some block of the trees has it.** -/
theorem anyReal_iff {blocks : List Block} (hblocks : ∀ block ∈ blocks, WellFormed block) :
    anyReal unicode context blocks = true
      ↔ ∃ block, Within blocks block ∧ block.ownReal unicode context = true := by
  have hroot : ∀ root, WellFormed root →
      ((normalizeFinalSubmitBlock unicode context root).hasRealContent = true
        ↔ ∃ block, (block = root ∨ Within root.nested block) ∧
          block.ownReal unicode context = true) := by
    intro root hroot
    induction hroot with
    | @intro root _ _ ih =>
      rw [real_eq, Bool.or_eq_true]
      refine ⟨?_, ?_⟩
      · rintro (hown | hnested)
        · exact ⟨root, Or.inl rfl, hown⟩
        · obtain ⟨child, hchild, hreal⟩ := List.any_eq_true.1 hnested
          obtain ⟨block, hblock, hown⟩ := (ih child hchild).1 hreal
          exact ⟨block, Or.inr (within_iff.2 ⟨child, hchild, hblock⟩), hown⟩
      · rintro ⟨block, rfl | hblock, hown⟩
        · exact Or.inl hown
        · obtain ⟨child, hchild, hwithin⟩ := within_iff.1 hblock
          exact Or.inr (List.any_eq_true.2
            ⟨child, hchild, (ih child hchild).2 ⟨block, hwithin, hown⟩⟩)
  rw [anyReal, List.any_eq_true]
  refine ⟨?_, ?_⟩
  · rintro ⟨root, hmem, hreal⟩
    obtain ⟨block, hblock, hown⟩ := (hroot root (hblocks root hmem)).1 hreal
    exact ⟨block, within_iff.2 ⟨root, hmem, hblock⟩, hown⟩
  · rintro ⟨block, hblock, hown⟩
    obtain ⟨root, hmem, hwithin⟩ := within_iff.1 hblock
    exact ⟨root, hmem, (hroot root (hblocks root hmem)).2 ⟨block, hwithin, hown⟩⟩

/-! ## Blocks of which nothing is left -/

/-- Only paragraphs are trimmed. -/
theorem not_trimmable_of_shape {block : Block} (h : shape block.own.kind ≠ .other) :
    paragraphHasTrimmableEdges unicode block = false := by
  have hkind : block.own.kind ≠ .paragraph := fun hkind => h (by rw [hkind]; rfl)
  simp [paragraphHasTrimmableEdges, hkind]

/-- A block of such a kind is trimmed only when it is left out. -/
theorem all_trimmable_ite {left : Bool} {block : Block} (h : shape block.own.kind ≠ .other) :
    (if left = true then none else some block).all (paragraphHasTrimmableEdges unicode)
      = left := by
  cases left
  · exact not_trimmable_of_shape h
  · rfl

/-- Nothing is left of trimmed blocks exactly when each is left out or trimmed. -/
theorem keptBlocks_eq_nil_iff {atFront : Bool} {blocks : List Block} :
    keptBlocks unicode context atFront blocks = []
      ↔ ∀ block ∈ blocks, (normalizeFinalSubmitBlock unicode context block).value.all
        (paragraphHasTrimmableEdges unicode) = true := by
  rw [keptBlocks, Machinery.trimEdges_eq_nil_iff]
  simp only [survivors, List.mem_filterMap, Option.all_eq_true]
  exact ⟨fun h block hblock kept hkept => h kept ⟨block, hblock, hkept⟩,
    fun h kept hex => hex.elim fun block hmem => h block hmem.1 kept hmem.2⟩

/-- **What vanishes.**  A block is left out, or trimmed at an edge, exactly when it vanishes; and
then it has no real content. -/
theorem all_trimmable_eq {block : Block} (h : WellFormed block) :
    (normalizeFinalSubmitBlock unicode context block).value.all (paragraphHasTrimmableEdges unicode)
        = vanishes unicode block ∧
      (vanishes unicode block = true →
        (normalizeFinalSubmitBlock unicode context block).hasRealContent = false) := by
  induction h with
  | @intro block leaf _ ih =>
    have hnone : block.nested.all (vanishes unicode) = true →
        anyReal unicode context block.nested = false := by
      intro hall
      rw [anyReal, List.any_eq_false]
      intro child hchild
      rw [(ih child hchild).2 (List.all_eq_true.1 hall child hchild)]
      exact Bool.false_ne_true
    have hkept : ∀ atFront, (keptBlocks unicode context atFront block.nested).isEmpty
        = block.nested.all (vanishes unicode) := by
      intro atFront
      rw [Bool.eq_iff_iff, List.isEmpty_iff, keptBlocks_eq_nil_iff, List.all_eq_true]
      exact forall₂_congr fun child hchild => by rw [(ih child hchild).1]
    rw [vanishes_eq]
    rcases hshape : shape block.own.kind with _ | _ | _ | _ | _ | _ | _
    · rw [normalizeFinalSubmitBlock_eq, hshape]
      rcases richTextHasVisibleText unicode block.own.text
      · exact ⟨rfl, fun _ => rfl⟩
      · exact ⟨not_trimmable_of_shape (by simp [hshape]), fun h => by simp at h⟩
    · rw [normalizeFinalSubmitBlock_eq, hshape]
      rcases stringIsEmpty unicode block.own.formula
      · exact ⟨not_trimmable_of_shape (by simp [hshape]), fun h => by simp at h⟩
      · exact ⟨rfl, fun _ => rfl⟩
    · have hnested : block.nested = block.blocks := by rw [Block.nested, hshape]
      rw [hnested] at hnone hkept
      rw [value_eq, (quote_eq hshape).2, Block.leftOut, Block.kept, hshape,
        all_trimmable_ite (by simp [hshape])]
      dsimp only
      rw [hkept]
      rcases hall : block.blocks.all (vanishes unicode)
      · simp
      · rw [hnone hall]
        simp
    · rw [value_eq, (list_eq hshape).2, Block.leftOut, Block.kept, hshape,
        all_trimmable_ite (by simp [hshape])]
      exact ⟨rfl, fun hnil => by simp [itemsReal, List.isEmpty_iff.1 hnil]⟩
    · rw [value_eq, (table_eq hshape).2, Block.leftOut, Block.kept, hshape,
        all_trimmable_ite (by simp [hshape])]
      exact ⟨rfl, fun hnone => by simpa using hnone⟩
    · have hnested : block.nested = block.blocks := by rw [Block.nested, hshape]
      rw [hnested] at hnone hkept
      rw [value_eq, (details_eq hshape).2, Block.leftOut, Block.kept, hshape,
        all_trimmable_ite (by simp [hshape])]
      dsimp only
      rw [hkept]
      exact ⟨rfl, hnone⟩
    · rw [value_eq, (other_eq hshape).2, Block.leftOut, Block.kept, hshape]
      refine ⟨rfl, fun hempty => ?_⟩
      obtain ⟨hleaf, htext⟩ := Bool.and_eq_true_iff.1 hempty
      have hkind : block.own.kind = .paragraph := by simpa using (Bool.and_eq_true_iff.1 hleaf).1
      obtain ⟨hblocks, hitems, hrows⟩ := leaf hkind
      have hvisible : richTextHasVisibleText unicode block.own.text = false := by
        simp [richTextHasVisibleText, (Bool.and_eq_true_iff.1 htext).1]
      simp [hblocks, hitems, hrows, anyReal, itemsReal, rowsVisible, blockHasOwnMeaningfulContent,
        hkind, hvisible]

end

end Yunogram.Iv.FinalSubmit
