import Yunogram.Iv.FinalSubmit

/-!
# Iv/FinalSubmitSteps — what normalizing does with one block

What is left below a block is what stays of its blocks (`survivors`), trimmed at the edges, and its
flag of real content is that of what is below it, or its own.

* `value_eq` — a block is left out (`Block.leftOut`), or this is what stays of it (`Block.kept`).
* `quote_eq`, `list_eq`, `table_eq`, `details_eq`, `other_eq` — each kind, with its flag. -/

namespace Yunogram.Iv.FinalSubmit

open Markdown (Unicode)
open Machinery (trimEdges)

section

variable (unicode : Unicode) (context : SerializeContext)

/-- What stays of blocks, before it is trimmed. -/
def survivors (blocks : List Block) : List Block :=
  blocks.filterMap fun block => (normalizeFinalSubmitBlock unicode context block).value

/-- Whether some of the blocks, normalized, have real content. -/
def anyReal (blocks : List Block) : Bool :=
  blocks.any fun block => (normalizeFinalSubmitBlock unicode context block).hasRealContent

/-- What stays of blocks, trimmed. -/
def keptBlocks (atFront : Bool) (blocks : List Block) : List Block :=
  trimEdges atFront (paragraphHasTrimmableEdges unicode) (survivors unicode context blocks)

/-- The text of a quote or a list item stays, unless it is trimmed as an empty paragraph. -/
def surfaceText (trims : Bool) (text : RichText) (blocks : List Block) : RichText :=
  if trims && !blocks.isEmpty then {} else text

/-- What stays of a list item. -/
def keptItem (item : ListItem Block) : ListItem Block :=
  let trims := item.anchorId.isEmpty && richTextIsStructurallyEmpty unicode item.text
  { text := surfaceText trims item.text item.blocks
    anchorId := item.anchorId
    blocks := keptBlocks unicode context trims item.blocks }

/-- Some item has a text that is seen, or real content below it. -/
def itemsReal (items : List (ListItem Block)) : Bool :=
  items.any fun item => richTextHasVisibleText unicode item.text
    || anyReal unicode context item.blocks

/-- Some cell of these rows is visible. -/
def rowsVisible (rows : List TableRow) : Bool :=
  rows.any fun row => row.cells.any fun cell => richTextHasVisibleText unicode cell.text

/-- The rows that have cells. -/
def filledRows (rows : List TableRow) : List TableRow := rows.filter fun row => !row.cells.isEmpty

/-- What stays of a block that is not left out.  A quote with an empty text begins with its blocks,
and so do other containers. -/
def Block.kept (block : Block) : Block :=
  match shape block.own.kind with
  | .line | .math => block
  | .quote =>
    let trims := richTextIsStructurallyEmpty unicode block.own.text
    { block with
      own := { block.own with
        text := surfaceText (trims && !block.own.pullquote) block.own.text block.blocks }
      blocks := keptBlocks unicode context (trims || block.own.pullquote) block.blocks }
  | .list => { block with listItems := block.listItems.map (keptItem unicode context) }
  | .table => { block with own := { block.own with tableRows := filledRows block.own.tableRows } }
  | .details => { block with blocks := keptBlocks unicode context true block.blocks }
  | .other =>
    { own := { block.own with tableRows := filledRows block.own.tableRows }
      blocks := keptBlocks unicode context true block.blocks
      listItems := block.listItems.map (keptItem unicode context) }

/-- Whether a block is left out. -/
def Block.leftOut (block : Block) : Bool :=
  match shape block.own.kind with
  | .line => !richTextHasVisibleText unicode block.own.text
  | .math => stringIsEmpty unicode block.own.formula
  | .quote => (block.kept unicode context).blocks.isEmpty
    && !(anyReal unicode context block.blocks || richTextHasVisibleText unicode block.own.text)
  | .list => block.listItems.isEmpty
  | .table => !rowsVisible unicode block.own.tableRows
  | .details => (block.kept unicode context).blocks.isEmpty
  | .other => false

/-! ## Loops and trimming -/

variable {unicode context}

theorem normalizeEach_eq_map (blocks : List Block) :
    normalizeEach unicode context blocks
      = blocks.map (normalizeFinalSubmitBlock unicode context) := by
  induction blocks with
  | nil => rw [normalizeEach, List.map_nil]
  | cons block rest ih => rw [normalizeEach, List.map_cons, ih]

theorem normalizeItems_eq_map (items : List (ListItem Block)) :
    normalizeItems unicode context items
      = items.map (normalizeFinalSubmitListItem unicode context) := by
  induction items with
  | nil => rw [normalizeItems, List.map_nil]
  | cons item rest ih => rw [normalizeItems, List.map_cons, ih]

theorem drop_takeWhile (p : Block → Bool) (l : List Block) :
    l.drop (l.takeWhile p).length = l.dropWhile p := by
  conv_lhs => rw [← @List.takeWhile_append_dropWhile Block p l]
  rw [List.drop_append_of_le_length (by simp), List.drop_eq_nil_of_le (by simp), List.nil_append]

/-- What the range of blocks spans. -/
theorem take_range (blocks : List Block) :
    let range := findTrimEmptyParagraphEdgesRange unicode blocks
    (blocks.take range.till).drop range.start
      = trimEdges true (paragraphHasTrimmableEdges unicode) blocks := by
  rw [findTrimEmptyParagraphEdgesRange]
  dsimp only
  rw [List.drop_take, Nat.add_sub_cancel_left, drop_takeWhile, trimEdges, if_pos rfl,
    ← List.prefix_iff_eq_take.1 (List.rdropWhile_prefix _ _)]

theorem trimEmptyParagraphEdges_eq (blocks : List Block) :
    trimEmptyParagraphEdges unicode blocks
      = trimEdges true (paragraphHasTrimmableEdges unicode) blocks := take_range blocks

theorem finished_value (blocks : List Block) (trims : Bool) :
    (finished unicode (normalizeEach unicode context blocks) trims).value
      = if trims then
          keptBlocks unicode context true blocks
        else
          survivors unicode context blocks := by
  have hvalues : (collected (normalizeEach unicode context blocks)).value
      = survivors unicode context blocks := by
    rw [collected, normalizeEach_eq_map, List.filterMap_map]
    rfl
  cases trims
  · exact hvalues
  · rw [finished, if_pos rfl, if_pos rfl, hvalues, trimEmptyParagraphEdges_eq]
    rfl

theorem finished_real (blocks : List Block) (trims : Bool) :
    (finished unicode (normalizeEach unicode context blocks) trims).hasRealContent
      = anyReal unicode context blocks := by
  cases trims <;> simp [finished, collected, anyReal, normalizeEach_eq_map, Function.comp_def]

/-- A text and the blocks after it, trimmed like paragraphs: an empty text is cleared, and then the
blocks are trimmed at their front too. -/
theorem hybridSurface_eq (text : RichText) (anchorId : QString)
    (normalizedBlocks : Normalized (List Block)) :
    let trims := anchorId.isEmpty && richTextIsStructurallyEmpty unicode text
    (hybridSurface unicode text anchorId normalizedBlocks).value
        = { text := if trims then {} else text
            anchorId
            blocks := trimEdges trims (paragraphHasTrimmableEdges unicode)
              normalizedBlocks.value } ∧
      (hybridSurface unicode text anchorId normalizedBlocks).hasRealContent
        = (richTextHasVisibleText unicode text || normalizedBlocks.hasRealContent) := by
  intro trims
  set paragraph : Block := { own := { kind := .paragraph, text, anchorId } } with hparagraph
  set combined := paragraph :: normalizedBlocks.value with hcombined
  have htrims : paragraphHasTrimmableEdges unicode paragraph = trims := by
    simp [paragraphHasTrimmableEdges, hparagraph, trims]
  have hspan := @take_range unicode combined
  rw [hybridSurface]
  dsimp only
  rw [← hparagraph, ← hcombined]
  rcases htrim : trims with _ | _
  · -- The text stays, and with it the front of the blocks.
    rw [htrim] at htrims
    have hstart : (findTrimEmptyParagraphEdgesRange unicode combined).start = 0 := by
      simp [findTrimEmptyParagraphEdgesRange, hcombined, htrims]
    have htill : (findTrimEmptyParagraphEdgesRange unicode combined).till
        = (normalizedBlocks.value.rdropWhile (paragraphHasTrimmableEdges unicode)).length + 1 := by
      simp [findTrimEmptyParagraphEdgesRange, hcombined, htrims,
        Machinery.rdropWhile_cons_of_neg htrims]
    have hblocks : (combined.take ((normalizedBlocks.value.rdropWhile
          (paragraphHasTrimmableEdges unicode)).length + 1)).tail
        = normalizedBlocks.value.rdropWhile (paragraphHasTrimmableEdges unicode) := by
      rw [hcombined, List.take_succ_cons, List.tail_cons,
        ← List.prefix_iff_eq_take.1 (List.rdropWhile_prefix _ _)]
    simp [hstart, htill, hblocks, trimEdges]
  · -- The text is an empty paragraph, so that the blocks come first.
    rw [htrim] at htrims
    obtain ⟨hanchor, hempty⟩ := Bool.and_eq_true_iff.1 htrim
    have hstart : 1 ≤ (findTrimEmptyParagraphEdgesRange unicode combined).start := by
      simp [findTrimEmptyParagraphEdgesRange, hcombined, htrims]
    have hblocks : trimEdges true (paragraphHasTrimmableEdges unicode) combined
        = trimEdges true (paragraphHasTrimmableEdges unicode) normalizedBlocks.value := by
      rw [trimEdges, trimEdges, if_pos rfl, if_pos rfl, hcombined,
        List.dropWhile_cons_of_pos (by rw [htrims])]
    have hvisible : richTextHasVisibleText unicode text = false := by
      simp [richTextHasVisibleText, (Bool.and_eq_true_iff.1 hempty).1]
    rw [max_eq_left hstart, hspan, hblocks]
    have hne : (findTrimEmptyParagraphEdgesRange unicode combined).start ≠ 0 := by omega
    simp [hne, hvisible, List.isEmpty_iff.1 hanchor]

/-! ## One block of each kind -/

theorem normalizeFinalSubmitBlock_eq (block : Block) :
    normalizeFinalSubmitBlock unicode context block
      = match shape block.own.kind with
        | .line =>
          if !richTextHasVisibleText unicode block.own.text then { value := none }
          else ⟨some block, true, true⟩
        | .math =>
          if stringIsEmpty unicode block.own.formula then { value := none }
          else ⟨some block, true, true⟩
        | .quote => normalizedQuote unicode block (normalizeEach unicode context block.blocks)
        | .list => normalizedList block (normalizeItems unicode context block.listItems)
        | .table => normalizedTable unicode block
        | .details => normalizedDetails unicode block (normalizeEach unicode context block.blocks)
        | .other =>
          normalizedOther unicode context block (normalizeEach unicode context block.blocks)
            (normalizeItems unicode context block.listItems) := by
  rcases block with ⟨own, blocks, listItems⟩
  unfold normalizeFinalSubmitBlock
  rfl

/-- An empty text is no text that is seen, cleared or not. -/
theorem visible_surfaceText {trims : Bool} {text : RichText} {blocks : List Block}
    (h : trims = true → richTextIsStructurallyEmpty unicode text = true) :
    richTextHasVisibleText unicode (surfaceText trims text blocks)
      = richTextHasVisibleText unicode text := by
  rw [surfaceText]
  split
  · next hcleared =>
    have hempty := h (Bool.and_eq_true_iff.1 hcleared).1
    rw [richTextHasVisibleText, richTextHasVisibleText, (Bool.and_eq_true_iff.1 hempty).1]
    simp [stringIsEmpty, Unicode.trimmed]
  · rfl

/-- What is below a quote: an empty text gives way to the blocks, unless it is a pull quote. -/
theorem quoteSurface_eq (block : Block) :
    let surface := quoteSurface unicode block (normalizeEach unicode context block.blocks)
    let trims := richTextIsStructurallyEmpty unicode block.own.text
    surface.value.text
        = surfaceText (trims && !block.own.pullquote) block.own.text block.blocks ∧
      surface.value.blocks
        = keptBlocks unicode context (trims || block.own.pullquote) block.blocks ∧
      (surface.hasRealContent || richTextHasVisibleText unicode block.own.text)
        = (anyReal unicode context block.blocks
          || richTextHasVisibleText unicode block.own.text) := by
  intro surface trims
  by_cases hnil : block.blocks = []
  · have hsurface : surface = { value := { text := block.own.text, blocks := block.blocks } } := by
      simp [surface, quoteSurface, hnil]
    simp [hsurface, surfaceText, hnil, keptBlocks, survivors, anyReal]
  have hne : block.blocks.isEmpty = false := by simpa using hnil
  rcases hpull : block.own.pullquote with _ | _
  · obtain ⟨hvalue, hreal⟩ := @hybridSurface_eq unicode block.own.text []
      (finished unicode (normalizeEach unicode context block.blocks) false)
    have hsurface : surface = hybridSurface unicode block.own.text []
        (finished unicode (normalizeEach unicode context block.blocks) false) := by
      simp [surface, quoteSurface, hne, hpull]
    rw [hsurface, hvalue, hreal, finished_value, finished_real]
    refine ⟨by simp [surfaceText, hne, trims], by simp [trims, keptBlocks], ?_⟩
    rcases richTextHasVisibleText unicode block.own.text <;> simp
  · have hblocks := @finished_value unicode context block.blocks true
    have hreal := @finished_real unicode context block.blocks true
    have hsurface : surface =
        { value := { text := block.own.text
                     blocks := (finished unicode (normalizeEach unicode context block.blocks)
                      true).value }
          hasMeaningfulContent := (finished unicode (normalizeEach unicode context block.blocks)
            true).hasMeaningfulContent
          hasRealContent := (finished unicode (normalizeEach unicode context block.blocks)
            true).hasRealContent } := by
      simp [surface, quoteSurface, hne, hpull]
    rw [hsurface, hblocks, hreal]
    simp [surfaceText]

/-- A list item: an empty text with no anchor gives way to the blocks. -/
theorem normalizeFinalSubmitListItem_eq (item : ListItem Block) :
    (normalizeFinalSubmitListItem unicode context item).value = keptItem unicode context item ∧
      (normalizeFinalSubmitListItem unicode context item).hasRealContent
        = (richTextHasVisibleText unicode item.text || anyReal unicode context item.blocks) := by
  rcases item with ⟨text, anchorId, blocks⟩
  rw [normalizeFinalSubmitListItem, normalizedListItem, keptItem]
  by_cases hnil : blocks = []
  · simp [hnil, surfaceText, keptBlocks, survivors, anyReal]
  · have hne : blocks.isEmpty = false := by simpa using hnil
    obtain ⟨hvalue, hreal⟩ := @hybridSurface_eq unicode text anchorId
      (finished unicode (normalizeEach unicode context blocks) false)
    simp only [hne, Bool.false_eq_true, if_false]
    rw [hvalue, hreal, finished_value, finished_real]
    simp [surfaceText, hne, keptBlocks]

/-- The rows that stay are those with cells; both flags are whether some cell is visible. -/
theorem normalizedRows_eq (rows : List TableRow) :
    (normalizedRows unicode rows).value = filledRows rows ∧
      (normalizedRows unicode rows).hasMeaningfulContent = rowsVisible unicode rows ∧
      (normalizedRows unicode rows).hasRealContent = rowsVisible unicode rows := by
  have hcells : ∀ row : TableRow, (normalizeFinalSubmitTableRow unicode row).value
        = (if row.cells.isEmpty then none else some row) ∧
      (normalizeFinalSubmitTableRow unicode row).hasMeaningfulContent
        = (row.cells.any fun cell => richTextHasVisibleText unicode cell.text) ∧
      (normalizeFinalSubmitTableRow unicode row).hasRealContent
        = (row.cells.any fun cell => richTextHasVisibleText unicode cell.text) := by
    intro row
    rw [normalizeFinalSubmitTableRow]
    by_cases hnil : row.cells = []
    · simp [hnil]
    · have hne : row.cells.isEmpty = false := by simpa using hnil
      simp [hne, normalizeFinalSubmitTableCell, Function.comp_def]
  refine ⟨?_, ?_, ?_⟩
  · rw [normalizedRows, collected, filledRows]
    dsimp only
    rw [List.filterMap_map, ← List.filterMap_eq_filter]
    apply List.filterMap_congr
    intro row _
    by_cases hnil : row.cells = [] <;> simp [hcells, hnil, Option.guard]
  · simp [normalizedRows, collected, rowsVisible, Function.comp_def, hcells]
  · simp [normalizedRows, collected, rowsVisible, Function.comp_def, hcells]

theorem collectedItems_eq (items : List (ListItem Block)) :
    (collectedItems (normalizeItems unicode context items)).value
        = items.map (keptItem unicode context) ∧
      (collectedItems (normalizeItems unicode context items)).hasRealContent
        = itemsReal unicode context items := by
  simp only [collectedItems, normalizeItems_eq_map, List.map_map, List.any_map, Function.comp_def]
  exact ⟨List.map_congr_left fun item _ => (normalizeFinalSubmitListItem_eq item).1,
    congrArg items.any (funext fun item => (normalizeFinalSubmitListItem_eq item).2)⟩

/-- A quote is left out when it has neither blocks nor a text of its own. -/
theorem quote_eq {block : Block} (h : shape block.own.kind = .quote) :
    (normalizeFinalSubmitBlock unicode context block).value
        = (if block.leftOut unicode context then none else some (block.kept unicode context)) ∧
      (normalizeFinalSubmitBlock unicode context block).hasRealContent
        = (anyReal unicode context block.blocks
          || richTextHasVisibleText unicode block.own.text) := by
  obtain ⟨htext, hblocks, hreal⟩ := @quoteSurface_eq unicode context block
  have hvisible : richTextHasVisibleText unicode
      (surfaceText (richTextIsStructurallyEmpty unicode block.own.text && !block.own.pullquote)
        block.own.text block.blocks) = richTextHasVisibleText unicode block.own.text :=
    visible_surfaceText fun htrims => (Bool.and_eq_true_iff.1 htrims).1
  rw [normalizeFinalSubmitBlock_eq, Block.leftOut, Block.kept, h]
  dsimp only
  rw [normalizedQuote]
  dsimp only
  rw [htext, hblocks, hvisible, hreal]
  exact ⟨rfl, rfl⟩

/-- A list is left out when it has no items. -/
theorem list_eq {block : Block} (h : shape block.own.kind = .list) :
    (normalizeFinalSubmitBlock unicode context block).value
        = (if block.leftOut unicode context then none else some (block.kept unicode context)) ∧
      (normalizeFinalSubmitBlock unicode context block).hasRealContent
        = itemsReal unicode context block.listItems := by
  obtain ⟨hvalue, hreal⟩ :=
    @collectedItems_eq unicode context block.listItems
  rw [normalizeFinalSubmitBlock_eq, Block.leftOut, Block.kept, h]
  dsimp only
  rw [normalizedList]
  dsimp only
  rw [hvalue, hreal, List.isEmpty_map]
  exact ⟨rfl, rfl⟩

/-- A table is left out when no cell is visible. -/
theorem table_eq {block : Block} (h : shape block.own.kind = .table) :
    (normalizeFinalSubmitBlock unicode context block).value
        = (if block.leftOut unicode context then none else some (block.kept unicode context)) ∧
      (normalizeFinalSubmitBlock unicode context block).hasRealContent
        = rowsVisible unicode block.own.tableRows := by
  obtain ⟨hvalue, hmeaningful, hreal⟩ := @normalizedRows_eq unicode block.own.tableRows
  rw [normalizeFinalSubmitBlock_eq, Block.leftOut, Block.kept, h]
  dsimp only
  rw [normalizedTable]
  dsimp only
  rw [hvalue, hmeaningful, hreal]
  exact ⟨rfl, rfl⟩

/-- Details are left out when nothing is left below them. -/
theorem details_eq {block : Block} (h : shape block.own.kind = .details) :
    (normalizeFinalSubmitBlock unicode context block).value
        = (if block.leftOut unicode context then none else some (block.kept unicode context)) ∧
      (normalizeFinalSubmitBlock unicode context block).hasRealContent
        = anyReal unicode context block.blocks := by
  rw [normalizeFinalSubmitBlock_eq, Block.leftOut, Block.kept, h]
  dsimp only
  rw [normalizedDetails]
  dsimp only
  rw [finished_value, finished_real]
  exact ⟨rfl, rfl⟩

/-- Blocks of the other kinds stay. -/
theorem other_eq {block : Block} (h : shape block.own.kind = .other) :
    (normalizeFinalSubmitBlock unicode context block).value
        = (if block.leftOut unicode context then none else some (block.kept unicode context)) ∧
      (normalizeFinalSubmitBlock unicode context block).hasRealContent
        = (anyReal unicode context block.blocks || itemsReal unicode context block.listItems
          || rowsVisible unicode block.own.tableRows
          || blockHasOwnMeaningfulContent unicode context block.own) := by
  obtain ⟨hrows, -, hrowsReal⟩ := @normalizedRows_eq unicode block.own.tableRows
  obtain ⟨hitems, hitemsReal⟩ :=
    @collectedItems_eq unicode context block.listItems
  rw [normalizeFinalSubmitBlock_eq, Block.leftOut, Block.kept, h]
  dsimp only
  rw [normalizedOther]
  dsimp only
  rw [finished_value, finished_real, hrows, hrowsReal, hitems, hitemsReal]
  exact ⟨rfl, rfl⟩

/-- **What stays of a block.** -/
theorem value_eq (block : Block) :
    (normalizeFinalSubmitBlock unicode context block).value
      = if block.leftOut unicode context then none else some (block.kept unicode context) := by
  rcases h : shape block.own.kind with _ | _ | _ | _ | _ | _ | _
  · rw [normalizeFinalSubmitBlock_eq, Block.leftOut, Block.kept, h]
    rcases richTextHasVisibleText unicode block.own.text <;> rfl
  · rw [normalizeFinalSubmitBlock_eq, Block.leftOut, Block.kept, h]
    rcases stringIsEmpty unicode block.own.formula <;> rfl
  · exact (quote_eq h).1
  · exact (list_eq h).1
  · exact (table_eq h).1
  · exact (details_eq h).1
  · exact (other_eq h).1

end

end Yunogram.Iv.FinalSubmit
