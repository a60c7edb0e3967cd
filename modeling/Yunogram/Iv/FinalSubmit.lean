import Yunogram.Iv.SimpleText
import Yunogram.Machinery.TrimEdges

/-!
# Iv/FinalSubmit — a page made ready to be sent

`iv_rich_message_serializer.cpp` normalizes the blocks of a page before it sends them: empty blocks
are left out, empty paragraphs at the edges are trimmed, and two flags tell what there is left to
send.

`NormalizeFinalSubmitBlock` and the functions it calls are recursive over a tree of blocks.  Here
what is below a block is normalized first, and each case of the switch is a definition about the
results (`finished`, `hybridSurface`, `normalizedQuote`). -/

namespace Yunogram.Iv.FinalSubmit

export Markdown (TextWithEntities)

open Markdown (Unicode)
open SimpleText (BlockKind)

/-! ## Blocks -/

/-- `RichPage::RichText`. -/
structure RichText where
  text : TextWithEntities := { text := [] }
  anchorId : QString := []
  anchorIds : List QString := []

/-- The text of a `RichPage::TableCell`. -/
structure TableCell where
  text : RichText := {}

/-- `RichPage::TableRow`. -/
structure TableRow where
  cells : List TableCell

/-- The media of a `RichPage::GroupedMediaItem`; a pointer to loaded media is a number. -/
structure GroupedMediaItem where
  kind : BlockKind
  photoId : UInt64 := 0
  photo : Option ℕ := none
  documentId : UInt64 := 0
  document : Option ℕ := none

/-- What a block has of its own, apart from blocks and list items below it. -/
structure BlockData where
  kind : BlockKind
  anchorId : QString := []
  text : RichText := {}
  caption : RichText := {}
  formula : QString := []
  date : ℤ := 0
  zoom : ℤ := 0
  photoId : UInt64 := 0
  photo : Option ℕ := none
  documentId : UInt64 := 0
  document : Option ℕ := none
  pullquote : Bool := false
  mediaItems : List GroupedMediaItem := []
  tableRows : List TableRow := []
  buttons : List RichText := []

/-- `RichPage::ListItem`, with blocks of such a type. -/
structure ListItem (Block : Type) where
  text : RichText := {}
  anchorId : QString := []
  blocks : List Block := []

/-- `RichPage::Block`. -/
structure Block where
  own : BlockData
  blocks : List Block := []
  listItems : List (ListItem Block) := []

/-- Which input there is to send for media: whether `ResolveInputPhoto` and `ResolveInputDocument`
have a value. -/
structure SerializeContext where
  resolveInputPhoto : UInt64 → Option ℕ → Bool
  resolveInputDocument : UInt64 → Option ℕ → Bool

/-- `FinalSubmitNormalizationResult`. -/
structure Normalized (α : Type) where
  value : α
  hasMeaningfulContent : Bool := false
  hasRealContent : Bool := false

/-- `FinalSubmitHybridSurface`. -/
structure HybridSurface where
  text : RichText := {}
  anchorId : QString := []
  blocks : List Block := []

/-- How the switch of `NormalizeFinalSubmitBlock` groups the kinds. -/
inductive Shape
  | line | math | quote | list | table | details | other
  deriving DecidableEq

/-- The group that a kind is in. -/
def shape : BlockKind → Shape
  | .heading | .footer | .code | .thinking => .line
  | .math => .math
  | .quote => .quote
  | .list => .list
  | .table => .table
  | .details => .details
  | _ => .other

section

variable (unicode : Unicode) (context : SerializeContext)

/-! ## What a block has of its own -/

/-- `StringIsEmpty`. -/
def stringIsEmpty (text : QString) : Bool := (unicode.trimmed text).isEmpty

/-- `RichTextHasVisibleText`. -/
def richTextHasVisibleText (text : RichText) : Bool := !stringIsEmpty unicode text.text.text

/-- `RichTextHasAnchorPayload`. -/
def richTextHasAnchorPayload (text : RichText) : Bool :=
  !text.anchorId.isEmpty || !text.anchorIds.isEmpty

/-- `RichTextIsStructurallyEmpty`. -/
def richTextIsStructurallyEmpty (text : RichText) : Bool :=
  stringIsEmpty unicode text.text.text && !richTextHasAnchorPayload text

/-- `ParagraphHasTrimmableEdges`. -/
def paragraphHasTrimmableEdges (block : Block) : Bool :=
  block.own.kind = .paragraph && block.own.anchorId.isEmpty
    && richTextIsStructurallyEmpty unicode block.own.text

/-- `GroupedMediaItemHasMeaningfulContent`. -/
def groupedMediaItemHasMeaningfulContent (item : GroupedMediaItem) : Bool :=
  match item.kind with
  | .photo => context.resolveInputPhoto item.photoId item.photo
  | .video => context.resolveInputDocument item.documentId item.document
  | _ => false

/-- `BlockHasOwnMeaningfulContent`. -/
def blockHasOwnMeaningfulContent (own : BlockData) : Bool :=
  match own.kind with
  | .heading | .paragraph | .footer | .thinking | .code => richTextHasVisibleText unicode own.text
  | .quote =>
    richTextHasVisibleText unicode own.text || richTextHasVisibleText unicode own.caption
  | .photo => context.resolveInputPhoto own.photoId own.photo
  | .video | .audio | .file => context.resolveInputDocument own.documentId own.document
  | .math => !stringIsEmpty unicode own.formula
  | .table | .details => richTextHasVisibleText unicode own.text
  | .groupedMedia =>
    if own.mediaItems.isEmpty then
      false
    else
      own.mediaItems.all (groupedMediaItemHasMeaningfulContent context)
  | .map => own.zoom > 0
  | .buttonRow => !own.buttons.isEmpty
  | .authorDate => richTextHasVisibleText unicode own.text || own.date ≠ 0
  | _ => false

/-! ## Trimming -/

/-- `TrimEmptyParagraphEdgesRange`. -/
structure TrimEmptyParagraphEdgesRange where
  start : ℕ
  till : ℕ

/-- `FindTrimEmptyParagraphEdgesRange`. -/
def findTrimEmptyParagraphEdgesRange (blocks : List Block) : TrimEmptyParagraphEdgesRange :=
  let start := (blocks.takeWhile (paragraphHasTrimmableEdges unicode)).length
  let kept := (blocks.drop start).rdropWhile (paragraphHasTrimmableEdges unicode)
  { start, till := start + kept.length }

/-- `TrimEmptyParagraphEdges`. -/
def trimEmptyParagraphEdges (blocks : List Block) : List Block :=
  let range := findTrimEmptyParagraphEdgesRange unicode blocks
  (blocks.take range.till).drop range.start

/-! ## Normalizing -/

/-- The results of a loop: the values there are, with the flags of all. -/
def collected {α : Type} (results : List (Normalized (Option α))) : Normalized (List α) where
  value := results.filterMap (·.value)
  hasMeaningfulContent := results.any (·.hasMeaningfulContent)
  hasRealContent := results.any (·.hasRealContent)

/-- `NormalizeFinalSubmitBlocks`, of blocks with such results. -/
def finished (results : List (Normalized (Option Block))) (trimParagraphEdges : Bool) :
    Normalized (List Block) :=
  let result := collected results
  if trimParagraphEdges then
    { result with value := trimEmptyParagraphEdges unicode result.value }
  else
    result

/-- `NormalizeFinalSubmitHybridSurface`, over the normalized blocks. -/
def hybridSurface (text : RichText) (anchorId : QString)
    (normalizedBlocks : Normalized (List Block)) : Normalized HybridSurface :=
  let paragraph : Block := { own := { kind := .paragraph, text, anchorId } }
  let combined := paragraph :: normalizedBlocks.value
  let range := findTrimEmptyParagraphEdgesRange unicode combined
  let stays := range.start = 0 ∧ range.till > 0
  let visible := decide stays && richTextHasVisibleText unicode text
  { value :=
      { text := if stays then text else {}
        anchorId := if stays then anchorId else []
        blocks := (combined.take range.till).drop (max range.start 1) }
    hasMeaningfulContent := visible || normalizedBlocks.hasMeaningfulContent
    hasRealContent := visible || normalizedBlocks.hasRealContent }

/-- `NormalizeFinalSubmitTableCell`. -/
def normalizeFinalSubmitTableCell (cell : TableCell) : Normalized TableCell where
  value := cell
  hasMeaningfulContent := richTextHasVisibleText unicode cell.text
  hasRealContent := richTextHasVisibleText unicode cell.text

/-- `NormalizeFinalSubmitTableRow`. -/
def normalizeFinalSubmitTableRow (row : TableRow) : Normalized (Option TableRow) :=
  if row.cells.isEmpty then
    { value := none }
  else
    let cells := row.cells.map (normalizeFinalSubmitTableCell unicode)
    { value := some ⟨cells.map (·.value)⟩
      hasMeaningfulContent := cells.any (·.hasMeaningfulContent)
      hasRealContent := cells.any (·.hasRealContent) }

/-- The rows of a table. -/
def normalizedRows (rows : List TableRow) : Normalized (List TableRow) :=
  collected (rows.map (normalizeFinalSubmitTableRow unicode))

/-- `NormalizeFinalSubmitListItem`, over the results of its blocks. -/
def normalizedListItem (item : ListItem Block) (results : List (Normalized (Option Block))) :
    Normalized (ListItem Block) :=
  if item.blocks.isEmpty then
    { value := item
      hasMeaningfulContent := richTextHasVisibleText unicode item.text
      hasRealContent := richTextHasVisibleText unicode item.text }
  else
    let surface := hybridSurface unicode item.text item.anchorId (finished unicode results false)
    { value :=
        { item with
          text := surface.value.text
          anchorId := surface.value.anchorId
          blocks := surface.value.blocks }
      hasMeaningfulContent := surface.hasMeaningfulContent
      hasRealContent := surface.hasRealContent }

/-- The list items, with the flags of all. -/
def collectedItems (items : List (Normalized (ListItem Block))) :
    Normalized (List (ListItem Block)) where
  value := items.map (·.value)
  hasMeaningfulContent := items.any (·.hasMeaningfulContent)
  hasRealContent := items.any (·.hasRealContent)

/-- What is below a quote, over the results of its blocks. -/
def quoteSurface (block : Block) (results : List (Normalized (Option Block))) :
    Normalized HybridSurface :=
  if !block.blocks.isEmpty && !block.own.pullquote then
    hybridSurface unicode block.own.text [] (finished unicode results false)
  else if !block.blocks.isEmpty then
    let blocks := finished unicode results true
    { value := { text := block.own.text, blocks := blocks.value }
      hasMeaningfulContent := blocks.hasMeaningfulContent
      hasRealContent := blocks.hasRealContent }
  else
    { value := { text := block.own.text, blocks := block.blocks } }

/-- The quote of `NormalizeFinalSubmitBlock`. -/
def normalizedQuote (block : Block) (results : List (Normalized (Option Block))) :
    Normalized (Option Block) :=
  let surface := quoteSurface unicode block results
  let normalized : Block :=
    { block with own := { block.own with text := surface.value.text }
                 blocks := surface.value.blocks }
  let hasMeaningfulContent := surface.hasMeaningfulContent
    || richTextHasVisibleText unicode normalized.own.text
    || richTextHasVisibleText unicode normalized.own.caption
  let hasRealContent := surface.hasRealContent
    || richTextHasVisibleText unicode normalized.own.text
  { value := if normalized.blocks.isEmpty && !hasRealContent then none else some normalized
    hasMeaningfulContent
    hasRealContent }

/-- The list of `NormalizeFinalSubmitBlock`. -/
def normalizedList (block : Block) (items : List (Normalized (ListItem Block))) :
    Normalized (Option Block) :=
  let items := collectedItems items
  { value := if items.value.isEmpty then none else some { block with listItems := items.value }
    hasMeaningfulContent := items.hasMeaningfulContent
    hasRealContent := items.hasRealContent }

/-- The table of `NormalizeFinalSubmitBlock`. -/
def normalizedTable (block : Block) : Normalized (Option Block) :=
  let rows := normalizedRows unicode block.own.tableRows
  { value :=
      if !rows.hasMeaningfulContent then
        none
      else
        some { block with own := { block.own with tableRows := rows.value } }
    hasMeaningfulContent := rows.hasMeaningfulContent
    hasRealContent := rows.hasRealContent }

/-- The details of `NormalizeFinalSubmitBlock`. -/
def normalizedDetails (block : Block) (results : List (Normalized (Option Block))) :
    Normalized (Option Block) :=
  let blocks := finished unicode results true
  { value := if blocks.value.isEmpty then none else some { block with blocks := blocks.value }
    hasMeaningfulContent := blocks.hasMeaningfulContent
    hasRealContent := blocks.hasRealContent }

/-- The other kinds of `NormalizeFinalSubmitBlock`.  Where there are no blocks, no items or no rows,
the source skips them, which is the same. -/
def normalizedOther (block : Block) (results : List (Normalized (Option Block)))
    (items : List (Normalized (ListItem Block))) : Normalized (Option Block) :=
  let blocks := finished unicode results true
  let items := collectedItems items
  let rows := normalizedRows unicode block.own.tableRows
  let normalized : Block :=
    { own := { block.own with tableRows := rows.value }
      blocks := blocks.value
      listItems := items.value }
  let own := blockHasOwnMeaningfulContent unicode context normalized.own
  { value := some normalized
    hasMeaningfulContent := blocks.hasMeaningfulContent || items.hasMeaningfulContent
      || rows.hasMeaningfulContent || own
    hasRealContent := blocks.hasRealContent || items.hasRealContent || rows.hasRealContent || own }

mutual

/-- `NormalizeFinalSubmitBlock`. -/
def normalizeFinalSubmitBlock : Block → Normalized (Option Block)
  | ⟨own, blocks, listItems⟩ =>
    match shape own.kind with
    | .line =>
      if !richTextHasVisibleText unicode own.text then
        { value := none }
      else
        ⟨some ⟨own, blocks, listItems⟩, true, true⟩
    | .math =>
      if stringIsEmpty unicode own.formula then
        { value := none }
      else
        ⟨some ⟨own, blocks, listItems⟩, true, true⟩
    | .quote => normalizedQuote unicode ⟨own, blocks, listItems⟩ (normalizeEach blocks)
    | .list => normalizedList ⟨own, blocks, listItems⟩ (normalizeItems listItems)
    | .table => normalizedTable unicode ⟨own, blocks, listItems⟩
    | .details => normalizedDetails unicode ⟨own, blocks, listItems⟩ (normalizeEach blocks)
    | .other =>
      normalizedOther unicode context ⟨own, blocks, listItems⟩ (normalizeEach blocks)
        (normalizeItems listItems)

/-- The results of blocks, one after the other. -/
def normalizeEach : List Block → List (Normalized (Option Block))
  | [] => []
  | block :: rest => normalizeFinalSubmitBlock block :: normalizeEach rest

/-- `NormalizeFinalSubmitListItem`. -/
def normalizeFinalSubmitListItem : ListItem Block → Normalized (ListItem Block)
  | ⟨text, anchorId, blocks⟩ =>
    normalizedListItem unicode ⟨text, anchorId, blocks⟩ (normalizeEach blocks)

/-- The results of list items, one after the other. -/
def normalizeItems : List (ListItem Block) → List (Normalized (ListItem Block))
  | [] => []
  | item :: rest => normalizeFinalSubmitListItem item :: normalizeItems rest

end

/-- `NormalizeFinalSubmitBlocks`. -/
def normalizeFinalSubmitBlocks (blocks : List Block) (trimParagraphEdges : Bool := true) :
    Normalized (List Block) :=
  finished unicode (normalizeEach unicode context blocks) trimParagraphEdges

end

end Yunogram.Iv.FinalSubmit
