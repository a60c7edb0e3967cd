import Mathlib
import Yunogram.Iv.Unicode

/-!
# Iv/SimpleText — a page as the text of a simple message

`iv_rich_page.cpp` tells whether a page can be sent as a simple message, and writes that message:
paragraphs, code and quotes, trimmed and joined by line breaks.  Both go through one walk over the
blocks (`serializeAsSimpleTo`), with a sink that builds the text or one that only counts its length.

`TextUtilities::Trim` is a parameter (`TextUtilities`), with what the comment above `TrimmedLength`
says of it. -/

namespace Yunogram.Iv.SimpleText

export Markdown (TextWithEntities)

open Markdown (Library Unicode shiftRight parseInlineTextObjectEntity)

/-! ## Trimming -/

/-- `EntityInText::FirstMonospaceOffset`; the length of the text when no entity is monospace. -/
def firstMonospaceOffset (isMonospace : EntityInText → Bool) (entities : List EntityInText)
    (textLength : ℤ) : ℤ :=
  ((entities.filter isMonospace).map (·.offset)).min?.getD textLength

/-- Where the left trim ends: at a character that stays, or at `stop`. -/
def leftTrimmed (isTrimmed : UInt16 → Bool) (stop : ℤ) : ℕ → QString → ℕ
  | start, [] => start
  | start, c :: rest =>
    if (start : ℤ) ≠ stop ∧ isTrimmed c then leftTrimmed isTrimmed stop (start + 1) rest else start

/-- What `TextUtilities::Trim` leaves of a text: the right trim first, then the left one, which
stops at the first monospace entity. -/
def trimmedText (isTrimmed : UInt16 → Bool) (isMonospace : EntityInText → Bool)
    (text : TextWithEntities) : QString :=
  let kept := text.text.rdropWhile isTrimmed
  kept.drop (leftTrimmed isTrimmed (firstMonospaceOffset isMonospace text.entities kept.length) 0
    kept)

/-- `TextUtilities::Trim`, `Ui::Text::IsTrimmed` and the monospace entities.  What is left of the
entities lies in what is left of the text; a monospace entity that the left trim stops at begins
it. -/
structure TextUtilities where
  isTrimmed : UInt16 → Bool
  isMonospace : EntityInText → Bool
  trim : TextWithEntities → TextWithEntities
  trim_text : ∀ text, (trim text).text = trimmedText isTrimmed isMonospace text
  trim_inside : ∀ text, ∀ entity ∈ (trim text).entities, 0 ≤ entity.offset
  trim_monospace : ∀ text, let kept := text.text.rdropWhile isTrimmed
    let stop := firstMonospaceOffset isMonospace text.entities kept.length
    kept ≠ [] → (leftTrimmed isTrimmed stop 0 kept : ℤ) = stop →
      firstMonospaceOffset isMonospace (trim text).entities (trim text).text.length = 0

/-- `TextWithEntities::append`. -/
def append (a b : TextWithEntities) : TextWithEntities where
  text := a.text ++ b.text
  entities := a.entities ++ b.entities.map fun entity => shiftRight entity a.text.length

/-- A line break. -/
def newline : TextWithEntities := { text := ascii "\n" }

/-! ## Pages -/

/-- `RichPage::BlockKind`. -/
inductive BlockKind
  | unsupported | heading | paragraph | footer | thinking | authorDate | code | divider | anchor
  | buttonRow | list | quote | photo | video | embed | embedPost | groupedMedia | channel | audio
  | file | math | table | details | relatedArticles | map
  deriving DecidableEq

/-- What a simple message needs of a `RichPage::Block`. -/
structure Block where
  kind : BlockKind := .unsupported
  text : TextWithEntities := { text := [] }
  caption : TextWithEntities := { text := [] }
  language : QString := []
  author : QString := []
  pullquote : Bool := false
  collapsed : Bool := false
  blocks : List Block := []

/-- `RichPage`. -/
structure RichPage where
  blocks : List Block := []

/-- `RichBlockquoteIsCollapsible`. -/
def richBlockquoteIsCollapsible (block : Block) : Bool :=
  block.kind = .quote && !block.pullquote && block.blocks.isEmpty

/-- `SimpleTextEntitiesAllowed`. -/
def simpleTextEntitiesAllowed (lib : Library) (text : TextWithEntities) : Bool :=
  text.entities.all fun entity =>
    if entity.type = .subscript ∨ entity.type = .superscript ∨ entity.type = .marked then
      false
    else if entity.type = .customEmoji ∧ (parseInlineTextObjectEntity lib entity.data).isSome then
      false
    else
      true

/-! ## Sinks -/

/-- What `SerializeAsSimpleTo` does with an accumulator. -/
structure Sink (α : Type) where
  empty : α
  append : α → TextWithEntities → EntityType → QString → α
  appendQuote : α → α → Bool → α
  length : α → ℕ

section

variable (ui : TextUtilities)

/-- `AppendSimpleBlock`. -/
def appendSimpleBlock (result block : TextWithEntities) (wrap : EntityType) (wrapData : QString) :
    TextWithEntities :=
  let block := ui.trim block
  if block.text = [] then
    result
  else
    let block :=
      if wrap ≠ .invalid then
        { block with entities := block.entities ++ [⟨wrap, 0, block.text.length, wrapData⟩] }
      else
        block
    let result := if result.text ≠ [] then append result newline else result
    append result block

/-- `SimpleTextBuilder`. -/
def simpleTextBuilder : Sink TextWithEntities where
  empty := { text := [] }
  append result text wrap wrapData := appendSimpleBlock ui result text wrap wrapData
  appendQuote result body collapsed :=
    appendSimpleBlock ui result body .blockquote (if collapsed then ascii "1" else [])
  length result := result.text.length

/-- `TrimmedLength`. -/
def trimmedLength (text : TextWithEntities) : ℕ :=
  let kept := text.text.rdropWhile ui.isTrimmed
  if kept = [] then
    0
  else
    let firstMonospaceOffset := firstMonospaceOffset ui.isMonospace text.entities kept.length
    kept.length - leftTrimmed ui.isTrimmed firstMonospaceOffset 0 kept

/-- `SimpleTextCounter::appendLength`. -/
def appendLength (result length : ℕ) : ℕ :=
  if length > 0 then result + ((if result > 0 then 1 else 0) + length) else result

/-- `SimpleTextCounter`. -/
def simpleTextCounter : Sink ℕ where
  empty := 0
  append result text _ _ := appendLength result (trimmedLength ui text)
  appendQuote result body _ := appendLength result body
  length result := result

end

/-! ## The walk over the blocks -/

section

variable {α : Type} (lib : Library) (unicode : Unicode) (sink : Sink α)

/-- A paragraph of a quote, for `CollectSimpleQuote`; no value when it returns `false`. -/
def collectChild (body : α) (child : Block) : Option α :=
  if child.kind ≠ .paragraph || !simpleTextEntitiesAllowed lib child.text then
    none
  else
    some (sink.append body child.text .invalid [])

/-- `CollectSimpleQuote`; no value when it returns `false`. -/
def collectSimpleQuote (quote : Block) : Option α :=
  if quote.pullquote || unicode.trimmed quote.author ≠ []
      || unicode.trimmed quote.caption.text ≠ [] then
    none
  else if quote.text.text ≠ [] then
    if !simpleTextEntitiesAllowed lib quote.text then
      none
    else
      quote.blocks.foldlM (collectChild lib sink) (sink.append sink.empty quote.text .invalid [])
  else
    quote.blocks.foldlM (collectChild lib sink) sink.empty

/-- A block of the page, for `SerializeAsSimpleTo`; no value when it returns `false`. -/
def appendBlock (accumulator : α) (block : Block) : Option α :=
  match block.kind with
  | .paragraph =>
    if !simpleTextEntitiesAllowed lib block.text then
      none
    else
      some (sink.append accumulator block.text .invalid [])
  | .code =>
    if block.text.entities ≠ [] then
      none
    else
      some (sink.append accumulator block.text .pre block.language)
  | .quote =>
    (collectSimpleQuote lib unicode sink block).map fun body =>
      sink.appendQuote accumulator body (block.collapsed && richBlockquoteIsCollapsible block)
  | _ => none

/-- The blocks, one after the other. -/
def appendBlocks (blocks : List Block) : Option α :=
  blocks.foldlM (appendBlock lib unicode sink) sink.empty

/-- `SerializeAsSimpleTo`, for a session with such a limit of the length; no value when it returns
`false`. -/
def serializeAsSimpleTo (lengthLimit : ℤ) (page : RichPage) : Option α :=
  (appendBlocks lib unicode sink page.blocks).bind fun accumulator =>
    if sink.length accumulator = 0 then
      none
    else if sink.length accumulator ≤ lengthLimit then
      some accumulator
    else
      none

end

section

variable (lib : Library) (unicode : Unicode) (ui : TextUtilities)

/-- `SerializeAsSimple`. -/
def serializeAsSimple (lengthLimit : ℤ) (page : RichPage) : Option TextWithEntities :=
  (serializeAsSimpleTo lib unicode (simpleTextBuilder ui) lengthLimit page).map ui.trim

/-- `CanSerializeAsSimple`. -/
def canSerializeAsSimple (lengthLimit : ℤ) (page : RichPage) : Bool :=
  (serializeAsSimpleTo lib unicode (simpleTextCounter ui) lengthLimit page).isSome

end

end Yunogram.Iv.SimpleText
