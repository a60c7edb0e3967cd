import Yunogram.Iv.SimpleText

/-!
# Iv/ListNumbering — the numbers of ordered lists

Two parts of the code number the items of a list.  `iv_rich_page.cpp` prints a marker for each item
in the summary of a page (`summaryLeads`), and `iv_editor_page_list.cpp` computes the value and the
style of an item for the editor (`effectiveOrderedItemValue`, `effectiveOrderedListType`), which
also tells when two lists can be joined (`listsJoinSeamlessly`).

Numbers are integers here: what the code does over the ends of `int` is left out. -/

namespace Yunogram.Iv.ListNumbering

open Markdown (Unicode number unit asciiLower)
open SimpleText (BlockKind)

/-! ## Lists -/

/-- `RichPage::ListKind`. -/
inductive ListKind
  | bullet | ordered
  deriving DecidableEq

/-- `RichPage::TaskState`. -/
inductive TaskState
  | none | unchecked | checked
  deriving DecidableEq

/-- `RichPage::OrderedListData`. -/
structure OrderedListData where
  reversed : Bool := false
  start : Option ℤ := none
  type : Option QString := none

/-- `RichPage::OrderedListItemData`. -/
structure OrderedListItemData where
  num : Option QString := none
  value : Option ℤ := none
  type : Option QString := none
  deriving DecidableEq

/-- What numbering needs of a `RichPage::ListItem`. -/
structure ListItem where
  taskState : TaskState := .none
  number : OrderedListItemData := {}

/-- What numbering needs of a `RichPage::Block`. -/
structure Block where
  kind : BlockKind
  listKind : ListKind := .bullet
  orderedList : OrderedListData := {}
  listItems : List ListItem := []

/-- `OrderedListItemData::hasRawText`. -/
def OrderedListItemData.hasRawText (item : OrderedListItemData) : Bool :=
  item.num.any (!·.isEmpty)

/-- `OrderedListItemData::rawText`. -/
def OrderedListItemData.rawText (item : OrderedListItemData) : QString := item.num.getD []

/-- `PreparedOrderedListType`, and `OrderedMarkerType`, which is the same. -/
inductive PreparedOrderedListType
  | decimal | lowerAlpha | upperAlpha | lowerRoman | upperRoman
  deriving DecidableEq

/-- Unicode, where only the two cases of a letter are equal to `a` ignoring the case. -/
structure MarkerUnicode extends Unicode where
  equal_a : ∀ text, equalIgnoringCase text (ascii "a") = true →
    text = ascii "a" ∨ text = ascii "A"

/-! ## Markers -/

section

variable (unicode : MarkerUnicode)

/-- `ResolveOrderedMarkerType`, of `iv_rich_page.cpp`. -/
def resolveOrderedMarkerType (type : Option QString) : PreparedOrderedListType :=
  match type with
  | none => .decimal
  | some value =>
    let equals (name : String) : Bool := unicode.equalIgnoringCase value (ascii name)
    if equals "a" || equals "lower-alpha" || equals "lower-latin" then
      .lowerAlpha
    else if value = ascii "A" || equals "upper-alpha" || equals "upper-latin" then
      .upperAlpha
    else if value = ascii "i" || equals "lower-roman" then
      .lowerRoman
    else if value = ascii "I" || equals "upper-roman" then
      .upperRoman
    else
      .decimal

/-- The loop of `OrderedAlphaText`. -/
def alphaLoop (first : UInt16) : ℕ → QString → QString
  | 0, result => result
  | value + 1, result =>
    alphaLoop first (value / 26) ((first + UInt16.ofNat (value % 26)) :: result)
decreasing_by exact Nat.lt_succ_of_le (Nat.div_le_self _ _)

/-- `OrderedAlphaText`. -/
def orderedAlphaText (value : ℤ) (upper : Bool) : QString :=
  if value ≤ 0 then
    number value
  else
    alphaLoop (if upper then unit 'A' else unit 'a') value.toNat []

/-- `kParts`. -/
def romanParts : List (ℕ × String) :=
  [(1000, "M"), (900, "CM"), (500, "D"), (400, "CD"), (100, "C"), (90, "XC"), (50, "L"),
    (40, "XL"), (10, "X"), (9, "IX"), (5, "V"), (4, "IV"), (1, "I")]

/-- The loops of `OrderedRomanText`: each part as often as its value can be taken off. -/
def romanLoop : List (ℕ × String) → ℕ → QString
  | [], _ => []
  | part :: rest, value =>
    (List.replicate (value / part.1) (ascii part.2)).flatten ++ romanLoop rest (value % part.1)

/-- `OrderedRomanText`. -/
def orderedRomanText (value : ℤ) (upper : Bool) : QString :=
  if value ≤ 0 then
    number value
  else
    let result := romanLoop romanParts value.toNat
    if upper then result else result.map asciiLower

/-- `OrderedMarkerBody`. -/
def orderedMarkerBody (value : ℤ) (type : Option QString) : QString :=
  match resolveOrderedMarkerType unicode type with
  | .lowerAlpha => orderedAlphaText value false
  | .upperAlpha => orderedAlphaText value true
  | .lowerRoman => orderedRomanText value false
  | .upperRoman => orderedRomanText value true
  | .decimal => number value

/-- `OrderedRawMarkerText`. -/
def orderedRawMarkerText (raw : QString) : QString :=
  if raw.isEmpty || raw.getLast? = some (unit '.') || raw.getLast? = some (unit ')') then
    raw
  else
    raw ++ ascii "."

/-- `OrderedMarkerText`. -/
def orderedMarkerText (list : OrderedListData) (item : OrderedListItemData) (fallbackValue : ℤ) :
    QString :=
  if item.hasRawText then
    orderedRawMarkerText item.rawText
  else
    let type := if item.type.isSome then item.type else list.type
    let value := item.value.getD fallbackValue
    orderedMarkerBody unicode value type ++ ascii "."

/-- `OrderedListSequenceStart`, which both files have. -/
def orderedListSequenceStart (block : Block) : ℤ :=
  block.orderedList.start.getD (if block.orderedList.reversed then block.listItems.length else 1)

/-- `OrderedListSequenceStep`. -/
def orderedListSequenceStep (block : Block) : ℤ := if block.orderedList.reversed then -1 else 1

/-! ## The summary -/

/-- What a line of the summary begins with: the icon of a task, or a text. -/
inductive Lead
  | icon (checked : Bool)
  | text (lead : QString)
  deriving DecidableEq

/-- What the line of an item begins with. -/
def summaryLead (withIcons : Bool) (block : Block) (item : ListItem) (ordered : ℤ) : Lead :=
  if withIcons && item.taskState ≠ .none then
    .icon (item.taskState = .checked)
  else if item.taskState = .unchecked then
    .text (ascii "[ ] ")
  else if item.taskState = .checked then
    .text (ascii "[x] ")
  else if block.listKind = .ordered then
    let marker := orderedMarkerText unicode block.orderedList item.number ordered
    .text (if marker.isEmpty then [] else marker ++ ascii " ")
  else
    .text (ascii "- ")

/-- The loop over the items of a list in `AppendSummaryBlock`. -/
def summaryLoop (withIcons : Bool) (block : Block) : List ListItem → ℤ → List Lead
  | [], _ => []
  | item :: rest, ordered =>
    let orderedValue := item.number.value.getD ordered
    summaryLead unicode withIcons block item ordered
      :: summaryLoop withIcons block rest
        (if block.listKind = .ordered then orderedValue + orderedListSequenceStep block
        else ordered)

/-- What the lines of a list begin with in `AppendSummaryBlock`. -/
def summaryLeads (withIcons : Bool) (block : Block) : List Lead :=
  summaryLoop unicode withIcons block block.listItems (orderedListSequenceStart block)

/-! ## The editor -/

/-- `ResolvePreparedOrderedListType`, of `iv_editor_page_list.cpp`. -/
def resolvePreparedOrderedListType (type : Option QString) : PreparedOrderedListType :=
  match type with
  | none => .decimal
  | some value =>
    let equals (name : String) : Bool := unicode.equalIgnoringCase value (ascii name)
    if value = ascii "a" || equals "lower-alpha" || equals "lower-latin" then
      .lowerAlpha
    else if value = ascii "A" || equals "upper-alpha" || equals "upper-latin" then
      .upperAlpha
    else if value = ascii "i" || equals "lower-roman" then
      .lowerRoman
    else if value = ascii "I" || equals "upper-roman" then
      .upperRoman
    else
      .decimal

/-- `EffectiveOrderedListType`. -/
def effectiveOrderedListType (block : Block) (item : ListItem) : PreparedOrderedListType :=
  if item.number.type.isSome then
    resolvePreparedOrderedListType unicode item.number.type
  else
    resolvePreparedOrderedListType unicode block.orderedList.type

/-- The loop of `EffectiveOrderedItemValue`. -/
def effectiveLoop (step : ℤ) : List ListItem → ℤ → ℕ → Option ℤ
  | [], _, _ => none
  | item :: rest, next, index =>
    let value := item.number.value.getD next
    match index with
    | 0 => some value
    | index + 1 => effectiveLoop step rest (value + step) index

/-- `EffectiveOrderedItemValue`. -/
def effectiveOrderedItemValue (block : Block) (itemIndex : ℤ) : Option ℤ :=
  if block.kind ≠ .list ∨ block.listKind ≠ .ordered ∨ itemIndex < 0
      ∨ block.listItems.length ≤ itemIndex then
    none
  else
    effectiveLoop (orderedListSequenceStep block) block.listItems (orderedListSequenceStart block)
      itemIndex.toNat

/-- `ListIsTaskList`. -/
def listIsTaskList (block : Block) : Bool := block.listItems.any (·.taskState ≠ .none)

/-- `ListsJoinable`. -/
def listsJoinable (first second : Block) : Bool :=
  first.kind = .list && second.kind = .list && first.listKind = second.listKind
    && listIsTaskList first = listIsTaskList second

/-- `ownNumbering` of `ListsJoinSeamlessly`. -/
def ownNumbering (second : Block) (secondStartExplicit : Bool) : Bool :=
  secondStartExplicit || second.orderedList.start.isSome
    || second.listItems.any (·.number ≠ {})

/-- `ListsJoinSeamlessly`. -/
def listsJoinSeamlessly (first second : Block) (secondStartExplicit : Bool) : Bool :=
  if !listsJoinable first second || first.listItems.isEmpty || second.listItems.isEmpty then
    false
  else if first.listKind ≠ .ordered then
    true
  else if first.orderedList.reversed || second.orderedList.reversed then
    false
  else if resolvePreparedOrderedListType unicode first.orderedList.type
      ≠ resolvePreparedOrderedListType unicode second.orderedList.type then
    false
  else if !ownNumbering second secondStartExplicit then
    true
  else
    match effectiveOrderedItemValue first (first.listItems.length - 1),
      effectiveOrderedItemValue second 0 with
    | some last, some next => last + 1 = next
    | _, _ => false

/-- The first list, with the items of the second appended. -/
def joined (first second : Block) : Block :=
  { first with listItems := first.listItems ++ second.listItems }

end

end Yunogram.Iv.ListNumbering
