import Mathlib
import Yunogram.Iv.RichTextSerializer
import Yunogram.Machinery.PercentEncoding

/-!
# Iv/InlineTextObjects — formulas, images and buttons inside of a text

`iv_markdown_prepare_serialize.cpp` keeps an object of a text in the data of a custom emoji: its
fields, percent encoded, between semicolons.  The label of a button is such a field and has fields
of its own.

`ExpandInlineTextObjects` and `ExpandInlineLinkButtons` put texts in the places of objects, one
after the other, with the entities of the text moved along.  They are one loop (`expandLoop`), over
what an entity is to be replaced by. -/

open Machinery

namespace Yunogram.Iv.Markdown

/-- `TextWithEntities`. -/
structure TextWithEntities where
  text : QString
  entities : List EntityInText := []
  deriving DecidableEq

/-- UTF-8 and `QString::toLongLong` with its kin, before the range of the type is looked at: exact
on what is well formed, and on the texts of numbers. -/
structure Library where
  toUtf8 : QString → List UInt8
  fromUtf8 : List UInt8 → QString
  toInteger : QString → Option ℤ
  WellFormed : QString → Prop
  exact : ∀ text, WellFormed text → fromUtf8 (toUtf8 text) = text
  ascii : ∀ bytes : List UInt8, (∀ b ∈ bytes, b < 128) →
    fromUtf8 bytes = bytes.map (·.toUInt16) ∧ WellFormed (bytes.map (·.toUInt16))
  exactInteger : ∀ n : ℤ, toInteger (Iv.ascii (toString n)) = some n

/-- `QString::number`. -/
def number (n : ℤ) : QString := ascii (toString n)

/-- `QStringView::toLatin1`; what is not in Latin-1 becomes a question mark. -/
def toLatin1 (text : QString) : List UInt8 :=
  text.map fun unit => if unit < 256 then unit.toUInt8 else 63

/-- A text of one ASCII character. -/
def unit (c : Char) : UInt16 := UInt16.ofNat c.toNat

/-! ## The objects -/

/-- `InlineTextObjectKind`. -/
inductive InlineTextObjectKind
  | formula | ivImage | button
  deriving DecidableEq

/-- `HistoryMessageMarkupButton::Type`. -/
inductive ButtonType
  | default | url | callback | callbackWithPassword | requestPhone | requestLocation | requestPoll
  | requestPeer | switchInline | switchInlineSame | game | buy | auth | userProfile | webView
  | simpleWebView | copyText | disabled | suggestDecline | suggestAccept | suggestChange
  | createBot
  deriving DecidableEq

/-- The types of buttons in their order, up to `kCount`. -/
def ButtonType.all : List ButtonType :=
  [default, url, callback, callbackWithPassword, requestPhone, requestLocation, requestPoll,
    requestPeer, switchInline, switchInlineSame, game, buy, auth, userProfile, webView,
    simpleWebView, copyText, disabled, suggestDecline, suggestAccept, suggestChange, createBot]

/-- `HistoryMessageMarkupButton::Color`. -/
inductive ButtonColor
  | normal | primary | danger | success
  deriving DecidableEq

/-- The colors in their order, up to `Success`. -/
def ButtonColor.all : List ButtonColor := [normal, primary, danger, success]

/-- `InlineTextObjectFormulaData`. -/
structure InlineTextObjectFormulaData where
  copySource : QString
  trimmedTex : QString
  deriving DecidableEq

/-- `InlineTextObjectIvImageData`. -/
structure InlineTextObjectIvImageData where
  documentId : UInt64
  width : Int32
  height : Int32
  replacementText : QString
  deriving DecidableEq

/-- `InlineTextObjectButtonData`. -/
structure InlineTextObjectButtonData where
  label : TextWithEntities
  data : List UInt8
  buttonId : Int64
  type : ButtonType
  color : ButtonColor
  peerTypes : UInt8
  link : Bool
  deriving DecidableEq

/-- The `data` of an `InlineTextObjectEntity`. -/
inductive InlineTextObjectData
  | formula (data : InlineTextObjectFormulaData)
  | ivImage (data : InlineTextObjectIvImageData)
  | button (data : InlineTextObjectButtonData)
  deriving DecidableEq

/-- The kind of some data. -/
def InlineTextObjectData.kind : InlineTextObjectData → InlineTextObjectKind
  | formula _ => .formula
  | ivImage _ => .ivImage
  | button _ => .button

/-- `InlineTextObjectEntity`. -/
structure InlineTextObjectEntity where
  kind : InlineTextObjectKind
  data : InlineTextObjectData
  deriving DecidableEq

/-! ## Serialization -/

section

variable (lib : Library)

/-- `EncodeInlineTextObjectBytes`. -/
def encodeInlineTextObjectBytes (value : List UInt8) : QString :=
  lib.fromUtf8 (Percent.encode value)

/-- `DecodeInlineTextObjectBytes`. -/
def decodeInlineTextObjectBytes (value : QString) : List UInt8 := Percent.decode (toLatin1 value)

/-- `EncodeInlineTextObjectField`. -/
def encodeInlineTextObjectField (value : QString) : QString :=
  encodeInlineTextObjectBytes lib (lib.toUtf8 value)

/-- `DecodeInlineTextObjectField`. -/
def decodeInlineTextObjectField (value : QString) : QString :=
  lib.fromUtf8 (decodeInlineTextObjectBytes value)

/-- `toInt`, `toLongLong`, `toULongLong` and `toUInt`, by the range of the type. -/
def toNumber (least most : ℤ) (text : QString) : Option ℤ :=
  (lib.toInteger text).filter fun n => least ≤ n ∧ n ≤ most

/-- `toInt`. -/
def toInt : QString → Option ℤ := toNumber lib (-2 ^ 31) (2 ^ 31 - 1)

/-- `RichButtonLabelEntityName`. -/
def richButtonLabelEntityName : EntityType → QString
  | .customEmoji => ascii "custom-emoji"
  | .formattedDate => ascii "formatted-date"
  | _ => []

/-- `RichButtonLabelEntityType`. -/
def richButtonLabelEntityType (name : QString) : EntityType :=
  if name = ascii "custom-emoji" then .customEmoji
  else if name = ascii "formatted-date" then .formattedDate
  else .invalid

/-- `SerializeRichButtonLabel`. -/
def serializeRichButtonLabel (text : TextWithEntities) : QString :=
  text.entities.foldl
    (fun result entity =>
      let name := richButtonLabelEntityName entity.type
      if name.isEmpty then result
      else
        result ++ (ascii "|" ++ name ++ ascii "," ++ number entity.offset ++ ascii "," ++
          number entity.length ++ ascii "," ++ encodeInlineTextObjectField lib entity.data))
    (encodeInlineTextObjectField lib text.text)

/-- One of the parts of a label after the first; `none` is one that is skipped. -/
def parseRichButtonLabelEntity (size : ℕ) (part : QString) : Option EntityInText :=
  match part.splitOn (unit ',') with
  | [name, offset, length, data] =>
    let type := richButtonLabelEntityType name
    match toInt lib offset, toInt lib length with
    | some offset, some length =>
      if type = .invalid ∨ offset < 0 ∨ length ≤ 0 ∨ offset + length > size then none
      else some ⟨type, offset, length, decodeInlineTextObjectField lib data⟩
    | _, _ => none
  | _ => none

/-- `ParseRichButtonLabel`. -/
def parseRichButtonLabel (data : QString) : TextWithEntities :=
  match data.splitOn (unit '|') with
  | [] => { text := [] }
  | first :: parts =>
    let text := decodeInlineTextObjectField lib first
    { text := text, entities := parts.filterMap (parseRichButtonLabelEntity lib text.length) }

/-- `SerializeInlineTextObjectEntity`. -/
def serializeInlineTextObjectEntity (object : InlineTextObjectEntity) : QString :=
  match object.kind, object.data with
  | .formula, .formula data =>
    ascii "iv-markdown:inline-text-object;formula;" ++
      encodeInlineTextObjectField lib data.copySource ++ ascii ";" ++
      encodeInlineTextObjectField lib data.trimmedTex
  | .ivImage, .ivImage data =>
    ascii "iv-markdown:inline-text-object;iv-image;" ++ number data.documentId.toNat ++
      ascii ";" ++ number data.width.toInt ++ ascii ";" ++ number data.height.toInt ++
      ascii ";" ++ encodeInlineTextObjectField lib data.replacementText
  | .button, .button data =>
    ascii "iv-markdown:inline-text-object;button;" ++
      encodeInlineTextObjectField lib (serializeRichButtonLabel lib data.label) ++
      ascii ";" ++ number (ButtonColor.all.idxOf data.color) ++
      ascii ";" ++ number (ButtonType.all.idxOf data.type) ++
      ascii ";" ++ number (if data.link then 1 else 0) ++
      ascii ";" ++ encodeInlineTextObjectBytes lib data.data ++
      ascii ";" ++ number data.buttonId.toInt ++ ascii ";" ++ number data.peerTypes.toNat
  | _, _ => []

/-- `ParseInlineTextObjectEntity`. -/
def parseInlineTextObjectEntity (data : QString) : Option InlineTextObjectEntity :=
  match data.splitOn (unit ';') with
  | prefix_ :: kind :: parts =>
    if prefix_ ≠ ascii "iv-markdown:inline-text-object" then none
    else if kind = ascii "formula" then
      match parts with
      | [copySource, trimmedTex] =>
        some
          { kind := .formula
            data := .formula
              { copySource := decodeInlineTextObjectField lib copySource
                trimmedTex := decodeInlineTextObjectField lib trimmedTex } }
      | _ => none
    else if kind = ascii "iv-image" then
      match parts with
      | [documentId, width, height, replacementText] =>
        match toNumber lib 0 (2 ^ 64 - 1) documentId, toInt lib width, toInt lib height with
        | some documentId, some width, some height =>
          some
            { kind := .ivImage
              data := .ivImage
                { documentId := UInt64.ofNat documentId.toNat
                  width := Int32.ofInt width
                  height := Int32.ofInt height
                  replacementText := decodeInlineTextObjectField lib replacementText } }
        | _, _, _ => none
      | _ => none
    else if kind = ascii "button" then
      match parts with
      | [label, color, type, link, data, buttonId, peerTypes] =>
        match toInt lib color, toInt lib type, toNumber lib (-2 ^ 63) (2 ^ 63 - 1) buttonId,
            toNumber lib 0 (2 ^ 32 - 1) peerTypes with
        | some color, some type, some buttonId, some peerTypes =>
          if color < 0 ∨ type < 0 ∨ peerTypes > 255 then none
          else
            match ButtonColor.all[color.toNat]?, ButtonType.all[type.toNat]? with
            | some color, some type =>
              some
                { kind := .button
                  data := .button
                    { label := parseRichButtonLabel lib (decodeInlineTextObjectField lib label)
                      data := decodeInlineTextObjectBytes data
                      buttonId := Int64.ofInt buttonId
                      type := type
                      color := color
                      peerTypes := UInt8.ofNat peerTypes.toNat
                      link := decide (link = ascii "1") } }
            | _, _ => none
        | _, _, _, _ => none
      | _ => none
    else none
  | _ => none

end

/-! ## Expansion -/

/-- `EntityInText::shiftRight`. -/
def shiftRight (entity : EntityInText) (shift : ℤ) : EntityInText :=
  { entity with offset := entity.offset + shift }

/-- `EntityInText::shrinkFromRight`. -/
def shrinkFromRight (entity : EntityInText) (shrink : ℤ) : EntityInText :=
  { entity with length := entity.length - shrink }

/-- What an object is replaced by, and the data of the span that is returned for it. -/
structure Replacement where
  text : QString
  entities : List EntityInText := []
  span : Option QString := none

/-- What `ReplaceInlineObjectText` does to one of the other entities. -/
def adjusted (object : EntityInText) (replacement : QString) (entity : EntityInText) :
    EntityInText :=
  let delta := replacement.length - object.length
  if entity.offset > object.offset then shiftRight entity delta
  else if entity.offset + entity.length > object.offset then shrinkFromRight entity (-delta)
  else entity

/-- The text of `ReplaceInlineObjectText`. -/
def replaced (text : QString) (object : EntityInText) (replacement : QString) : QString :=
  text.take object.offset.toNat ++ replacement ++
    text.drop (object.offset + object.length).toNat

/-- `InlineLinkButtonSpan`. -/
structure InlineLinkButtonSpan where
  offset : ℤ
  length : ℤ
  data : QString

/-- What an expansion has come to: the text, and the entities before the iterator. -/
structure Expansion where
  text : QString
  before : List EntityInText := []
  spans : List InlineLinkButtonSpan := []

/-- `ExpandInlineObjectEntities` at the iterator: the nested entities stand in its place, and the
iterator behind them. -/
def Expansion.expand (s : Expansion) (object : EntityInText) (r : Replacement) : Expansion :=
  { text := replaced s.text object r.text
    before := s.before.map (adjusted object r.text) ++
      r.entities.map fun entity => { entity with offset := entity.offset + object.offset }
    spans := s.spans ++ match r.span with
      | some data => [⟨object.offset, r.text.length, data⟩]
      | none => [] }

/-- The loop of the two expansions, at an iterator with some entities from it on. -/
def expandLoop (replacementOf : EntityInText → Option Replacement) (s : Expansion) :
    List EntityInText → Expansion
  | [] => s
  | entity :: entities =>
    match replacementOf entity with
    | none => expandLoop replacementOf { s with before := s.before ++ [entity] } entities
    | some r =>
      expandLoop replacementOf (s.expand entity r) (entities.map (adjusted entity r.text))
  termination_by entities => entities.length

/-- What `ExpandInlineTextObjects` without icons replaces an entity by. -/
def objectReplacement (lib : Library) (entity : EntityInText) : Option Replacement :=
  if entity.type ≠ .customEmoji then none
  else (parseInlineTextObjectEntity lib entity.data).map fun object =>
    match object.data with
    | .formula data => { text := data.trimmedTex }
    | .ivImage data => { text := data.replacementText }
    | .button data => { text := data.label.text, entities := data.label.entities }

/-- `ExpandInlineTextObjects`, without icons. -/
def expandInlineTextObjects (lib : Library) (text : TextWithEntities) : TextWithEntities :=
  let result := expandLoop (objectReplacement lib) { text := text.text } text.entities
  { text := result.text, entities := result.before }

/-- `InlineLinkButtonFor`. -/
def inlineLinkButtonFor (lib : Library) (entity : EntityInText) :
    Option InlineTextObjectButtonData :=
  if entity.type ≠ .customEmoji then none
  else
    match parseInlineTextObjectEntity lib entity.data with
    | some { kind := _, data := .button button } => if button.link then some button else none
    | _ => none

/-- `DeserializeFormattedDateData` with the factory of dates: the text of a date, unless it stays as
it is. -/
abbrev DateText := QString → Option QString

/-- What `ResolveRichButtonLabelDates` makes of another entity when it replaces a date. -/
def resolvedBeside (date : EntityInText) (replacement : QString) (entity : EntityInText) :
    Option EntityInText :=
  let delta := replacement.length - date.length
  let till := date.offset + date.length
  if entity.offset ≥ till then some (shiftRight entity delta)
  else if entity.offset + entity.length ≤ date.offset then some entity
  else if entity.offset ≤ date.offset ∧ entity.offset + entity.length ≥ till then
    some (shrinkFromRight entity (-delta))
  else none

/-- `ResolveRichButtonLabelDates`. -/
def resolveRichButtonLabelDates (dates : DateText) (label : TextWithEntities) :
    TextWithEntities :=
  match label.entities.findIdx? fun entity => entity.type = .formattedDate with
  | none => label
  | some i =>
    match _hdate : label.entities[i]? with
    | none => label
    | some date =>
      match dates date.data with
      | none =>
        resolveRichButtonLabelDates dates { label with entities := label.entities.eraseIdx i }
      | some replacement =>
        resolveRichButtonLabelDates dates
          { text := replaced label.text date replacement
            entities := (label.entities.eraseIdx i).filterMap (resolvedBeside date replacement) }
  termination_by label.entities.length
  decreasing_by
    all_goals
      have hi : i < label.entities.length := (List.getElem?_eq_some_iff.1 _hdate).1
      have herased : (label.entities.eraseIdx i).length < label.entities.length := by
        rw [List.length_eraseIdx, if_pos hi]
        omega
    · exact herased
    · exact (List.length_filterMap_le _ _).trans_lt herased

/-- `RichButtonLabelDates`; when they are resolved, the dates' texts. -/
inductive RichButtonLabelDates
  | keep
  | resolve (dates : DateText)

/-- The label that stands for a button. -/
def RichButtonLabelDates.label : RichButtonLabelDates → TextWithEntities → TextWithEntities
  | keep, label => label
  | resolve dates, label => resolveRichButtonLabelDates dates label

/-- What `ExpandInlineLinkButtons` replaces an entity by. -/
def buttonReplacement (lib : Library) (dates : RichButtonLabelDates) (entity : EntityInText) :
    Option Replacement :=
  (inlineLinkButtonFor lib entity).map fun button =>
    let label := dates.label button.label
    { text := label.text
      entities := label.entities
      span := if button.type ≠ .disabled ∧ label.text ≠ [] then some entity.data else none }

/-- `ExpandInlineLinkButtons`. -/
def expandInlineLinkButtons (lib : Library) (dates : RichButtonLabelDates)
    (text : TextWithEntities) : TextWithEntities × List InlineLinkButtonSpan :=
  let result := expandLoop (buttonReplacement lib dates) { text := text.text } text.entities
  ({ text := result.text, entities := result.before }, result.spans)

end Yunogram.Iv.Markdown
