import Mathlib

/-!
# Iv/RichTextSerializer — a text with entities becomes a tree of rich text

The entities of a text are sorted, outer ones first, and a range of the text is written from left to
right: plain text up to the next entity that fits into the range, then that entity around what is
written of its own range, without the entities that are around it already.  An entity that crosses
the border of another one fits nowhere and is left out.

Strings of the protocol are taken as the texts they are made of.  What is looked up outside of the
text (users, documents, the parts of a custom emoji, a link or a date) is a parameter.
-/

namespace Yunogram.Iv

/-- `QString`, by its UTF-16 units. -/
abbrev QString := List UInt16

/-- A text of ASCII characters. -/
def ascii (s : String) : QString := s.toList.map fun c => UInt16.ofNat c.toNat

/-- `EntityType`. -/
inductive EntityType
  | invalid | customUrl | mentionName | bold | italic | underline | strikeOut | code | subscript
  | superscript | marked | spoiler | customEmoji | formattedDate | mention | hashtag | botCommand
  | cashtag | url | email | phone | bankCard | semibold | mediaTimestamp | colorized | pre
  | blockquote
  deriving DecidableEq

/-- `EntitySerializationOrder`. -/
def entitySerializationOrder : EntityType → ℕ
  | .customUrl => 0
  | .mentionName => 1
  | .bold => 2
  | .italic => 3
  | .underline => 4
  | .strikeOut => 5
  | .code => 6
  | .subscript => 7
  | .superscript => 8
  | .marked => 9
  | .spoiler => 10
  | .customEmoji => 11
  | .formattedDate => 12
  | .mention => 13
  | .hashtag => 14
  | .botCommand => 15
  | .cashtag => 16
  | .url => 17
  | .email => 18
  | .phone => 19
  | .bankCard => 20
  | .invalid | .semibold | .mediaTimestamp | .colorized | .pre | .blockquote => 100

/-- `EntityInText`. -/
structure EntityInText where
  type : EntityType
  offset : ℤ
  length : ℤ
  data : QString
  deriving DecidableEq

/-- An entity with a range in a text. -/
structure RangeEntity where
  type : EntityType
  offset : ℕ
  length : ℕ
  data : QString
  positive : 0 < length
  deriving DecidableEq

/-- The end of an entity's range. -/
def RangeEntity.till (e : RangeEntity) : ℕ := e.offset + e.length

/-- The entity, if its range is in the text. -/
def EntityInText.inRange? (textLength : ℕ) (e : EntityInText) : Option RangeEntity :=
  if h : e.offset < 0 ∨ e.length ≤ 0 ∨ e.offset + e.length > textLength then none
  else some ⟨e.type, e.offset.toNat, e.length.toNat, e.data, by omega⟩

/-- The entities whose ranges are in the text. -/
def inRange (text : QString) (entities : List EntityInText) : List RangeEntity :=
  entities.filterMap (·.inRange? text.length)

/-- The order of `SortedRichTextEntities`: an entity may stand before another one. -/
def RangeEntity.Before (a b : RangeEntity) : Prop :=
  a.offset < b.offset ∨ a.offset = b.offset ∧ (b.length < a.length ∨ a.length = b.length ∧
    entitySerializationOrder a.type ≤ entitySerializationOrder b.type)

instance : DecidableRel RangeEntity.Before := fun _ _ => inferInstanceAs (Decidable (_ ∨ _))

/-- `std::sort` with that order; entities that are equal in it come out in any order. -/
structure StdSort where
  sort : List RangeEntity → List RangeEntity
  perm : ∀ entities, (sort entities).Perm entities
  sorted : ∀ entities, (sort entities).Pairwise RangeEntity.Before

/-- `SortedRichTextEntities`. -/
def sortedRichTextEntities (std : StdSort) (text : QString) (entities : List EntityInText) :
    List RangeEntity :=
  std.sort (inRange text entities)

/-! ## Rich text -/

/-- `FormattedDateFlags`, and the flags of `MTPDtextDate`. -/
structure DateFlags where
  relative : Bool
  shortTime : Bool
  longTime : Bool
  shortDate : Bool
  longDate : Bool
  dayOfWeek : Bool
  deriving DecidableEq

/-- The kinds of `MTPRichText` that are around another one. -/
inductive RichTextWrapper
  | textBold | textItalic | textUnderline | textStrike | textFixed | textSubscript
  | textSuperscript | textMarked | textSpoiler
  | textEmail (email : QString)
  | textPhone (phone : QString)
  | textUrl (url : QString) (webpageId : ℕ)
  | textMentionName (userId : ℕ)
  | textDate (flags : DateFlags) (date : ℤ)
  deriving DecidableEq

/-- `MTPRichText`; what stands for a custom emoji is an object. -/
inductive MTPRichText (Object : Type)
  | textEmpty
  | textPlain (text : QString)
  | textConcat (texts : List (MTPRichText Object))
  | wrapped (wrapper : RichTextWrapper) (text : MTPRichText Object)
  | object (object : Object)

variable {Object Context : Type}

/-- `MakePlainRichText`. -/
def makePlainRichText (text : QString) : MTPRichText Object :=
  if text.isEmpty then .textEmpty else .textPlain text

/-- `JoinRichTextParts`. -/
def joinRichTextParts : List (MTPRichText Object) → MTPRichText Object
  | [] => .textEmpty
  | [part] => part
  | parts => .textConcat parts

/-- `QString::mid`. -/
def mid (text : QString) (position n : ℕ) : QString := (text.drop position).take n

/-! ## Writing a range -/

/-- What is looked up: `CollectMentionUser`, `DecodeRichPageLinkUrl`, `DeserializeFormattedDateData`
and what a custom emoji becomes, with the context that collects what is found. -/
structure Lookup (Object Context : Type) where
  collectMentionUser : Context → QString → Option ℕ × Context
  decodeRichPageLinkUrl : QString → Option QString
  deserializeFormattedDateData : QString → ℤ × DateFlags
  customEmoji : Context → QString → QString → Option (MTPRichText Object) × Context

/-- What an entity of any type but a custom emoji puts around its text. -/
def Lookup.wrapper (lookup : Lookup Object Context) (context : Context) (entity : RangeEntity) :
    Option RichTextWrapper × Context :=
  match entity.type with
  | .bold => (some .textBold, context)
  | .italic => (some .textItalic, context)
  | .underline => (some .textUnderline, context)
  | .strikeOut => (some .textStrike, context)
  | .code => (some .textFixed, context)
  | .subscript => (some .textSubscript, context)
  | .superscript => (some .textSuperscript, context)
  | .marked => (some .textMarked, context)
  | .spoiler => (some .textSpoiler, context)
  | .mention | .hashtag | .botCommand | .cashtag | .url | .email | .phone | .bankCard =>
    (none, context)
  | .customUrl =>
    let data := entity.data
    if (ascii "mailto:").isPrefixOf data then (some (.textEmail (data.drop 7)), context)
    else if (ascii "tel:").isPrefixOf data then (some (.textPhone (data.drop 4)), context)
    else (some (.textUrl ((lookup.decodeRichPageLinkUrl data).getD data) 0), context)
  | .mentionName =>
    let (userId, context) := lookup.collectMentionUser context entity.data
    (userId.map .textMentionName, context)
  | .formattedDate =>
    let (date, flags) := lookup.deserializeFormattedDateData entity.data
    (if date = 0 then none else some (.textDate flags date), context)
  | .invalid | .semibold | .mediaTimestamp | .colorized | .pre | .blockquote | .customEmoji =>
    (none, context)

/-- Some types have nothing around their text. -/
def wrapRichText : Option RichTextWrapper → MTPRichText Object → MTPRichText Object
  | some wrapper, inner => .wrapped wrapper inner
  | none, inner => inner

/-- `SerializeRichTextEntity`, once its range is written. -/
def serializeRichTextEntity (lookup : Lookup Object Context) (context : Context)
    (entity : RangeEntity) (segment : QString) (inner : MTPRichText Object) :
    Option (MTPRichText Object) × Context :=
  if entity.type = .customEmoji then lookup.customEmoji context entity.data segment
  else
    let (wrapper, context) := lookup.wrapper context entity
    (some (wrapRichText wrapper inner), context)

section

variable {n : ℕ} (entities : Fin n → RangeEntity)

/-- `SkipEntityForRange`. -/
def skipEntityForRange (index : Fin n) : Option (Fin n) → Bool
  | none => false
  | some skip =>
    index = skip || (index < skip && (entities index).offset = (entities skip).offset
      && (entities index).length = (entities skip).length)

/-- An entity that the loop of `SerializeRichTextRange` looks for. -/
def fits (position till : ℕ) (skip : Option (Fin n)) (index : Fin n) : Bool :=
  !skipEntityForRange entities index skip && position ≤ (entities index).offset
    && (entities index).till ≤ till

/-- `nextEntityStart`. -/
def nextEntityStart (position till : ℕ) (skip : Option (Fin n)) : ℕ :=
  match (List.finRange n).find? (fits entities position till skip) with
  | some index => (entities index).offset
  | none => till

/-- `FindOuterEntityAt`, for the entities from an index on. -/
def findOuterEntityAt (position till : ℕ) (skip : Option (Fin n)) :
    List (Fin n) → Option (Fin n)
  | [] => none
  | index :: rest =>
    if skipEntityForRange entities index skip then findOuterEntityAt position till skip rest
    else if (entities index).offset = position ∧ (entities index).till ≤ till then some index
    else if position < (entities index).offset then none
    else findOuterEntityAt position till skip rest

/-- `SerializeRichTextRange` from a position of its loop on, the parts written so far with it, in at
most `fuel` steps. -/
def serializeRichTextRange (lookup : Lookup Object Context) (text : QString) :
    ℕ → (till : ℕ) → (skip : Option (Fin n)) → (position : ℕ) →
      (parts : List (MTPRichText Object)) → Context →
      Option (Option (MTPRichText Object) × Context)
  | 0, _, _, _, _, _ => none
  | fuel + 1, till, skip, position, parts, context =>
    if position < till then
      let next := nextEntityStart entities position till skip
      if position < next then
        serializeRichTextRange lookup text fuel till skip next
          (parts ++ [makePlainRichText (mid text position (next - position))]) context
      else
        match findOuterEntityAt entities position till skip (List.finRange n) with
        | none =>
          serializeRichTextRange lookup text fuel till skip (position + 1)
            (parts ++ [makePlainRichText (mid text position 1)]) context
        | some index =>
          let entity := entities index
          match serializeRichTextRange lookup text fuel entity.till (some index) entity.offset []
            context with
          | none => none
          | some (none, context) => some (none, context)
          | some (some inner, context) =>
            match serializeRichTextEntity lookup context entity
              (mid text entity.offset entity.length) inner with
            | (none, context) => some (none, context)
            | (some wrapped, context) =>
              serializeRichTextRange lookup text fuel till skip entity.till (parts ++ [wrapped])
                context
    else some (some (joinRichTextParts parts), context)

end

/-- The steps that are enough for a text and a number of entities. -/
def enoughSteps (textLength entities : ℕ) : ℕ := textLength * (entities + 1) + entities + 1

/-- `SerializeRichTextValue`. -/
def serializeRichTextValue (lookup : Lookup Object Context) (std : StdSort) (text : QString)
    (entities : List EntityInText) (context : Context) :
    Option (Option (MTPRichText Object) × Context) :=
  let sorted := sortedRichTextEntities std text entities
  serializeRichTextRange sorted.get lookup text (enoughSteps text.length sorted.length) text.length
    none 0 [] context

end Yunogram.Iv
