import Mathlib

/-!
# Api/TextEntities — entities of a text, as they are kept and as they are sent

`entityFromMTP` and `entityToMTP` are the bodies of the loops of `EntitiesFromMTP` and `EntitiesToMTP`.
An entity that is sent and received again is `resent`: one that is local is dropped, and one of most
other kinds stays as it is (`resent_of_kept`).
-/

namespace Yunogram.Api

/-- `EntityType`, with `other` for those that are not of the API. -/
inductive EntityType
  | url
  | customUrl
  | email
  | hashtag
  | cashtag
  | mention
  | mentionName
  | customEmoji
  | botCommand
  | phone
  | bankCard
  | bold
  | italic
  | underline
  | strikeOut
  | code
  | pre
  | blockquote
  | spoiler
  | formattedDate
  | other
  deriving DecidableEq

/-- `EntityInText`. -/
structure EntityInText where
  type : EntityType
  offset : ℤ
  length : ℤ
  data : String
  deriving DecidableEq

/-- `FormattedDateFlags`. -/
structure FormattedDateFlags where
  relative : Bool
  shortTime : Bool
  longTime : Bool
  shortDate : Bool
  longDate : Bool
  dayOfWeek : Bool

/-- `MTPMessageEntity`, with `InputUser` for the user of a mention. -/
inductive MTPMessageEntity (InputUser : Type)
  | unknown (offset length : ℤ)
  | mention (offset length : ℤ)
  | hashtag (offset length : ℤ)
  | botCommand (offset length : ℤ)
  | url (offset length : ℤ)
  | email (offset length : ℤ)
  | bold (offset length : ℤ)
  | italic (offset length : ℤ)
  | code (offset length : ℤ)
  | pre (offset length : ℤ) (language : String)
  | textUrl (offset length : ℤ) (url : String)
  | mentionName (offset length : ℤ) (userId : UInt64)
  | inputMentionName (offset length : ℤ) (user : InputUser)
  | phone (offset length : ℤ)
  | cashtag (offset length : ℤ)
  | underline (offset length : ℤ)
  | strike (offset length : ℤ)
  | bankCard (offset length : ℤ)
  | spoiler (offset length : ℤ)
  | customEmoji (offset length : ℤ) (documentId : UInt64)
  | blockquote (collapsed : Bool) (offset length : ℤ)
  | formattedDate (flags : FormattedDateFlags) (offset length : ℤ) (date : ℤ)
  | diffInsert
  | diffReplace
  | diffDelete

/-- What converts the data of entities: of numbers and dates, of urls, and of the users that the
session knows. -/
structure Conversions (InputUser : Type) where
  number : UInt64 → String
  toULongLong : String → UInt64
  serializeFormattedDateData : ℤ → FormattedDateFlags → String
  deserializeFormattedDateData : String → ℤ × FormattedDateFlags
  externalUrlFromInternalUrl : String → String
  isInternalUrl : String → Bool
  mentionNameData : UInt64 → String
  inputMentionNameData : InputUser → String

variable {InputUser : Type} (c : Conversions InputUser)

/-- What `EntitiesFromMTP` makes of an entity, with a session. -/
def entityFromMTP : MTPMessageEntity InputUser → List EntityInText
  | .unknown .. => []
  | .mention offset length => [⟨.mention, offset, length, ""⟩]
  | .hashtag offset length => [⟨.hashtag, offset, length, ""⟩]
  | .botCommand offset length => [⟨.botCommand, offset, length, ""⟩]
  | .url offset length => [⟨.url, offset, length, ""⟩]
  | .email offset length => [⟨.email, offset, length, ""⟩]
  | .bold offset length => [⟨.bold, offset, length, ""⟩]
  | .italic offset length => [⟨.italic, offset, length, ""⟩]
  | .code offset length => [⟨.code, offset, length, ""⟩]
  | .pre offset length language => [⟨.pre, offset, length, language⟩]
  | .textUrl offset length url =>
    if c.isInternalUrl url then [] else [⟨.customUrl, offset, length, url⟩]
  | .mentionName offset length userId => [⟨.mentionName, offset, length, c.mentionNameData userId⟩]
  | .inputMentionName offset length user =>
    let data := c.inputMentionNameData user
    if data = "" then [] else [⟨.mentionName, offset, length, data⟩]
  | .phone offset length => [⟨.phone, offset, length, ""⟩]
  | .cashtag offset length => [⟨.cashtag, offset, length, ""⟩]
  | .underline offset length => [⟨.underline, offset, length, ""⟩]
  | .strike offset length => [⟨.strikeOut, offset, length, ""⟩]
  | .bankCard offset length => [⟨.bankCard, offset, length, ""⟩]
  | .spoiler offset length => [⟨.spoiler, offset, length, ""⟩]
  | .customEmoji offset length documentId =>
    [⟨.customEmoji, offset, length, c.number documentId⟩]
  | .blockquote collapsed offset length =>
    [⟨.blockquote, offset, length, if collapsed then "1" else ""⟩]
  | .formattedDate flags offset length date =>
    [⟨.formattedDate, offset, length, c.serializeFormattedDateData date flags⟩]
  | .diffInsert => []
  | .diffReplace => []
  | .diffDelete => []

/-- The kinds that `ConvertOption::SkipLocal` does not skip. -/
def EntityType.isSent : EntityType → Bool
  | bold | italic | underline | strikeOut | code | pre | blockquote | spoiler | mentionName
  | customUrl | customEmoji | formattedDate => true
  | _ => false

/-- What `EntitiesToMTP` makes of an entity, without a session and with `ConvertOption::SkipLocal`;
nothing where it expects a session. -/
def entityToMTP (entity : EntityInText) : Option (List (MTPMessageEntity InputUser)) :=
  let offset := entity.offset
  let length := entity.length
  if length ≤ 0 ∨ entity.type.isSent = false then some []
  else
    match entity.type with
    | .customUrl =>
      let external := c.externalUrlFromInternalUrl entity.data
      let url := if external = "" then entity.data else external
      some (if c.isInternalUrl url then [] else [.textUrl offset length url])
    | .mentionName => none
    | .bold => some [.bold offset length]
    | .italic => some [.italic offset length]
    | .underline => some [.underline offset length]
    | .strikeOut => some [.strike offset length]
    | .code => some [.code offset length]
    | .pre => some [.pre offset length entity.data]
    | .blockquote => some [.blockquote (entity.data ≠ "") offset length]
    | .spoiler => some [.spoiler offset length]
    | .customEmoji =>
      let parsed := c.toULongLong entity.data
      some (if parsed = 0 then [] else [.customEmoji offset length parsed])
    | .formattedDate =>
      let (date, flags) := c.deserializeFormattedDateData entity.data
      some (if date = 0 then [] else [.formattedDate flags offset length date])
    | _ => some []

/-- `EntitiesFromMTP`, with a session. -/
def entitiesFromMTP (entities : List (MTPMessageEntity InputUser)) : List EntityInText :=
  entities.flatMap (entityFromMTP c)

/-- `EntitiesToMTP`, without a session and with `ConvertOption::SkipLocal`. -/
def entitiesToMTP (entities : List EntityInText) : Option (List (MTPMessageEntity InputUser)) :=
  (entities.mapM (entityToMTP c)).map List.flatten

/-- What comes back of an entity that is sent. -/
def resent (entity : EntityInText) : List EntityInText :=
  ((entityToMTP c entity).getD []).flatMap (entityFromMTP c)

/-- An entity whose data is as `EntitiesFromMTP` makes it, of a kind that is sent as it is. -/
def kept (entity : EntityInText) : Bool :=
  0 < entity.length && match entity.type with
    | .bold | .italic | .underline | .strikeOut | .code | .spoiler => entity.data = ""
    | .pre => true
    | .blockquote => entity.data = "" ∨ entity.data = "1"
    | .customEmoji => c.toULongLong entity.data ≠ 0 ∧
        c.number (c.toULongLong entity.data) = entity.data
    | _ => false

variable {c} {entity : EntityInText} {entities : List EntityInText}

theorem isSent_of_kept (h : kept c entity = true) :
    0 < entity.length ∧ entity.type.isSent = true := by
  obtain ⟨type, offset, length, data⟩ := entity
  obtain ⟨hlength, htype⟩ := (Bool.and_eq_true ..).mp h
  refine ⟨of_decide_eq_true hlength, ?_⟩
  cases type <;> first | rfl | exact absurd htype Bool.false_ne_true

/-- **An entity that is kept comes back.** -/
theorem resent_of_kept (h : kept c entity = true) : resent c entity = [entity] := by
  obtain ⟨hlength, hsent⟩ := isSent_of_kept h
  rw [resent, entityToMTP]
  dsimp only
  rw [if_neg (not_or.mpr ⟨Int.not_le.mpr hlength, by simp [hsent]⟩)]
  obtain ⟨type, offset, length, data⟩ := entity
  have hdata := ((Bool.and_eq_true ..).mp h).2
  cases type with
  | bold | italic | underline | strikeOut | code | spoiler =>
    obtain rfl : data = "" := of_decide_eq_true hdata
    rfl
  | pre => rfl
  | blockquote =>
    rcases (of_decide_eq_true hdata : data = "" ∨ data = "1") with rfl | rfl <;> rfl
  | customEmoji =>
    obtain ⟨hparsed, hnumber⟩ : c.toULongLong data ≠ 0 ∧ c.number (c.toULongLong data) = data :=
      of_decide_eq_true hdata
    dsimp only
    rw [if_neg hparsed]
    show [(⟨.customEmoji, offset, length, c.number (c.toULongLong data)⟩ : EntityInText)] = _
    rw [hnumber]
  | _ => exact absurd hdata Bool.false_ne_true

/-- A local entity does not come back. -/
theorem resent_of_local (h : entity.length ≤ 0 ∨ entity.type.isSent = false) :
    resent c entity = [] := by
  rw [resent, entityToMTP]
  dsimp only
  rw [if_pos h, Option.getD_some, List.flatMap_nil]

/-- What cannot be sent is a mention by name. -/
theorem entityToMTP_isSome (h : entity.type ≠ .mentionName ∨ entity.length ≤ 0) :
    (entityToMTP c entity).isSome := by
  unfold entityToMTP
  dsimp only
  by_cases hlocal : entity.length ≤ 0 ∨ entity.type.isSent = false
  · rw [if_pos hlocal]
    rfl
  · rw [if_neg hlocal]
    obtain ⟨type, offset, length, data⟩ := entity
    cases type with
    | mentionName => exact absurd rfl (h.resolve_right fun hle => hlocal (Or.inl hle))
    | _ => rfl

/-- **Entities that are sent come back each on its own.** -/
theorem entitiesFromMTP_entitiesToMTP
    (h : ∀ entity ∈ entities, entity.type ≠ .mentionName ∨ entity.length ≤ 0) :
    ∃ sent, entitiesToMTP c entities = some sent ∧
      entitiesFromMTP c sent = entities.flatMap (resent c) := by
  induction entities with
  | nil => exact ⟨[], rfl, rfl⟩
  | cons entity entities ih =>
    obtain ⟨sent, hsent, hback⟩ := ih fun e he => h e (List.mem_cons_of_mem _ he)
    obtain ⟨first, hfirst⟩ := Option.isSome_iff_exists.mp
      (entityToMTP_isSome (c := c) (h entity (List.mem_cons_self ..)))
    obtain ⟨rest, hrest, rfl⟩ := Option.map_eq_some_iff.mp hsent
    refine ⟨first ++ rest.flatten, ?_, ?_⟩
    · rw [entitiesToMTP, List.mapM_cons, hfirst, hrest]
      rfl
    · rw [entitiesFromMTP, List.flatMap_append, List.flatMap_cons, ← hback, resent, hfirst]
      rfl

end Yunogram.Api
