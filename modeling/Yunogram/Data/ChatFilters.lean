import Mathlib
import Yunogram.Api.TextEntities

/-!
# Data/ChatFilters — chat folders, as they are kept and as they are sent

`tl` does not send a pinned chat with the included ones, and `FromTL` includes the pinned ones: so a
filter comes back as it was while each pinned chat is included.  That and the flags that a filter
can have is what `WellFormed` says.

The result is `chat_filter_saved`: a filter that is not a chatlist comes back as it was, with those
entities of its title that come back.
-/

namespace Yunogram

open Api

/-- `ChatFilter::Flag`. -/
inductive ChatFilterFlag
  | contacts
  | nonContacts
  | groups
  | channels
  | bots
  | noMuted
  | noRead
  | noArchived
  | chatlist
  | hasMyLinks
  | staticTitle
  | newChats
  | existingChats
  deriving DecidableEq

/-- `TextWithEntities`. -/
structure TextWithEntities where
  text : String
  entities : List EntityInText
  deriving DecidableEq

/-- `ChatFilterTitle`. -/
structure ChatFilterTitle where
  text : TextWithEntities
  isStatic : Bool

/-- `ChatFilter`, with histories in the order of their pointers. -/
@[ext] structure ChatFilter (History : Type) where
  id : ℤ
  title : TextWithEntities
  iconEmoji : String
  colorIndex : Option UInt8
  always : Finset History
  pinned : List History
  never : Finset History
  flags : Finset ChatFilterFlag
  deriving DecidableEq

/-- `MTPTextWithEntities`. -/
structure MTPTextWithEntities (InputUser : Type) where
  text : String
  entities : List (MTPMessageEntity InputUser)

/-- `MTPDdialogFilter`. -/
structure MTPDdialogFilter (InputPeer InputUser : Type) where
  contacts : Bool
  nonContacts : Bool
  groups : Bool
  broadcasts : Bool
  bots : Bool
  excludeMuted : Bool
  excludeRead : Bool
  excludeArchived : Bool
  titleNoanimate : Bool
  id : ℤ
  title : MTPTextWithEntities InputUser
  emoticon : Option String
  color : Option ℤ
  pinnedPeers : List InputPeer
  includePeers : List InputPeer
  excludePeers : List InputPeer

/-- `MTPDdialogFilterChatlist`. -/
structure MTPDdialogFilterChatlist (InputPeer InputUser : Type) where
  hasMyInvites : Bool
  titleNoanimate : Bool
  id : ℤ
  title : MTPTextWithEntities InputUser
  emoticon : Option String
  color : Option ℤ
  pinnedPeers : List InputPeer
  includePeers : List InputPeer

/-- `MTPDialogFilter`. -/
inductive MTPDialogFilter (InputPeer InputUser : Type)
  | dialogFilter (data : MTPDdialogFilter InputPeer InputUser)
  | dialogFilterDefault
  | dialogFilterChatlist (data : MTPDdialogFilterChatlist InputPeer InputUser)

/-- What a filter is converted with: the history that an input peer is of, in a filter and in a
chatlist, the input peer of a history, and the data of entities. -/
structure FilterOwner (History InputPeer InputUser : Type) where
  peerFromInputMTP : InputPeer → Option History
  peerFromChatlist : InputPeer → Option History
  input : History → InputPeer
  conversions : Conversions InputUser

/-- The peer of a history, as far as filters see it. -/
inductive FilterPeer
  | user (isBot isContact : Bool)
  | chat
  | channel (isBroadcast isCommunity : Bool)

/-- What `ChatFilter::contains` reads of a history. -/
structure FilterHistory where
  peer : FilterPeer
  muted : Bool
  folderKnown : Bool
  folder : Bool
  unread : Bool
  mention : Bool
  fakeUnreadWhileOpened : Bool

variable {History InputPeer InputUser : Type}

/-- Histories that are sent are received. -/
theorem FilterOwner.filterMap_input {owner : FilterOwner History InputPeer InputUser}
    (h : ∀ history, owner.peerFromInputMTP (owner.input history) = some history)
    (histories : List History) :
    (histories.map owner.input).filterMap owner.peerFromInputMTP = histories := by
  rw [List.filterMap_map]
  exact (List.filterMap_congr fun history _ => h history).trans (List.filterMap_some ..)

variable [LinearOrder History]

namespace ChatFilter

/-- The constructor of `ChatFilter`. -/
def new (id : ℤ) (title : ChatFilterTitle) (iconEmoji : String) (colorIndex : Option UInt8)
    (flags : Finset ChatFilterFlag) (always : Finset History) (pinned : List History)
    (never : Finset History) : ChatFilter History :=
  { id, title := title.text, iconEmoji, colorIndex, always, pinned, never
    flags := if title.isStatic then insert .staticTitle flags else flags.erase .staticTitle }

/-- `ChatFilter()`. -/
def default : ChatFilter History := ⟨0, ⟨"", []⟩, "", none, ∅, [], ∅, ∅⟩

/-- A flag that is set on a condition. -/
def flagIf (set : Bool) (flag : ChatFilterFlag) : Finset ChatFilterFlag := if set then {flag} else ∅

/-- The color of a filter that is received: an `int` as a `uint8`. -/
def colorFromTL (color : ℤ) : UInt8 := UInt8.ofNat (color % 256).toNat

/-- `ParseTextWithEntities`. -/
def parseTextWithEntities (c : Conversions InputUser) (text : MTPTextWithEntities InputUser) :
    TextWithEntities :=
  ⟨text.text, entitiesFromMTP c text.entities⟩

/-- `ChatFilter::FromTL`. -/
def fromTL (owner : FilterOwner History InputPeer InputUser) :
    MTPDialogFilter InputPeer InputUser → ChatFilter History
  | .dialogFilter data =>
    let flags := flagIf data.contacts .contacts ∪ flagIf data.nonContacts .nonContacts ∪
      flagIf data.groups .groups ∪ flagIf data.broadcasts .channels ∪ flagIf data.bots .bots ∪
      flagIf data.excludeMuted .noMuted ∪ flagIf data.excludeRead .noRead ∪
      flagIf data.excludeArchived .noArchived ∪ flagIf data.titleNoanimate .staticTitle
    let toHistories := List.filterMap owner.peerFromInputMTP
    let always := toHistories data.includePeers
    let pinned := toHistories data.pinnedPeers
    let never := toHistories data.excludePeers
    new data.id ⟨parseTextWithEntities owner.conversions data.title, data.titleNoanimate⟩
      (data.emoticon.getD "") (data.color.map colorFromTL) flags (always ++ pinned).toFinset
      pinned never.toFinset
  | .dialogFilterDefault => default
  | .dialogFilterChatlist data =>
    let toHistories := List.filterMap owner.peerFromChatlist
    let always := toHistories data.includePeers
    let pinned := toHistories data.pinnedPeers
    new data.id ⟨parseTextWithEntities owner.conversions data.title, data.titleNoanimate⟩
      (data.emoticon.getD "") (data.color.map colorFromTL)
      ({.chatlist} ∪ flagIf data.hasMyInvites .hasMyLinks ∪ flagIf data.titleNoanimate .staticTitle)
      (always ++ pinned).toFinset pinned ∅

variable (f : ChatFilter History)

/-- `ChatFilter::withId`. -/
def withId (id : ℤ) : ChatFilter History := { f with id }

/-- `ChatFilter::withTitle`. -/
def withTitle (title : ChatFilterTitle) : ChatFilter History :=
  { f with
    title := title.text
    flags := if title.isStatic then insert .staticTitle f.flags else f.flags.erase .staticTitle }

/-- `ChatFilter::withColorIndex`. -/
def withColorIndex (colorIndex : Option UInt8) : ChatFilter History := { f with colorIndex }

/-- The flag of the histories with such a peer. -/
def flagOf : FilterPeer → ChatFilterFlag
  | .user isBot isContact =>
    if isBot then .bots else if isContact then .contacts else .nonContacts
  | .chat => .groups
  | .channel isBroadcast _ => if isBroadcast then .channels else .groups

/-- Whether the peer is a community. -/
def isCommunity : FilterPeer → Bool
  | .channel _ isCommunity => isCommunity
  | _ => false

/-- `ChatFilter::contains`. -/
def contains (read : History → FilterHistory) (history : History) (ignoreFakeUnread : Bool) :
    Bool :=
  let h := read history
  if history ∈ f.never then false
  else if isCommunity h.peer then history ∈ f.always
  else
    let badges := decide (.noMuted ∈ f.flags ∨ .noRead ∈ f.flags)
    let unread := badges && h.unread
    let mention := badges && h.mention
    (decide (flagOf h.peer ∈ f.flags) &&
        (decide (.noMuted ∉ f.flags) || !h.muted || (mention && h.folderKnown && !h.folder)) &&
        (decide (.noRead ∉ f.flags) || unread || mention ||
          (!ignoreFakeUnread && h.fakeUnreadWhileOpened)) &&
        (decide (.noArchived ∉ f.flags) || (h.folderKnown && !h.folder))) ||
      decide (history ∈ f.always)

/-- `CanRemoveFromChatFilter`. -/
def canRemoveFromChatFilter (read : History → FilterHistory) (history : History) : Bool :=
  (decide (1 < f.always.card) ||
      decide ((f.flags \ {.noRead, .noArchived, .noMuted}).Nonempty)) &&
    f.contains read history false

/-- `ChatFilter::withoutAlways`. -/
def withoutAlways (read : History → FilterHistory) (history : History) : ChatFilter History :=
  if f.canRemoveFromChatFilter read history then { f with always := f.always.erase history } else f

/-- The loop of `ChatFilters::applyUpdatedPinned`. -/
def updatePinned (limit : ℤ) :
    List (Option History) → Finset History → List History → Finset History × List History
  | [], always, pinned => (always, pinned)
  | none :: dialogs, always, pinned => updatePinned limit dialogs always pinned
  | some history :: dialogs, always, pinned =>
    if history ∈ always then updatePinned limit dialogs always (pinned ++ [history])
    else if (always.card : ℤ) < limit then
      updatePinned limit dialogs (insert history always) (pinned ++ [history])
    else updatePinned limit dialogs always pinned

/-- `ChatFilters::applyUpdatedPinned`, of the filter with the id: `set` does nothing without one. -/
def applyUpdatedPinned (limit : ℤ) (dialogs : List (Option History)) : ChatFilter History :=
  if f.id = 0 then f
  else
    let updated := updatePinned limit dialogs f.always []
    new f.id ⟨f.title, .staticTitle ∈ f.flags⟩ f.iconEmoji f.colorIndex f.flags updated.1 updated.2
      f.never

/-- `ChatFilter::tl`, with nothing where the entities of the title cannot be sent. -/
def tl (owner : FilterOwner History InputPeer InputUser) (replaceId : ℤ) :
    Option (MTPDialogFilter InputPeer InputUser) :=
  let inputs := List.map owner.input
  let pinned := inputs f.pinned
  let included := inputs ((f.always \ f.pinned.toFinset).sort (· ≤ ·))
  let color := f.colorIndex.map fun index => (index.toNat : ℤ)
  let id := if replaceId = 0 then f.id else replaceId
  (entitiesToMTP owner.conversions f.title.entities).map fun entities =>
    let title := ⟨f.title.text, entities⟩
    if .chatlist ∈ f.flags then
      .dialogFilterChatlist
        { hasMyInvites := false
          titleNoanimate := .staticTitle ∈ f.flags
          id, title, emoticon := some f.iconEmoji, color
          pinnedPeers := pinned, includePeers := included }
    else
      .dialogFilter
        { contacts := .contacts ∈ f.flags
          nonContacts := .nonContacts ∈ f.flags
          groups := .groups ∈ f.flags
          broadcasts := .channels ∈ f.flags
          bots := .bots ∈ f.flags
          excludeMuted := .noMuted ∈ f.flags
          excludeRead := .noRead ∈ f.flags
          excludeArchived := .noArchived ∈ f.flags
          titleNoanimate := .staticTitle ∈ f.flags
          id, title, emoticon := some f.iconEmoji, color
          pinnedPeers := pinned, includePeers := included
          excludePeers := inputs (f.never.sort (· ≤ ·)) }

/-! ## Filters that can be kept -/

/-- **What is kept of a filter**: the filters that are received, and those that are made of them.
Of a pinned chat `withoutAlways` is not asked. -/
inductive Reachable (owner : FilterOwner History InputPeer InputUser) : ChatFilter History → Prop
  | fromTL (data : MTPDialogFilter InputPeer InputUser) :
      Reachable owner (ChatFilter.fromTL owner data)
  | withId {f : ChatFilter History} (h : Reachable owner f) (id : ℤ) : Reachable owner (f.withId id)
  | withTitle {f : ChatFilter History} (h : Reachable owner f) (title : ChatFilterTitle) :
      Reachable owner (f.withTitle title)
  | withColorIndex {f : ChatFilter History} (h : Reachable owner f) (colorIndex : Option UInt8) :
      Reachable owner (f.withColorIndex colorIndex)
  | withoutAlways {f : ChatFilter History} (h : Reachable owner f) (read : History → FilterHistory)
      (history : History) (hpinned : history ∉ f.pinned) :
      Reachable owner (f.withoutAlways read history)
  | applyUpdatedPinned {f : ChatFilter History} (h : Reachable owner f) (limit : ℤ)
      (dialogs : List (Option History)) : Reachable owner (f.applyUpdatedPinned limit dialogs)

/-- **Each pinned chat is included, and the flags are those of filters.** -/
structure WellFormed (f : ChatFilter History) : Prop where
  included : ∀ history ∈ f.pinned, history ∈ f.always
  newChats : .newChats ∉ f.flags
  existingChats : .existingChats ∉ f.flags
  hasMyLinks : .hasMyLinks ∈ f.flags → .chatlist ∈ f.flags

variable {f} {owner : FilterOwner History InputPeer InputUser}

/-- The title does not change the other flags. -/
theorem mem_flags_static {flag : ChatFilterFlag} {flags : Finset ChatFilterFlag} {isStatic : Bool}
    (h : flag ≠ .staticTitle) :
    flag ∈ (if isStatic then insert .staticTitle flags else flags.erase .staticTitle) ↔
      flag ∈ flags := by
  cases isStatic <;> simp [h]

theorem mem_flagIf {set : Bool} {flag flag' : ChatFilterFlag} :
    flag ∈ flagIf set flag' ↔ set = true ∧ flag = flag' := by
  cases set <;> simp [flagIf]

/-- The pinned chats that are updated are included. -/
theorem updatePinned_included {limit : ℤ} {dialogs : List (Option History)}
    {always : Finset History} {pinned : List History} (h : ∀ history ∈ pinned, history ∈ always) :
    ∀ history ∈ (updatePinned limit dialogs always pinned).2,
      history ∈ (updatePinned limit dialogs always pinned).1 := by
  induction dialogs generalizing always pinned with
  | nil => exact h
  | cons dialog dialogs ih =>
    cases dialog with
    | none => exact ih h
    | some history =>
      unfold updatePinned
      split_ifs with hmem hlimit
      · exact ih (List.forall_mem_append.mpr ⟨h, List.forall_mem_singleton.mpr hmem⟩)
      · exact ih (List.forall_mem_append.mpr ⟨fun other hother =>
          Finset.mem_insert_of_mem (h other hother),
          List.forall_mem_singleton.mpr (Finset.mem_insert_self ..)⟩)
      · exact ih h

/-- The flags of a filter that is received. -/
def received (data : MTPDdialogFilter InputPeer InputUser) : ChatFilterFlag → Bool
  | .contacts => data.contacts
  | .nonContacts => data.nonContacts
  | .groups => data.groups
  | .channels => data.broadcasts
  | .bots => data.bots
  | .noMuted => data.excludeMuted
  | .noRead => data.excludeRead
  | .noArchived => data.excludeArchived
  | .staticTitle => data.titleNoanimate
  | _ => false

theorem mem_flags_fromTL {data : MTPDdialogFilter InputPeer InputUser} {flag : ChatFilterFlag} :
    flag ∈ (fromTL owner (.dialogFilter data)).flags ↔ received data flag = true := by
  by_cases hstatic : flag = .staticTitle
  · rw [hstatic]
    show _ ∈ (if data.titleNoanimate then _ else _) ↔ data.titleNoanimate = true
    cases data.titleNoanimate <;> simp
  · show flag ∈ (if data.titleNoanimate then _ else _) ↔ _
    rw [mem_flags_static hstatic]
    simp only [Finset.mem_union, mem_flagIf]
    cases flag <;> simp [received] at hstatic ⊢

theorem wellFormed_fromTL (data : MTPDialogFilter InputPeer InputUser) :
    WellFormed (fromTL owner data) := by
  cases data with
  | dialogFilter data =>
    refine ⟨fun _ hmem => List.mem_toFinset.mpr (List.mem_append_right _ hmem), ?_, ?_, ?_⟩ <;>
      rw [mem_flags_fromTL] <;> simp [received]
  | dialogFilterDefault => exact ⟨by simp [fromTL, default], by simp [fromTL, default],
      by simp [fromTL, default], by simp [fromTL, default]⟩
  | dialogFilterChatlist data =>
    have hflags : ∀ flag, flag ≠ .staticTitle →
        (flag ∈ (fromTL owner (.dialogFilterChatlist data)).flags ↔
          flag = .chatlist ∨ data.hasMyInvites = true ∧ flag = .hasMyLinks) := by
      intro flag hstatic
      show flag ∈ (if data.titleNoanimate then _ else _) ↔ _
      rw [mem_flags_static hstatic]
      simp only [Finset.mem_union, mem_flagIf, Finset.mem_singleton, hstatic, and_false, or_false]
    refine ⟨fun history hmem => List.mem_toFinset.mpr (List.mem_append_right _ hmem), ?_, ?_, ?_⟩
    · simp [hflags]
    · simp [hflags]
    · simp [hflags]

/-- **What is kept of a filter is well formed.** -/
theorem Reachable.wellFormed (h : Reachable owner f) : WellFormed f := by
  induction h with
  | fromTL data => exact wellFormed_fromTL data
  | withId _ id ih => exact ⟨ih.included, ih.newChats, ih.existingChats, ih.hasMyLinks⟩
  | withTitle _ title ih =>
    refine ⟨ih.included, ?_, ?_, ?_⟩
    · rw [ChatFilter.withTitle, mem_flags_static (by decide)]
      exact ih.newChats
    · rw [ChatFilter.withTitle, mem_flags_static (by decide)]
      exact ih.existingChats
    · rw [ChatFilter.withTitle, mem_flags_static (by decide), mem_flags_static (by decide)]
      exact ih.hasMyLinks
  | withColorIndex _ colorIndex ih =>
    exact ⟨ih.included, ih.newChats, ih.existingChats, ih.hasMyLinks⟩
  | withoutAlways _ read history hpinned ih =>
    unfold ChatFilter.withoutAlways
    split_ifs
    · refine ⟨fun other hother => Finset.mem_erase.mpr ⟨?_, ih.included other hother⟩, ih.newChats,
        ih.existingChats, ih.hasMyLinks⟩
      rintro rfl
      exact hpinned hother
    · exact ih
  | applyUpdatedPinned _ limit dialogs ih =>
    unfold ChatFilter.applyUpdatedPinned
    split_ifs
    · exact ih
    · refine ⟨updatePinned_included fun _ hmem => absurd hmem List.not_mem_nil, ?_, ?_, ?_⟩
      · rw [new, mem_flags_static (by decide)]
        exact ih.newChats
      · rw [new, mem_flags_static (by decide)]
        exact ih.existingChats
      · rw [new, mem_flags_static (by decide), mem_flags_static (by decide)]
        exact ih.hasMyLinks

/-! ## The way there and back -/

theorem colorFromTL_toNat (color : UInt8) : colorFromTL (color.toNat : ℤ) = color := by
  have hlt := color.toNat_lt
  rw [colorFromTL, Int.emod_eq_of_lt (by omega) (by omega), Int.toNat_natCast]
  exact UInt8.ofNat_toNat

/-- What is sent of a filter that is not a chatlist. -/
def sentFilter (f : ChatFilter History) (owner : FilterOwner History InputPeer InputUser)
    (entities : List (MTPMessageEntity InputUser)) : MTPDdialogFilter InputPeer InputUser where
  contacts := .contacts ∈ f.flags
  nonContacts := .nonContacts ∈ f.flags
  groups := .groups ∈ f.flags
  broadcasts := .channels ∈ f.flags
  bots := .bots ∈ f.flags
  excludeMuted := .noMuted ∈ f.flags
  excludeRead := .noRead ∈ f.flags
  excludeArchived := .noArchived ∈ f.flags
  titleNoanimate := .staticTitle ∈ f.flags
  id := f.id
  title := ⟨f.title.text, entities⟩
  emoticon := some f.iconEmoji
  color := f.colorIndex.map fun index => (index.toNat : ℤ)
  pinnedPeers := f.pinned.map owner.input
  includePeers := ((f.always \ f.pinned.toFinset).sort (· ≤ ·)).map owner.input
  excludePeers := (f.never.sort (· ≤ ·)).map owner.input

theorem tl_eq {entities : List (MTPMessageEntity InputUser)} (hchatlist : .chatlist ∉ f.flags)
    (hentities : entitiesToMTP owner.conversions f.title.entities = some entities) :
    f.tl owner 0 = some (.dialogFilter (sentFilter f owner entities)) := by
  rw [tl, hentities, Option.map_some]
  exact congrArg some (if_neg hchatlist)

/-- **A well-formed filter comes back as it was**, with the entities of its title that come back. -/
theorem fromTL_sentFilter (entities : List (MTPMessageEntity InputUser))
    (hinput : ∀ history, owner.peerFromInputMTP (owner.input history) = some history)
    (h : WellFormed f) (hchatlist : .chatlist ∉ f.flags) :
    fromTL owner (.dialogFilter (sentFilter f owner entities)) = { f with
      title := ⟨f.title.text, entitiesFromMTP owner.conversions entities⟩ } := by
  ext1
  · rfl
  · rfl
  · rfl
  · show (f.colorIndex.map fun index => (index.toNat : ℤ)).map colorFromTL = f.colorIndex
    rcases f.colorIndex with _ | color
    · rfl
    · exact congrArg some (colorFromTL_toNat color)
  · show (((_ : List History).map owner.input).filterMap owner.peerFromInputMTP ++
      (f.pinned.map owner.input).filterMap owner.peerFromInputMTP).toFinset = f.always
    rw [FilterOwner.filterMap_input hinput, FilterOwner.filterMap_input hinput,
      List.toFinset_append, Finset.sort_toFinset]
    exact Finset.sdiff_union_of_subset fun history hmem =>
      h.included history (List.mem_toFinset.mp hmem)
  · exact FilterOwner.filterMap_input hinput f.pinned
  · show (((f.never.sort (· ≤ ·)).map owner.input).filterMap owner.peerFromInputMTP).toFinset
      = f.never
    rw [FilterOwner.filterMap_input hinput, Finset.sort_toFinset]
  · ext flag
    rw [mem_flags_fromTL]
    cases flag <;> simp [received, sentFilter, h.newChats, h.existingChats, hchatlist,
      mt h.hasMyLinks hchatlist]

end ChatFilter

open ChatFilter in
/-- **A filter that is not a chatlist comes back as it was**, with the entities of its title that
come back: so does all of it if they all do. -/
theorem chat_filter_saved {owner : FilterOwner History InputPeer InputUser} {f : ChatFilter History}
    (hinput : ∀ history, owner.peerFromInputMTP (owner.input history) = some history)
    (h : Reachable owner f) (hchatlist : .chatlist ∉ f.flags)
    (hmention : ∀ entity ∈ f.title.entities, entity.type ≠ .mentionName ∨ entity.length ≤ 0) :
    ∃ data, f.tl owner 0 = some data ∧
      fromTL owner data = { f with title :=
        ⟨f.title.text, f.title.entities.flatMap (resent owner.conversions)⟩ } ∧
      (∀ entity ∈ f.title.entities, (kept owner.conversions entity = true →
          resent owner.conversions entity = [entity]) ∧
        (entity.length ≤ 0 ∨ entity.type.isSent = false → resent owner.conversions entity = [])) ∧
      ((∀ entity ∈ f.title.entities, kept owner.conversions entity = true) →
        fromTL owner data = f) ∧
      ∀ history ∈ f.pinned, history ∈ f.always := by
  obtain ⟨entities, hentities, hback⟩ := entitiesFromMTP_entitiesToMTP hmention
  have hsame := fromTL_sentFilter entities hinput h.wellFormed hchatlist
  rw [hback] at hsame
  refine ⟨_, tl_eq hchatlist hentities, hsame,
    fun entity _ => ⟨resent_of_kept, resent_of_local⟩, fun hkept => ?_, h.wellFormed.included⟩
  have hall : f.title.entities.flatMap (resent owner.conversions) = f.title.entities :=
    (List.flatMap_congr fun entity hentity => resent_of_kept (hkept entity hentity)).trans
      (List.flatMap_singleton' ..)
  rw [hsame, hall]

/-- Histories and input peers that are numbers. -/
def numberOwner : FilterOwner ℕ ℕ Unit where
  peerFromInputMTP := some
  peerFromChatlist := some
  input := id
  conversions :=
    { number := fun id => toString id.toNat
      toULongLong := fun data => UInt64.ofNat (data.toNat?.getD 0)
      serializeFormattedDateData := fun date _ => toString date
      deserializeFormattedDateData := fun _ => (0, ⟨false, false, false, false, false, false⟩)
      externalUrlFromInternalUrl := fun _ => ""
      isInternalUrl := fun url => url.startsWith "internal:"
      mentionNameData := fun userId => toString userId.toNat
      inputMentionNameData := fun _ => "" }

/-- A filter of groups, with a pinned chat and another one, and an entity in its title. -/
def groupsFilter (entity : MTPMessageEntity Unit) : MTPDialogFilter ℕ Unit :=
  .dialogFilter
    { contacts := false, nonContacts := false, groups := true, broadcasts := false, bots := false
      excludeMuted := false, excludeRead := false, excludeArchived := true
      titleNoanimate := true, id := 2, title := ⟨"Work", [entity]⟩, emoticon := none
      color := some 3, pinnedPeers := [7], includePeers := [5], excludePeers := [] }

open ChatFilter in
theorem chat_filter_saved_groups :
    let f := fromTL numberOwner (groupsFilter (.bold 0 4))
    ∃ data, f.tl numberOwner 0 = some data ∧
      fromTL numberOwner data = { f with title :=
        ⟨f.title.text, f.title.entities.flatMap (resent numberOwner.conversions)⟩ } ∧
      (∀ entity ∈ f.title.entities, (kept numberOwner.conversions entity = true →
          resent numberOwner.conversions entity = [entity]) ∧
        (entity.length ≤ 0 ∨ entity.type.isSent = false →
          resent numberOwner.conversions entity = [])) ∧
      ((∀ entity ∈ f.title.entities, kept numberOwner.conversions entity = true) →
        fromTL numberOwner data = f) ∧
      ∀ history ∈ f.pinned, history ∈ f.always :=
  chat_filter_saved (fun _ => rfl) (Reachable.fromTL _) (by decide) (by decide)

open ChatFilter in
/-- **A link in the title of a filter does not come back.** -/
theorem title_link_dropped :
    let f := fromTL numberOwner (groupsFilter (.url 0 4))
    Reachable numberOwner f ∧ .chatlist ∉ f.flags ∧ f.title.entities = [⟨.url, 0, 4, ""⟩] ∧
      ∃ data, f.tl numberOwner 0 = some data ∧ (fromTL numberOwner data).title.entities = [] :=
  ⟨Reachable.fromTL _, by decide, rfl, _, rfl, rfl⟩

end Yunogram
