import Mathlib
import Yunogram.Machinery.Memo

/-!
# Yuno/FiltersCache — whether a message is filtered, and what is remembered of that

`filters_controller.cpp` matches the patterns of a chat, and the shared ones that it does not
exclude, against the text of a message: the texts of its album, its own buttons and its own type.
`filters_cache_controller.cpp` remembers the verdicts, for as long as the patterns are the same.

Regular expressions, UTF-8 and blanks are those of a `Library`.  The settings, what chats are and
which messages are blocked do not change here, and which chats have hidden messages of blocked
users, which only a menu asks for, is left out. -/

open Machinery

namespace Yunogram.Yuno.Filters

/-- `ID`. -/
abbrev ID := ℤ

/-- `QString`, by its UTF-16 units. -/
abbrev QString := List UInt16

/-- A text of ASCII characters. -/
def ascii (s : String) : QString := s.toList.map fun c => UInt16.ofNat c.toNat

/-- The library: `QRegularExpression` (`none` is one that is not valid), `QString::fromUtf8` and
`QChar::isSpace`. -/
structure Library (Regex : Type) where
  regularExpression : (text : List UInt8) → (caseInsensitive : Bool) → Option Regex
  hasMatch : Regex → QString → Bool
  fromUtf8 : List UInt8 → QString
  isSpace : UInt16 → Bool

/-! ## Patterns -/

/-- `RegexFilter`. -/
structure RegexFilter where
  id : List UInt8
  text : List UInt8
  enabled : Bool
  reversed : Bool
  caseInsensitive : Bool
  dialogId : Option ID

/-- `RegexFilterGlobalExclusion`. -/
structure RegexFilterGlobalExclusion where
  dialogId : ID
  filterId : List UInt8

/-- The filters and the exclusions of `YunoDatabase`. -/
structure Database where
  filters : List RegexFilter
  exclusions : List RegexFilterGlobalExclusion

variable {Regex : Type}

/-- `ReversiblePattern`. -/
structure ReversiblePattern (Regex : Type) where
  pattern : Regex
  reversed : Bool

/-- `HashablePattern`. -/
structure HashablePattern (Regex : Type) where
  id : List UInt8
  pattern : ReversiblePattern Regex

/-- `FiltersCacheController::Cache`; a chat that a map has nothing for has an empty list. -/
structure Cache (Regex : Type) where
  sharedPatterns : List (HashablePattern Regex)
  patternsByDialogId : ID → List (ReversiblePattern Regex)
  exclusionsByDialogId : ID → List (HashablePattern Regex)

/-- The pattern of a filter that is enabled, has a text and is valid. -/
def patternOf (lib : Library Regex) (filter : RegexFilter) : Option (ReversiblePattern Regex) :=
  if !filter.enabled || filter.text.isEmpty then none
  else (lib.regularExpression filter.text filter.caseInsensitive).map fun pattern =>
    ⟨pattern, filter.reversed⟩

/-- `buildExclusions`. -/
def buildExclusions (exclusions : List RegexFilterGlobalExclusion)
    (shared : List (HashablePattern Regex)) (dialogId : ID) : List (HashablePattern Regex) :=
  (exclusions.filter fun exclusion => exclusion.dialogId = dialogId).filterMap fun exclusion =>
    shared.find? fun filter => filter.id = exclusion.filterId

/-- `buildCache`. -/
def buildCache (lib : Library Regex) (database : Database) : Cache Regex :=
  let shared := database.filters.filterMap fun filter =>
    if filter.dialogId.isSome then none
    else (patternOf lib filter).map fun pattern => ⟨filter.id, pattern⟩
  { sharedPatterns := shared
    patternsByDialogId := fun dialogId => database.filters.filterMap fun filter =>
      if filter.dialogId = some dialogId then patternOf lib filter else none
    exclusionsByDialogId := buildExclusions database.exclusions shared }

/-- The `matches` of `isFiltered`. -/
def matchesPattern (lib : Library Regex) (str : QString) (pattern : ReversiblePattern Regex) :
    Bool :=
  let matched := lib.hasMatch pattern.pattern str
  (!pattern.reversed && matched) || (pattern.reversed && !matched)

/-- `FiltersController::isFiltered`. -/
def isFiltered (lib : Library Regex) (str : QString) (dialogId : ID) (cache : Cache Regex) :
    Option Bool :=
  if str.isEmpty then none
  else if (cache.patternsByDialogId dialogId).any (matchesPattern lib str) then some true
  else
    let exclusions := cache.exclusionsByDialogId dialogId
    some (cache.sharedPatterns.any fun pattern =>
      !(exclusions.any fun excluded => excluded.id = pattern.id)
        && matchesPattern lib str pattern.pattern)

/-! ## Messages -/

/-- An entity of a text, as far as filters look at it. -/
inductive Entity
  | url (offset length : ℕ)
  | customUrl (data : QString)
  | other

/-- A button of a markup. -/
structure Button where
  text : QString
  data : List UInt8

/-- `MessageGroupId`. -/
structure GroupId where
  peer : ℕ
  scheduled : Bool
  value : ℕ
  deriving DecidableEq

/-- A message by its chat and its id. -/
structure ItemId where
  peer : ℕ
  id : ℤ
  deriving DecidableEq

/-- `HistoryItem`, as far as filters look at it; `type` is what `typeOfMessage` gives, and
`filterBlocked` is what the function of this name gives. -/
structure Item where
  text : QString
  entities : List Entity
  markup : Option (List (List Button))
  type : ℕ
  out : Bool
  filterBlocked : Bool
  groupId : Option GroupId

/-- The messages and the albums that are registered.  An album has the messages that were registered
by its id, which names their chat. -/
structure World where
  item : ItemId → Item
  groups : GroupId → List ItemId
  registered : ∀ group, ∀ id ∈ groups group, (item id).groupId = some group
  peer : ∀ group id, (item id).groupId = some group → group.peer = id.peer

/-- `Groups::find`. -/
def World.find (world : World) (id : ItemId) : Option (List ItemId) :=
  match (world.item id).groupId with
  | none => none
  | some group => if (world.groups group).length > 1 then some (world.groups group) else none

/-- `extractSingle`. -/
def extractSingle (item : Item) : QString :=
  item.entities.foldl (fun text entity =>
    match entity with
    | .url offset length => text ++ ascii "\n" ++ (item.text.drop offset).take length
    | .customUrl data => text ++ ascii "\n" ++ data
    | .other => text) item.text

/-- `QString::trimmed`. -/
def trimmed (lib : Library Regex) (text : QString) : QString :=
  ((text.dropWhile lib.isSpace).reverse.dropWhile lib.isSpace).reverse

/-- The texts of an album, or that of a message, in `extractAllText`. -/
def extractTexts (lib : Library Regex) (world : World) (id : ItemId)
    (group : Option (List ItemId)) : QString :=
  match group with
  | some items => items.foldl (fun text groupItem =>
      let res := trimmed lib (extractSingle (world.item groupItem))
      if res.isEmpty then text else text ++ res ++ ascii "\n") []
  | none => trimmed lib (extractSingle (world.item id))

/-- `FilterUtils::extractAllText`. -/
def extractAllText (lib : Library Regex) (world : World) (id : ItemId)
    (group : Option (List ItemId)) : QString :=
  let text := extractTexts lib world id group
  let text := match (world.item id).markup with
    | none => text
    | some rows => rows.flatten.foldl (fun text button =>
        text ++ ascii "<button>" ++ button.text ++ ascii " " ++ lib.fromUtf8 button.data
          ++ ascii "</button>" ++ ascii "\n") text
  text ++ ascii "\n" ++ ascii "<type>" ++ ascii (toString (world.item id).type) ++ ascii "</type>"

/-! ## Verdicts -/

/-- What does not change: the settings, the chats whose filtered messages are shown, which of them
are broadcasts, and `getDialogIdFromPeer`. -/
structure Settings where
  filtersEnabled : Bool
  filtersEnabledInChats : Bool
  showingFilteredMessages : ℕ → Bool
  isBroadcast : ℕ → Bool
  getDialogIdFromPeer : ℕ → ID

/-- `isEnabled`. -/
def Settings.isEnabled (settings : Settings) (peer : ℕ) : Bool :=
  settings.filtersEnabled && (settings.filtersEnabledInChats || settings.isBroadcast peer)

/-- A cache that is pointed to: the pointer and what it points to. -/
structure CachePointer (Regex : Type) where
  address : ℕ
  cache : Cache Regex

/-- A call of `filtered` that has its verdict and has not remembered it. -/
structure Pending (Regex : Type) where
  item : ItemId
  group : Option (List ItemId)
  res : Bool
  matchedCache : CachePointer Regex

/-- The state of both controllers, with the calls that are in the middle. -/
structure State (Regex : Type) where
  database : Database
  cache : Option (CachePointer Regex)
  nextAddress : ℕ
  filteredMessages : Memo ItemId Bool
  world : World
  pending : List (Pending Regex)

/-- The first state, of a database and of messages. -/
def State.start (database : Database) (world : World) : State Regex where
  database := database
  cache := none
  nextAddress := 0
  filteredMessages := Memo.empty
  world := world
  pending := []

variable (lib : Library Regex) (settings : Settings)

/-- `rebuildCache`. -/
def State.rebuildCache (s : State Regex) : State Regex :=
  { s with
    cache := some ⟨s.nextAddress, buildCache lib s.database⟩
    nextAddress := s.nextAddress + 1
    filteredMessages := Memo.empty }

/-- `snapshot`. -/
def State.snapshot (s : State Regex) : CachePointer Regex × State Regex :=
  match s.cache with
  | some cache => (cache, s)
  | none =>
    let next := ⟨s.nextAddress, buildCache lib s.database⟩
    (next, { s with cache := some next, nextAddress := s.nextAddress + 1 })

/-- `putFiltered`. -/
def State.putFiltered (s : State Regex) (item : ItemId) (group : Option (List ItemId))
    (res : Bool) (matchedCache : CachePointer Regex) : State Regex :=
  if (s.cache.map fun cache => cache.address) ≠ some matchedCache.address then s
  else
    let filteredMessages := s.filteredMessages.put item res
    match group, res with
    | some items, true => { s with
        filteredMessages := filteredMessages.putAll
          (items.map fun groupItem => ⟨item.peer, groupItem.id⟩) true }
    | _, _ => { s with filteredMessages := filteredMessages }

/-- `FiltersCacheController::invalidate`. -/
def State.invalidate (s : State Regex) (item : ItemId) : State Regex :=
  match s.world.find item with
  | some items => { s with filteredMessages := s.filteredMessages.dropAll items }
  | none => { s with filteredMessages := s.filteredMessages.drop item }

/-- The verdicts of `filtered` that take no pattern: messages that are shown anyway, outgoing ones,
and those of blocked users. -/
def verdictBefore (world : World) (item : ItemId) : Option Bool :=
  if settings.showingFilteredMessages item.peer then some false
  else if !settings.filtersEnabled then some false
  else if (world.item item).out then some false
  else if (world.item item).filterBlocked then some true
  else if !settings.isEnabled item.peer then some false
  else none

/-- The verdict of the patterns: the function that the claims are about. -/
def verdictOf (cache : Cache Regex) (world : World) (item : ItemId) : Bool :=
  (isFiltered lib (extractAllText lib world item (world.find item))
    (settings.getDialogIdFromPeer item.peer) cache).getD false

/-- `FiltersController::filtered`. -/
def State.filtered (s : State Regex) (item : ItemId) : Bool × State Regex :=
  match verdictBefore settings s.world item with
  | some verdict => (verdict, s)
  | none =>
    match s.filteredMessages item with
    | some cached => (cached, s)
    | none =>
      let group := s.world.find item
      let (cache, s) := s.snapshot lib
      match isFiltered lib (extractAllText lib s.world item group)
          (settings.getDialogIdFromPeer item.peer) cache.cache with
      | some res => (res, s.putFiltered item group res cache)
      | none => (false, s)

/-! ## Steps -/

/-- What can happen, between the parts of the calls of `filtered` too: such a call takes a snapshot
and matches it, and remembers its verdict later. -/
inductive Action
  | matchItem (item : ItemId)
  | putFiltered (index : ℕ)
  | rebuildCache
  | snapshot
  | invalidate (item : ItemId)
  | edit (database : Database)
  | change (world : World) (changed : List ItemId)

/-- The first part of a call of `filtered` that finds no verdict before. -/
def State.matchItem (s : State Regex) (item : ItemId) : State Regex :=
  let group := s.world.find item
  let (cache, s) := s.snapshot lib
  match isFiltered lib (extractAllText lib s.world item group)
      (settings.getDialogIdFromPeer item.peer) cache.cache with
  | some res => { s with pending := s.pending ++ [⟨item, group, res, cache⟩] }
  | none => s

/-- The second part. -/
def State.finish (s : State Regex) (index : ℕ) : State Regex :=
  match s.pending[index]? with
  | none => s
  | some call =>
    { s with pending := s.pending.eraseIdx index }.putFiltered call.item call.group call.res
      call.matchedCache

/-- Messages and albums change, and what has changed is invalidated. -/
def State.change (s : State Regex) (world : World) (changed : List ItemId) : State Regex :=
  changed.foldl State.invalidate { s with world := world }

/-- The state after an action. -/
def State.apply (s : State Regex) : Action → State Regex
  | .matchItem item => s.matchItem lib settings item
  | .putFiltered index => s.finish index
  | .rebuildCache => s.rebuildCache lib
  | .snapshot => (s.snapshot lib).2
  | .invalidate item => s.invalidate item
  | .edit database => { s with database := database }
  | .change world changed => s.change world changed

/-- When an action can happen.  Messages change on the thread that filters them, hence between its
calls, and every change of a message or of its album is invalidated. -/
def State.Allows (s : State Regex) : Action → Prop
  | .matchItem item => verdictBefore settings s.world item = none
  | .putFiltered index => index < s.pending.length
  | .change world changed => s.pending = [] ∧ ∀ item,
      world.item item ≠ s.world.item item ∨ world.find item ≠ s.world.find item → item ∈ changed
  | _ => True

end Yunogram.Yuno.Filters
