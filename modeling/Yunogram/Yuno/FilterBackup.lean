import Mathlib
import Yunogram.Machinery.FlatMap

/-!
# Yuno/FilterBackup — a backup of the filters, and what an import makes of it

`filters_utils.cpp` writes the filters and the exclusions as one JSON document.  To import one,
`prepareChanges` compares it with what the database holds and `applyChanges` carries the
differences out, in a fixed order.

JSON is exact here: a number that is an integer is that integer, a string its characters, and an
object the list of its fields.  The tables are lists of rows; the `id` of a filter is a primary key
and the `fakeId` of an exclusion is numbered by the table. -/

open Machinery

namespace Yunogram.Yuno.FilterBackup

/-- `ID`. -/
abbrev ID := ℤ

/-! ## JSON -/

/-- `QJsonValue`.  A number that is not an integer is kept by the integer nearest to it. -/
inductive QJsonValue
  | undefined
  | null
  | bool (b : Bool)
  | number (n : ℤ)
  | fraction (nearest : ℤ)
  | string (text : String)
  | array (items : List QJsonValue)
  | object (fields : List (String × QJsonValue))

/-- `QJsonObject`, and `QJsonDocument` with an object in it. -/
abbrev QJsonObject := List (String × QJsonValue)

/-- `QJsonObject::value`. -/
def value (json : QJsonObject) (key : String) : QJsonValue :=
  match json.find? fun field => field.1 = key with
  | some field => field.2
  | none => .undefined

/-- What the module asks of others: `QString::toLongLong`, the chats that some account has loaded,
and the usernames of those that the current one has. -/
structure Outside where
  toLongLong : String → Option ID
  isLoaded : ID → Bool
  username : ID → Option String

namespace QJsonValue

/-- `isNull`. -/
def isNull : QJsonValue → Bool
  | null => true
  | _ => false

/-- `toBool`. -/
def toBool : QJsonValue → Bool
  | bool b => b
  | _ => false

/-- `toInt`. -/
def toInt : QJsonValue → ℤ
  | number n => if -2 ^ 31 ≤ n ∧ n < 2 ^ 31 then n else 0
  | _ => 0

/-- `toString`. -/
def toString : QJsonValue → String
  | string text => text
  | _ => ""

/-- `toArray`. -/
def toArray : QJsonValue → List QJsonValue
  | array items => items
  | _ => []

/-- `toObject`. -/
def toObject : QJsonValue → QJsonObject
  | object fields => fields
  | _ => []

/-- `toVariant().toLongLong()`. -/
def toLongLong (out : Outside) : QJsonValue → ID
  | bool b => if b then 1 else 0
  | number n => n
  | fraction nearest => nearest
  | string text => (out.toLongLong text).getD 0
  | _ => 0

end QJsonValue

/-! ## Ids -/

/-- `QByteArray::toHex`. -/
def toHex (bytes : List UInt8) : List Char :=
  bytes.flatMap fun b => [(b.toNat / 16).digitChar, (b.toNat % 16).digitChar]

/-- The value of a hexadecimal digit. -/
def hexValue (c : Char) : Option ℕ :=
  if '0' ≤ c ∧ c ≤ '9' then some (c.toNat - '0'.toNat)
  else if 'a' ≤ c ∧ c ≤ 'f' then some (c.toNat - 'a'.toNat + 10)
  else if 'A' ≤ c ∧ c ≤ 'F' then some (c.toNat - 'A'.toNat + 10)
  else none

/-- The bytes of some digits, the last digit first. -/
def pairUp : List ℕ → List UInt8
  | [] => []
  | [low] => [UInt8.ofNat low]
  | low :: high :: digits => UInt8.ofNat (high * 16 + low) :: pairUp digits

/-- `QByteArray::fromHex`: it goes from the end and skips what is not a digit. -/
def fromHex (text : List Char) : List UInt8 :=
  (pairUp (text.filterMap hexValue).reverse).reverse

/-- How many UTF-16 units a character takes. -/
def utf16Size (c : Char) : ℕ := if c.toNat < 0x10000 then 1 else 2

/-- `ParseFilterId`. -/
def parseFilterId (id : String) : List UInt8 :=
  let id := id.toList.filter fun c => c ≠ '-'
  if (id.map utf16Size).sum ≠ 32 then []
  else
    let bytes := fromHex id
    if bytes.length ≠ 16 then [] else bytes

/-- The id as an export writes it, like a UUID of Java. -/
def hexId (id : List UInt8) : String :=
  let hexId := toHex id
  String.ofList <|
    if hexId.length = 32 then
      (((hexId.insertIdx 8 '-').insertIdx 13 '-').insertIdx 18 '-').insertIdx 23 '-'
    else hexId

/-! ## The tables -/

/-- `RegexFilter`, compared by all its fields. -/
structure RegexFilter where
  id : List UInt8
  text : String
  enabled : Bool
  reversed : Bool
  caseInsensitive : Bool
  dialogId : Option ID
  deriving DecidableEq

/-- `RegexFilterGlobalExclusion`, without the `fakeId` that its comparison ignores. -/
structure RegexFilterGlobalExclusion where
  dialogId : ID
  filterId : List UInt8
  deriving DecidableEq

/-- The tables of `YunoDatabase`; `lastFakeId` is what `autoincrement` has come to. -/
structure Database where
  filters : List RegexFilter := []
  exclusions : List (ℕ × RegexFilterGlobalExclusion) := []
  lastFakeId : ℕ := 0

namespace Database

/-- The ids of the filters. -/
def ids (db : Database) : List (List UInt8) := db.filters.map RegexFilter.id

/-- `getAllFiltersExclusions`, the stored pairs. -/
def getAllFiltersExclusions (db : Database) : List RegexFilterGlobalExclusion :=
  db.exclusions.map Prod.snd

/-- `addRegexFilter`. -/
def addRegexFilter (db : Database) (filter : RegexFilter) : Database :=
  { db with filters := db.filters.filter (fun f => f.id ≠ filter.id) ++ [filter] }

/-- `addRegexExclusion`. -/
def addRegexExclusion (db : Database) (exclusion : RegexFilterGlobalExclusion) : Database :=
  { db with
    exclusions := db.exclusions ++ [(db.lastFakeId + 1, exclusion)]
    lastFakeId := db.lastFakeId + 1 }

/-- `updateRegexFilter`. -/
def updateRegexFilter (db : Database) (filter : RegexFilter) : Database :=
  { db with
    filters := db.filters.map fun f =>
      if f.id = filter.id then
        { f with
          text := filter.text
          enabled := filter.enabled
          reversed := filter.reversed
          caseInsensitive := filter.caseInsensitive
          dialogId := filter.dialogId }
      else f }

/-- `deleteFilter`. -/
def deleteFilter (db : Database) (id : List UInt8) : Database :=
  { db with filters := db.filters.filter fun f => f.id ≠ id }

/-- `deleteExclusionsByFilterId`. -/
def deleteExclusionsByFilterId (db : Database) (id : List UInt8) : Database :=
  { db with exclusions := db.exclusions.filter fun row => row.2.filterId ≠ id }

/-- `deleteExclusion`. -/
def deleteExclusion (db : Database) (dialogId : ID) (filterId : List UInt8) : Database :=
  { db with
    exclusions := db.exclusions.filter fun row =>
      ¬(row.2.filterId = filterId ∧ row.2.dialogId = dialogId) }

end Database

/-! ## Export -/

/-- `BACKUP_VERSION`. -/
def BACKUP_VERSION : ℤ := 2

/-- A filter as `exportFilters` writes it. -/
def filterJson (item : RegexFilter) : QJsonValue :=
  .object
    [("caseInsensitive", .bool item.caseInsensitive),
     ("dialogId", match item.dialogId with
       | some dialogId => .number dialogId
       | none => .null),
     ("enabled", .bool item.enabled),
     ("id", .string (hexId item.id)),
     ("reversed", .bool item.reversed),
     ("text", .string item.text)]

/-- `BackupExclusion::toJson`. -/
def exclusionJson (item : RegexFilterGlobalExclusion) : QJsonValue :=
  .object [("dialogId", .number item.dialogId), ("filterId", .string (hexId item.filterId))]

/-- The usernames of the chats that filters belong to, by the ids of the chats. -/
def peersJson (out : Outside) (filters : List RegexFilter) : FlatMap String String :=
  filters.foldl
    (fun peers item =>
      match item.dialogId with
      | none => peers
      | some dialogId =>
        match out.username dialogId with
        | none => peers
        | some username =>
          if username.isEmpty then peers else peers.assign (toString dialogId) username)
    FlatMap.empty

/-- `exportFilters`. -/
def exportFilters (out : Outside) (db : Database) : QJsonObject :=
  [("exclusions", .array (db.getAllFiltersExclusions.map exclusionJson)),
   ("filters", .array (db.filters.map filterJson)),
   ("peers", .object ((peersJson out db.filters).entries.map fun entry =>
     (entry.1, .string entry.2))),
   ("removeExclusions", .null),
   ("removeFiltersById", .null),
   ("version", .number BACKUP_VERSION)]

/-! ## Import -/

/-- `ApplyChanges`. -/
structure ApplyChanges where
  newFilters : List RegexFilter := []
  removeFiltersById : List (List UInt8) := []
  filtersOverrides : List RegexFilter := []
  newExclusions : List RegexFilterGlobalExclusion := []
  removeExclusions : List RegexFilterGlobalExclusion := []
  peersToBeResolved : List String := []

/-- One of the `filters` of a document, unless it is skipped. -/
def readFilter (out : Outside) (filterRef : QJsonValue) : Option RegexFilter :=
  let filter := filterRef.toObject
  if filter.isEmpty then none
  else
    let dialogIdValue := value filter "dialogId"
    let id := parseFilterId (value filter "id").toString
    if id.isEmpty then none
    else some
      { id := id
        text := (value filter "text").toString
        enabled := (value filter "enabled").toBool
        reversed := (value filter "reversed").toBool
        caseInsensitive := (value filter "caseInsensitive").toBool
        dialogId := if !dialogIdValue.isNull then some (dialogIdValue.toLongLong out) else none }

/-- The exclusion that an object describes, unless its filter id is none. -/
def readPair (out : Outside) (exclusion : QJsonObject) : Option RegexFilterGlobalExclusion :=
  let filterId := parseFilterId (value exclusion "filterId").toString
  if filterId.isEmpty then none
  else some { dialogId := (value exclusion "dialogId").toLongLong out, filterId := filterId }

/-- One of the `exclusions` of a document, unless it is skipped. -/
def readExclusion (out : Outside) (exclusionRef : QJsonValue) :
    Option RegexFilterGlobalExclusion :=
  let exclusion := exclusionRef.toObject
  if exclusion.isEmpty then none else readPair out exclusion

/-- One of the `removeExclusions` of a document, unless it is skipped. -/
def readRemovedExclusion (out : Outside) (exclusionRef : QJsonValue) :
    Option RegexFilterGlobalExclusion :=
  readPair out exclusionRef.toObject

/-- One of the `removeFiltersById` of a document, unless it is skipped. -/
def readRemovedFilter (filterRef : QJsonValue) : Option (List UInt8) :=
  let filterId := parseFilterId filterRef.toString
  if filterId.isEmpty then none else some filterId

/-- What the loop over the filters collects. -/
structure Collected where
  filtersOverrides : List RegexFilter := []
  newFilters : FlatMap (List ℤ) RegexFilter := FlatMap.empty

/-- The characters of an id, which are signed, as `newFilters` sorts by them. -/
def chars (id : List UInt8) : List ℤ := id.map fun b => b.toInt8.toInt

/-- One turn of the loop over the filters. -/
def collect (existingFilters : List RegexFilter) (collected : Collected) (regex : RegexFilter) :
    Collected :=
  match existingFilters.find? fun f => f.id = regex.id with
  | some existing =>
    if existing ≠ regex then
      { collected with filtersOverrides := collected.filtersOverrides ++ [regex] }
    else collected
  | none => { collected with newFilters := collected.newFilters.assign (chars regex.id) regex }

/-- Whether a username is to be resolved: its chat is loaded in no account. -/
def toBeResolved (out : Outside) (dialogIdStr : String) : Bool :=
  match out.toLongLong dialogIdStr with
  | some dialogId => !out.isLoaded dialogId
  | none => true

/-- `prepareChanges`. -/
def prepareChanges (out : Outside) (root : QJsonObject) (db : Database) : ApplyChanges :=
  if (value root "version").toInt > BACKUP_VERSION then {}
  else
    let existingFilters := db.filters
    let existingExclusions := db.getAllFiltersExclusions
    let collected :=
      ((value root "filters").toArray.filterMap (readFilter out)).foldl
        (collect existingFilters) {}
    { newFilters := collected.newFilters.entries.map Prod.snd
      removeFiltersById :=
        ((value root "removeFiltersById").toArray.filterMap readRemovedFilter).filter fun id =>
          existingFilters.any fun f => f.id = id
      filtersOverrides := collected.filtersOverrides
      newExclusions :=
        ((value root "exclusions").toArray.filterMap (readExclusion out)).filter fun regex =>
          regex ∉ existingExclusions
      removeExclusions :=
        ((value root "removeExclusions").toArray.filterMap (readRemovedExclusion out)).filter
          fun regex => regex ∈ existingExclusions
      peersToBeResolved :=
        ((value root "peers").toObject.filter fun field => toBeResolved out field.1).map
          fun field => field.2.toString }

/-- `applyChanges`, as far as the database goes. -/
def applyChanges (changes : ApplyChanges) (db : Database) : Database :=
  let db := changes.newFilters.foldl Database.addRegexFilter db
  let db := changes.removeFiltersById.foldl
    (fun db id => (db.deleteExclusionsByFilterId id).deleteFilter id) db
  let db := changes.filtersOverrides.foldl Database.updateRegexFilter db
  let db := changes.newExclusions.foldl Database.addRegexExclusion db
  changes.removeExclusions.foldl
    (fun db exclusion => db.deleteExclusion exclusion.dialogId exclusion.filterId) db

/-- A document, prepared against the database and applied to it. -/
def importDocument (out : Outside) (root : QJsonObject) (db : Database) : Database :=
  applyChanges (prepareChanges out root db) db

end Yunogram.Yuno.FilterBackup
