import Yunogram.Media.CacheEntry

/-!
# Media/StreamingSlices — the slices of a streamed file, and what of them is put to the cache

The parts that were loaded are kept by slices, those of the start of the streaming also in a header.
What `Slices` does is said here as the source does it, with `none` where one of its checks fails.  That
all of a slice is in the cache is left out: nothing that is read or put depends on it.
-/

namespace Yunogram.Media.Streaming

open Machinery

/-- `kSlicesInMemory`. -/
def kSlicesInMemory : ℕ := 2

/-- `kPreloadPartsAhead`. -/
def kPreloadPartsAhead : ℕ := 8

/-- `kLoadFromRemoteMax`. -/
def kLoadFromRemoteMax : ℕ := 8

/-- `FillResult::kReadFromCacheMax`. -/
def kReadFromCacheMax : ℕ := 2

/-! ## One slice -/

/-- `Slice`. -/
structure Slice where
  parts : PartsMap
  loadingFromCache : Bool
  loadedFromCache : Bool
  changedSinceCache : Bool
  deriving DecidableEq

namespace Slice

/-- A slice without parts. -/
def empty : Slice := ⟨.empty, false, false, false⟩

/-- `Slice::processCacheData`. -/
def processCacheData (slice : Slice) (data : PartsMap) : Option Slice :=
  if slice.loadingFromCache ∧ ¬slice.loadedFromCache then
    some { slice with
      parts :=
        if slice.parts.isEmpty then data
        else data.entries.foldl (fun parts part => parts.emplace part.1 part.2) slice.parts
      loadedFromCache := true
      loadingFromCache := false }
  else none

/-- `Slice::addPart`. -/
def addPart (slice : Slice) (offset : ℕ) (bytes : Bytes) : Option Slice :=
  if slice.parts.contains offset then none
  else some { slice with
    parts := slice.parts.emplace offset bytes
    changedSinceCache := slice.changedSinceCache || slice.loadedFromCache }

/-- `StackIntVector::add`, of a vector for `size` values. -/
def stackAdd (size : ℕ) (values : List ℕ) (value : ℕ) : Option (List ℕ) :=
  if values.length < size then some (values ++ [value]) else none

/-- The loop of `Slice::offsetsFromLoader`: it ends where it should, for both ends of it are whole
parts. -/
def offsetsFromLoaderLoop (parts : PartsMap) (till : ℕ) : ℕ → ℕ → List ℕ → List ℕ
  | 0, _, result => result
  | rounds + 1, offset, result =>
    if till ≤ offset then result
    else if parts.contains offset then
      offsetsFromLoaderLoop parts till rounds (offset + kPartSize) result
    else match stackAdd kLoadFromRemoteMax result offset with
      | none => result
      | some result => offsetsFromLoaderLoop parts till rounds (offset + kPartSize) result

/-- `Slice::offsetsFromLoader`. -/
def offsetsFromLoader (slice : Slice) (from' till : ℕ) : List ℕ :=
  offsetsFromLoaderLoop slice.parts till till from' []

/-- `PrepareFillResult`, with the parts from `start` to `finish`. -/
structure PrepareFillResult where
  offsetsFromLoader : List ℕ
  parts : List (ℕ × Bytes)
  ready : Bool

/-- The last part that starts at `from'` or before, and all after it that start before `till`. -/
def partsBetween (parts : PartsMap) (from' till : ℕ) : List (ℕ × Bytes) :=
  let count := parts.entries.countP (·.1 ≤ from')
  ((parts.entries.drop (count - 1)).filter (·.1 < till))

/-- `Slice::prepareFill`. -/
def prepareFill (slice : Slice) (from' till : ℕ) : PrepareFillResult :=
  let fromOffset := from' / kPartSize * kPartSize
  let tillPart := (till + kPartSize - 1) / kPartSize
  let preloadTillOffset := (tillPart + kPreloadPartsAhead) * kPartSize
  if slice.parts.entries.countP (·.1 ≤ from') = 0 then
    ⟨slice.offsetsFromLoader fromOffset preloadTillOffset, [], false⟩
  else
    let parts := partsBetween slice.parts from' till
    let haveTill := findNotLoadedStart parts fromOffset
    if haveTill < till then ⟨slice.offsetsFromLoader haveTill preloadTillOffset, [], false⟩
    else ⟨slice.offsetsFromLoader (tillPart * kPartSize) preloadTillOffset, parts, true⟩

end Slice

/-- `CopyLoaded`: what is copied to the buffer. -/
def copyLoaded (till : ℕ) : List (ℕ × Bytes) → ℕ → Option Bytes
  | [], _ => some []
  | part :: parts, filled =>
    let copyTill := min (part.1 + part.2.length) till
    if part.1 ≤ filled ∧ filled < copyTill then
      (copyLoaded till parts copyTill).map
        ((part.2.drop (filled - part.1)).take (copyTill - filled) ++ ·)
    else none

/-! ## All slices -/

/-- `HeaderMode`. -/
inductive HeaderMode
  | unknown
  | small
  | good
  | full
  | noCache
  deriving DecidableEq

/-- `Slices`, with the `_fullInCache` of it left out. -/
structure Slices where
  data : List Slice
  header : Slice
  usedSlices : List ℕ
  size : ℕ
  headerMode : HeaderMode
  deriving DecidableEq

/-- `SerializedSlice`. -/
structure SerializedSlice where
  number : ℕ
  data : Bytes
  deriving DecidableEq

namespace Slices

/-- The constructor of `Slices`. -/
def new (size : ℕ) (useCache : Bool) : Option Slices :=
  if size = 0 then none
  else if ¬isFullInHeader size ∧ 0x1FF ≤ slicesCount size then none
  else some {
    data := if isFullInHeader size then [] else List.replicate (slicesCount size) .empty
    header := { Slice.empty with loadingFromCache := useCache }
    usedSlices := []
    size
    headerMode := if useCache then .unknown else .noCache }

variable (s : Slices)

/-- `Slices::isGoodHeader`. -/
def isGoodHeader : Bool := s.headerMode = .good

/-- `Slices::headerDone`. -/
def headerDone (fromCache : Bool) : Option Slices :=
  if s.headerMode ≠ .unknown then some s
  else
    let headerMode :=
      if isFullInHeader s.size then HeaderMode.full
      else if computeIsGoodHeader s.size s.header.parts then .good
      else .small
    if fromCache then some { s with headerMode }
    else if s.data.any fun slice => slice.loadingFromCache || slice.loadedFromCache then none
    else some { s with
      headerMode
      data := s.data.map fun slice => { slice with loadedFromCache := true } }

/-- A part that belongs to the slice with an index is added to it. -/
def addPartTo (index offset : ℕ) (bytes : Bytes) : Option Slices :=
  match s.data[index]? with
  | none => none
  | some slice =>
    match slice.addPart offset bytes with
    | none => none
    | some slice => some { s with data := s.data.set index slice }

/-- `applyWhile`: parts of the header are added to the slices before `till`, up to the first that is
not of those. -/
def applyWhile (till : ℕ) : List (ℕ × Bytes) → Slices → Option Slices
  | [], s => some s
  | part :: parts, s =>
    let index := part.1 / kInSlice
    if till ≤ index then some s
    else match s.addPartTo index (part.1 - index * kInSlice) part.2 with
      | none => none
      | some s => applyWhile till parts s

/-- `Slices::applyHeaderCacheData`. -/
def applyHeaderCacheData : Option Slices :=
  if s.header.parts.isEmpty then some s
  else if s.headerMode = .good then applyWhile 1 s.header.parts.entries s
  else if s.headerMode ≠ .unknown then some s
  else if isFullInHeader s.size then s.headerDone true
  else match applyWhile s.data.length s.header.parts.entries s with
    | none => none
    | some s => s.headerDone true

/-- What `Slices::processCacheResult` does with the header, once it is known that it waits for it. -/
def processCacheHeader (header : Slice) (result : PartsMap) : Option Slices :=
  if ¬header.loadingFromCache then some s
  else match header.processCacheData result with
    | none => none
    | some header =>
      match applyHeaderCacheData { s with header } with
      | none => none
      | some s =>
        if s.isGoodHeader then
          match s.data[0]? with
          | none => none
          | some first =>
            some { s with data := s.data.set 0 { first with loadingFromCache := true } }
        else some s

/-- `Slices::processCacheResult`. -/
def processCacheResult (sliceNumber : ℕ) (result : PartsMap) : Option Slices :=
  if sliceNumber = 0 then
    if s.isGoodHeader then
      -- The header was read because the first slice was wanted.
      match s.data[0]? with
      | none => none
      | some first =>
        if ¬first.loadingFromCache then some s
        else s.processCacheHeader
          { s.header with loadingFromCache := true, loadedFromCache := false } result
    else s.processCacheHeader s.header result
  else match s.data[sliceNumber - 1]? with
    | none => none
    | some slice =>
      if ¬slice.loadingFromCache then some s
      else match slice.processCacheData result with
        | none => none
        | some slice => some { s with data := s.data.set (sliceNumber - 1) slice }

/-- `Slices::processPart`. -/
def processPart (offset : ℕ) (bytes : Bytes) : Option Slices :=
  if isFullInHeader s.size then
    (s.header.addPart offset bytes).map fun header => { s with header }
  else
    s.addPartTo (offset / kInSlice) (offset - offset / kInSlice * kInSlice) bytes

/-! ## Putting to the cache -/

/-- `Slices::serializeAndUnloadFirstSliceNoHeader`. -/
def serializeAndUnloadFirstSliceNoHeader : Option (Slices × Bytes) :=
  match s.data[0]? with
  | none => none
  | some slice =>
    if ¬slice.loadedFromCache then none
    else
      let parts := s.header.parts.keys.foldl FlatMap.erase slice.parts
      some ({ s with data := s.data.set 0 .empty }, serializeComplexPartsMap parts)

/-- `Slices::serializeAndUnloadSlice`. -/
def serializeAndUnloadSlice (sliceNumber : ℕ) : Option (Slices × SerializedSlice) :=
  if s.headerMode = .unknown ∨ s.headerMode = .noCache ∨ s.data.length < sliceNumber then none
  else
    let sliceNumber := if s.isGoodHeader ∧ sliceNumber = 1 then 0 else sliceNumber
    let writeHeaderAndSlice := s.isGoodHeader ∧ sliceNumber = 0
    match (if sliceNumber = 0 then some s.header else s.data[sliceNumber - 1]?) with
    | none => none
    | some slice =>
      match slice.parts.entries.getLast? with
      | none => none
      | some back =>
        let continuousTill :=
          if writeHeaderAndSlice then 0 else findNotLoadedStart slice.parts.entries 0
        let maxSize := toInt (maxSliceSize sliceNumber s.size)
        match (if back.1 < continuousTill then
            some (s, slice.parts.entries.flatMap Prod.snd)
          else if writeHeaderAndSlice then
            s.serializeAndUnloadFirstSliceNoHeader.map fun (s, rest) =>
              (s, padded maxSize 3 (serializeComplexPartsMap slice.parts ++ rest))
          else some (s, padded maxSize 3 (serializeComplexPartsMap slice.parts))) with
        | none => none
        | some (s, data) =>
          some (if sliceNumber = 0 then { s with header := { s.header with changedSinceCache := false } }
            else { s with data := s.data.set (sliceNumber - 1) .empty }, ⟨sliceNumber, data⟩)

/-- `Slices::serializeAndUnloadUnused`. -/
def serializeAndUnloadUnused : Option (Slices × Option SerializedSlice) :=
  if s.headerMode = .unknown ∨ s.usedSlices.length ≤ kSlicesInMemory then some (s, none)
  else match s.usedSlices with
    | [] => some (s, none)
    | purgeSlice :: usedSlices =>
      let s := { s with usedSlices }
      match s.data[purgeSlice]? with
      | none => none
      | some slice =>
        if ¬slice.loadedFromCache then some (s, none)
        else
          let noNeedToSaveToCache := s.headerMode = .noCache ∨
            ¬slice.changedSinceCache ∧
              (¬s.isGoodHeader ∨ 0 < purgeSlice ∨ ¬s.header.changedSinceCache)
          if noNeedToSaveToCache then
            some ({ s with data := s.data.set purgeSlice .empty }, none)
          else (s.serializeAndUnloadSlice (purgeSlice + 1)).map fun (s, slice) => (s, some slice)

/-- `Slices::unloadToCache`. -/
def unloadToCache : Option (Slices × Option SerializedSlice) :=
  if s.headerMode = .unknown ∨ s.headerMode = .noCache then some (s, none)
  else if s.header.changedSinceCache then
    (s.serializeAndUnloadSlice 0).map fun (s, slice) => (s, some slice)
  else match s.data.findIdx? (·.changedSinceCache) with
    | none => some (s, none)
    | some i => (s.serializeAndUnloadSlice (i + 1)).map fun (s, slice) => (s, some slice)

/-! ## Filling a buffer -/

/-- `Slices::markSliceUsed`. -/
def markSliceUsed (sliceIndex : ℕ) : Slices :=
  { s with usedSlices := s.usedSlices.erase sliceIndex ++ [sliceIndex] }

/-- `addToHeader`: parts that were read are kept in the header while it is not known what it is. -/
def addToHeader (slice : ℕ) (parts : List (ℕ × Bytes)) : Option Slices :=
  if s.headerMode ≠ .unknown then some s
  else parts.foldlM (fun (s : Slices) part =>
    let totalOffset := slice * kInSlice + part.1
    if ¬s.header.parts.contains totalOffset ∧ s.header.parts.size < kMaxPartsInHeader then
      (s.header.addPart totalOffset part.2).map fun header => { s with header }
    else some s) s

/-- `FillState`, of those that `Slices` returns. -/
inductive FillState
  | success
  | waitingCache
  | waitingRemote
  deriving DecidableEq

/-- `FillResult`, with what was copied to the buffer. -/
structure FillResult where
  sliceNumbersFromCache : List ℕ
  offsetsFromLoader : List ℕ
  toCache : Option SerializedSlice
  state : FillState
  buffer : Bytes
  deriving DecidableEq

/-- What is returned while nothing else is said. -/
def FillResult.waiting : FillResult := ⟨[], [], none, .waitingRemote, []⟩

/-- A value is added to a vector that may be full. -/
def addOr (size : ℕ) (values : List ℕ) (value : ℕ) : List ℕ :=
  (Slice.stackAdd size values value).getD values

/-- `Slices::fillFromHeader`. -/
def fillFromHeader (offset count : ℕ) : Option FillResult :=
  let prepared := s.header.prepareFill offset (offset + count)
  let offsetsFromLoader := prepared.offsetsFromLoader.foldl
    (fun offsets full => if full < s.size then addOr kLoadFromRemoteMax offsets full else offsets) []
  if prepared.ready then
    (copyLoaded (offset + count) prepared.parts offset).map fun buffer =>
      ⟨[], offsetsFromLoader, none, .success, buffer⟩
  else some ⟨[], offsetsFromLoader, none, .waitingRemote, []⟩

/-- `cacheNotLoaded`. -/
def cacheNotLoaded (sliceIndex : ℕ) : Bool :=
  s.headerMode ≠ .noCache && s.headerMode ≠ .unknown &&
    !(s.data[sliceIndex]?.any (·.loadedFromCache))

/-- `handlePrepareResult`. -/
def handlePrepareResult (sliceIndex : ℕ) (prepared : Slice.PrepareFillResult)
    (offsets : List ℕ) : List ℕ :=
  if s.cacheNotLoaded sliceIndex then offsets
  else prepared.offsetsFromLoader.foldl (fun offsets offset =>
    let full := offset + sliceIndex * kInSlice
    if offset < kInSlice ∧ full < s.size then addOr kLoadFromRemoteMax offsets full
    else offsets) offsets

/-- `handleReadFromCache`. -/
def handleReadFromCache (sliceIndex : ℕ) (result : FillResult) : Slices × FillResult :=
  if s.cacheNotLoaded sliceIndex then
    match s.data[sliceIndex]? with
    | none => (s, result)
    | some slice =>
      if slice.loadingFromCache then (s, { result with state := .waitingCache })
      else ({ s with data := s.data.set sliceIndex { slice with loadingFromCache := true } },
        { result with
          sliceNumbersFromCache :=
            addOr kReadFromCacheMax result.sliceNumbersFromCache (sliceIndex + 1)
          state := .waitingCache })
  else (s, result)

/-- `Slices::fill`. -/
def fill (offset count : ℕ) : Option (Slices × FillResult) :=
  if count = 0 ∨ s.size ≤ offset ∨ s.size < offset + count ∨ kInSlice < count then none
  else if s.headerMode ≠ .noCache ∧ ¬s.header.loadedFromCache then
    if s.header.loadingFromCache then some (s, .waiting) else none
  else if isFullInHeader s.size then (s.fillFromHeader offset count).map (s, ·)
  else
    let till := offset + count
    let fromSlice := offset / kInSlice
    let tillSlice := (till + kInSlice - 1) % 2 ^ 32 / kInSlice
    if ¬((fromSlice + 1 = tillSlice ∨ fromSlice + 2 = tillSlice) ∧ tillSlice ≤ s.data.length) then none
    else
      let firstFrom := offset - fromSlice * kInSlice
      let firstTill := min kInSlice (till - fromSlice * kInSlice)
      let secondTill := till - (fromSlice + 1) * kInSlice
      let first := (s.data.getD fromSlice .empty).prepareFill firstFrom firstTill
      let hasSecond := fromSlice + 1 < tillSlice
      let second := if hasSecond then (s.data.getD (fromSlice + 1) .empty).prepareFill 0 secondTill
        else ⟨[], [], true⟩
      let offsetsFromLoader := s.handlePrepareResult fromSlice first []
      let offsetsFromLoader := if hasSecond
        then s.handlePrepareResult (fromSlice + 1) second offsetsFromLoader else offsetsFromLoader
      if first.ready ∧ second.ready then do
        let buffer ← copyLoaded firstTill first.parts firstFrom
        let s ← (s.markSliceUsed fromSlice).addToHeader fromSlice first.parts
        let (s, buffer) ← if hasSecond then do
            let more ← copyLoaded secondTill second.parts 0
            let s ← (s.markSliceUsed (fromSlice + 1)).addToHeader (fromSlice + 1) second.parts
            some (s, buffer ++ more)
          else some (s, buffer)
        let (s, toCache) ← s.serializeAndUnloadUnused
        some (s, ⟨[], offsetsFromLoader, toCache, .success, buffer⟩)
      else
        let (s, result) := s.handleReadFromCache fromSlice ⟨[], offsetsFromLoader, none, .waitingRemote, []⟩
        some (if hasSecond then s.handleReadFromCache (fromSlice + 1) result else (s, result))

end Slices

end Yunogram.Media.Streaming
