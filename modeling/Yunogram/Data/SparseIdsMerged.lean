import Mathlib
import Yunogram.Data.RepliesList
import Yunogram.Storage.SparseIdsList

/-!
# Data/SparseIdsMerged — the ids of a chat and of the group it was migrated from, as one list

`SparseIdsMergedSlice` of `data/data_sparse_ids.cpp` shows a slice of the ids of a group and after
it a slice of those of the chat it became, under one list of indices.  One of the two is left out
while the slice of the other does not reach the place where they meet (`isolatedInPart`,
`isolatedInMigrated`).

The slice of the group is absent where there is no group.  Most of the code asks for it first;
`migratedSize` and `skippedAfter` ask only whether the slice is isolated in its part, which one
around no id is not: `merged_addressed` says that the indices are right exactly elsewhere. -/

namespace Yunogram.Data

open Machinery Storage

/-! ## The parts -/

/-- `IsServerMsgId`. -/
def isServerMsgId (id : MsgId) : Bool := 0 < id ∧ id < serverMaxMsgId

/-- `AbstractSparseIds`, over any vector of ids. -/
structure AbstractSparseIds where
  ids : List MsgId
  fullCount : Option ℤ
  skippedBefore : Option ℤ
  skippedAfter : Option ℤ

namespace AbstractSparseIds

/-- `size`. -/
def size (slice : AbstractSparseIds) : ℤ := slice.ids.length

/-- `indexOf`. -/
def indexOf (slice : AbstractSparseIds) (id : MsgId) : Option ℤ :=
  if id ∈ slice.ids then some (slice.ids.idxOf id) else none

/-- `operator[]`. -/
def get (slice : AbstractSparseIds) (index : ℤ) : Except Fault MsgId :=
  match slice.ids[index.toNat]? with
  | some id => if 0 ≤ index then .ok id else .error .assertion
  | none => .error .assertion

/-- `nearest`, where the ids are sorted: the first that is not less, or the last. -/
def nearest (slice : AbstractSparseIds) (id : MsgId) : Option MsgId :=
  match slice.ids.find? (id ≤ ·) with
  | some it => some it
  | none => slice.ids.getLast?

/-- The counts are known and add up. -/
def SumsUp (slice : AbstractSparseIds) : Prop :=
  ∃ full before after, slice.fullCount = some full ∧ slice.skippedBefore = some before ∧
    slice.skippedAfter = some after ∧ before + slice.size + after = full

variable {slice : AbstractSparseIds} {i : ℕ}

theorem get_of_lt (h : i < slice.ids.length) : slice.get i = .ok slice.ids[i] := by
  rw [get, Int.toNat_natCast, List.getElem?_eq_getElem h]
  exact if_pos (Int.natCast_nonneg i)

end AbstractSparseIds

/-- `SparseIdsSlice`: the ids are a flat set. -/
structure SparseIdsSlice extends AbstractSparseIds where
  sorted : ids.Pairwise (· < ·)

theorem SparseIdsSlice.nodup (slice : SparseIdsSlice) : slice.ids.Nodup :=
  slice.sorted.imp ne_of_lt

theorem SparseIdsSlice.indexOf_get {slice : SparseIdsSlice} {i : ℕ} (h : i < slice.ids.length) :
    slice.indexOf slice.ids[i] = some (i : ℤ) := by
  rw [AbstractSparseIds.indexOf, if_pos (List.getElem_mem h), slice.nodup.idxOf_getElem]

theorem AbstractSparseIds.get_indexOf {slice : AbstractSparseIds} {id : MsgId} {index : ℤ}
    (h : slice.indexOf id = some index) :
    ∃ i : ℕ, index = i ∧ ∃ hi : i < slice.ids.length, slice.ids[i] = id := by
  rw [indexOf] at h
  split_ifs at h with hmem
  obtain rfl := Option.some.inj h
  exact ⟨_, rfl, List.idxOf_lt_length_of_mem hmem, List.getElem_idxOf _⟩

/-! ## The merged slice -/

/-- `FullMsgId`. -/
structure FullMsgId where
  peer : ℕ
  msg : MsgId
  deriving DecidableEq

/-- `SparseIdsMergedSlice::Key`; the peer 0 is no peer. -/
structure MergedKey where
  peerId : ℕ
  topicRootId : MsgId
  monoforumPeerId : ℕ
  migratedPeerId : ℕ
  universalId : MsgId

/-- What `CreateViewer` asserts of a key and of its limits. -/
structure MergedKey.Admitted (key : MergedKey) (limitBefore limitAfter : ℤ) : Prop where
  topic : key.topicRootId = 0 ∨ key.monoforumPeerId = 0 ∧ key.migratedPeerId = 0
  monoforum : key.monoforumPeerId = 0 ∨ key.topicRootId = 0 ∧ key.migratedPeerId = 0
  universal : isServerMsgId key.universalId = true ∨ key.universalId = 0 ∨
    isServerMsgId (serverMaxMsgId + key.universalId) = true ∧ key.migratedPeerId ≠ 0
  limits : key.universalId ≠ 0 ∨ limitBefore = 0 ∧ limitAfter = 0

/-- `SparseIdsMergedSlice`. -/
structure SparseIdsMergedSlice where
  key : MergedKey
  part : SparseIdsSlice
  migrated : Option SparseIdsSlice
  unsorted : Option AbstractSparseIds

namespace SparseIdsMergedSlice

/-- The slice `CreateViewer` makes of its two parts. -/
def viewed (key : MergedKey) (part migrated : SparseIdsSlice) : SparseIdsMergedSlice :=
  ⟨key, part, if key.migratedPeerId ≠ 0 then some migrated else none, none⟩

variable (slice : SparseIdsMergedSlice)

/-- The part of the group, which must not be absent. -/
def migratedPart : Except Fault SparseIdsSlice :=
  match slice.migrated with
  | some migrated => .ok migrated
  | none => .error .outOfBounds

/-- `Add`. -/
def add : Option ℤ → Option ℤ → Option ℤ
  | some a, some b => some (a + b)
  | _, _ => none

/-- `isFromPart`. -/
def isFromPart (fullId : FullMsgId) : Bool := slice.key.peerId = fullId.peer

/-- `isFromMigrated`. -/
def isFromMigrated (fullId : FullMsgId) : Bool :=
  slice.migrated.isSome ∧ slice.key.migratedPeerId = fullId.peer

/-- `isolatedInPart`. -/
def isolatedInPart : Bool :=
  isServerMsgId slice.key.universalId &&
    (slice.migrated.isNone || slice.part.skippedBefore != some 0)

/-- `isolatedInMigrated`. -/
def isolatedInMigrated : Except Fault Bool :=
  if isServerMsgId (serverMaxMsgId + slice.key.universalId) then do
    .ok ((← slice.migratedPart).skippedAfter != some 0)
  else .ok false

/-- `migratedSize`. -/
def migratedSize : Except Fault ℤ :=
  if slice.isolatedInPart then .ok 0 else do .ok (← slice.migratedPart).size

/-- `fullCount`. -/
def fullCount : Option ℤ :=
  match slice.unsorted with
  | some unsorted => unsorted.fullCount
  | none =>
    add slice.part.fullCount
      (match slice.migrated with
      | some migrated => migrated.fullCount
      | none => some 0)

/-- `skippedBefore`. -/
def skippedBefore : Except Fault (Option ℤ) :=
  match slice.unsorted with
  | some unsorted => .ok unsorted.skippedBefore
  | none => do
    .ok (add (if ← slice.isolatedInMigrated then some 0 else slice.part.skippedBefore)
      (match slice.migrated with
      | some migrated =>
        if slice.isolatedInPart then migrated.fullCount else migrated.skippedBefore
      | none => some 0))

/-- `skippedAfter`. -/
def skippedAfter : Except Fault (Option ℤ) :=
  match slice.unsorted with
  | some unsorted => .ok unsorted.skippedAfter
  | none => do
    let inPart :=
      if ← slice.isolatedInMigrated then slice.part.fullCount else slice.part.skippedAfter
    if slice.isolatedInPart then .ok (add inPart (some 0))
    else .ok (add inPart (← slice.migratedPart).skippedAfter)

/-- `indexOf`. -/
def indexOf (fullId : FullMsgId) : Except Fault (Option ℤ) :=
  match slice.unsorted with
  | some unsorted => .ok (unsorted.indexOf fullId.msg)
  | none =>
    if slice.isFromPart fullId then do
      let size ← slice.migratedSize
      .ok ((slice.part.indexOf fullId.msg).map (· + size))
    else if slice.isolatedInPart then .ok none
    else if slice.isFromMigrated fullId then do
      .ok ((← slice.migratedPart).indexOf fullId.msg)
    else .ok none

/-- `size`. -/
def size : Except Fault ℤ :=
  match slice.unsorted with
  | some unsorted => .ok unsorted.size
  | none => do
    let inMigrated ← (if slice.isolatedInPart then .ok 0 else slice.migratedSize : Except Fault ℤ)
    .ok (inMigrated + if ← slice.isolatedInMigrated then 0 else slice.part.size)

/-- `operator[]`. -/
def get (index : ℤ) : Except Fault FullMsgId := do
  expects (0 ≤ index ∧ index < (← slice.size))
  match slice.unsorted with
  | some unsorted => .ok ⟨slice.key.peerId, ← unsorted.get index⟩
  | none =>
    let size ← slice.migratedSize
    if size ≠ 0 ∧ index < size then
      .ok ⟨slice.key.migratedPeerId, ← (← slice.migratedPart).get index⟩
    else .ok ⟨slice.key.peerId, ← slice.part.get (index - size)⟩

/-- `ComputeId` of a key. -/
def computeId (key : MergedKey) : FullMsgId :=
  if 0 ≤ key.universalId then ⟨key.peerId, key.universalId⟩
  else ⟨key.migratedPeerId, serverMaxMsgId + key.universalId⟩

/-- `distance`. -/
def distance (a b : MergedKey) : Except Fault (Option ℤ) := do
  match ← slice.indexOf (computeId a) with
  | some i =>
    match ← slice.indexOf (computeId b) with
    | some j => .ok (some (j - i))
    | none => .ok none
  | none => .ok none

/-- `nearest`. -/
def nearest (id : MsgId) : Except Fault (Option FullMsgId) :=
  match slice.unsorted with
  | some unsorted =>
    if (unsorted.indexOf id).isSome then .ok (some ⟨slice.key.peerId, id⟩)
    else if unsorted.size ≠ 0 then do
      .ok (some ⟨slice.key.peerId, ← unsorted.get (unsorted.size / 2)⟩)
    else .ok none
  | none =>
    let fromPart (msg : MsgId) : FullMsgId := ⟨slice.key.peerId, msg⟩
    let fromMigrated (msg : MsgId) : FullMsgId := ⟨slice.key.migratedPeerId, msg⟩
    if isServerMsgId id then
      match slice.part.nearest id with
      | some near => .ok (some (fromPart near))
      | none =>
        if slice.isolatedInPart then .ok none
        else do .ok (((← slice.migratedPart).nearest (serverMaxMsgId - 1)).map fromMigrated)
    else
      match slice.migrated.bind fun migrated => migrated.nearest (id + serverMaxMsgId) with
      | some near => .ok (some (fromMigrated near))
      | none => do
        if ← slice.isolatedInMigrated then .ok none
        else .ok ((slice.part.nearest 0).map fromPart)

/-! ## What a merged slice shows -/

/-- The part of the group does not reach the place where the two meet. -/
def onlyMigrated : Bool :=
  isServerMsgId (serverMaxMsgId + slice.key.universalId) &&
    slice.migrated.any fun migrated => migrated.skippedAfter != some 0

/-- The ids of the group that are shown. -/
def shownMigrated : List MsgId :=
  if slice.isolatedInPart then [] else (slice.migrated.map fun migrated => migrated.ids).getD []

/-- The ids of the chat that are shown. -/
def shownPart : List MsgId := if slice.onlyMigrated then [] else slice.part.ids

/-- **The ids of a merged slice**: those of the group, then those of the chat. -/
def ids : List FullMsgId :=
  slice.shownMigrated.map (FullMsgId.mk slice.key.migratedPeerId) ++
    slice.shownPart.map (FullMsgId.mk slice.key.peerId)

/-- The counts are known and add up. -/
def SumsUp : Prop :=
  ∃ full before size after, slice.fullCount = some full ∧ slice.skippedBefore = .ok (some before) ∧
    slice.size = .ok size ∧ slice.skippedAfter = .ok (some after) ∧ before + size + after = full

/-- **The indices are those of the ids**, which are in order; the counts add up where those of the
parts do, and nothing asks for a part that is absent. -/
structure Addressed : Prop where
  size_eq : slice.size = .ok (slice.ids.length : ℤ)
  get_eq : ∀ i (h : i < slice.ids.length), slice.get i = .ok slice.ids[i]
  indexOf_get : ∀ i (h : i < slice.ids.length), slice.indexOf slice.ids[i] = .ok (some (i : ℤ))
  get_indexOf : ∀ fullId index, slice.indexOf fullId = .ok (some index) →
    index < slice.ids.length → slice.get index = .ok fullId
  ordered : slice.ids.Pairwise fun a b =>
    a.peer = slice.key.migratedPeerId ∧ b.peer = slice.key.peerId ∨ a.peer = b.peer ∧ a.msg < b.msg
  sums : slice.part.SumsUp → (∀ migrated, slice.migrated = some migrated → migrated.SumsUp) →
    slice.SumsUp
  indexOf_ok : ∀ fullId, ∃ index, slice.indexOf fullId = .ok index
  nearest_ok : ∀ id, ∃ near, slice.nearest id = .ok near
  distance_ok : ∀ a b, ∃ n, slice.distance a b = .ok n

/-- A slice around an id, or one with a group, in which the ids of the group are told from those of
the chat. -/
def Distinct : Prop :=
  (slice.key.universalId ≠ 0 ∨ slice.key.migratedPeerId ≠ 0) ∧
    (slice.key.migratedPeerId = slice.key.peerId → slice.shownMigrated = [])

variable {slice} {key : MergedKey} {part migrated : SparseIdsSlice}

/-- Where a slice without an id of its part has a group, nothing asks for what is absent. -/
structure Present (slice : SparseIdsMergedSlice) : Prop where
  sorted : slice.unsorted = none
  migrated : slice.isolatedInPart = false → slice.migrated.isSome
  group : isServerMsgId (serverMaxMsgId + slice.key.universalId) = true → slice.migrated.isSome

theorem viewed_migrated (h : key.migratedPeerId ≠ 0) :
    (viewed key part migrated).migrated = some migrated := if_pos h

theorem viewed_migrated_none (h : key.migratedPeerId = 0) :
    (viewed key part migrated).migrated = none := if_neg (not_not.mpr h)

/-- A key around an id of the chat is not around one of the group. -/
theorem not_both {id : MsgId} (h : isServerMsgId id = true) :
    isServerMsgId (serverMaxMsgId + id) = false := by
  have hid : 0 < id ∧ id < serverMaxMsgId := of_decide_eq_true h
  exact decide_eq_false fun hboth => hid.1.not_gt (add_lt_iff_neg_left.mp hboth.2)

theorem present_viewed {limitBefore limitAfter : ℤ} (hkey : key.Admitted limitBefore limitAfter)
    (h : key.universalId ≠ 0 ∨ key.migratedPeerId ≠ 0) : Present (viewed key part migrated) := by
  by_cases hpeer : key.migratedPeerId = 0
  · have hnone : (viewed key part migrated).migrated = none := viewed_migrated_none hpeer
    have hserver : isServerMsgId key.universalId = true := by
      rcases hkey.universal with huniversal | hzero | hgroup
      · exact huniversal
      · exact absurd (h.resolve_right (not_not.mpr hpeer)) (not_not.mpr hzero)
      · exact absurd hpeer hgroup.2
    refine ⟨rfl, fun hisolated => ?_, fun hgroup => ?_⟩
    · rw [isolatedInPart, hnone] at hisolated
      simp [viewed, hserver] at hisolated
    · exact absurd hgroup (by simp [viewed, not_both hserver])
  · have hsome : (viewed key part migrated).migrated = some migrated := viewed_migrated hpeer
    exact ⟨rfl, fun _ => by rw [hsome]; rfl, fun _ => by rw [hsome]; rfl⟩

/-! ## Evaluating -/

/-- An index of the group, or one of the chat. -/
theorem ids_cases {i : ℕ} (hi : i < slice.ids.length) :
    (∃ h : i < slice.shownMigrated.length,
      slice.ids[i] = ⟨slice.key.migratedPeerId, slice.shownMigrated[i]⟩) ∨
    ∃ j, i = slice.shownMigrated.length + j ∧ ∃ h : j < slice.shownPart.length,
      slice.ids[i] = ⟨slice.key.peerId, slice.shownPart[j]⟩ := by
  have hlength : slice.ids.length = slice.shownMigrated.length + slice.shownPart.length := by
    rw [ids, List.length_append, List.length_map, List.length_map]
  by_cases hlt : i < slice.shownMigrated.length
  · refine .inl ⟨hlt, ?_⟩
    simp only [ids, List.getElem_append, List.length_map, hlt, dite_true, List.getElem_map]
  · obtain ⟨j, rfl⟩ := Nat.exists_eq_add_of_le (not_lt.mp hlt)
    refine .inr ⟨j, rfl, by omega, ?_⟩
    simp only [ids, List.getElem_append, List.length_map, hlt, dite_false, List.getElem_map,
      Nat.add_sub_cancel_left]

theorem isolated_of_shown {i : ℕ} (h : i < slice.shownMigrated.length) :
    slice.isolatedInPart = false := by
  by_contra hisolated
  rw [shownMigrated, if_pos (by simpa using hisolated)] at h
  exact nomatch h

theorem shownPart_of_shown {j : ℕ} (h : j < slice.shownPart.length) :
    slice.shownPart = slice.part.ids := by
  rw [shownPart] at h ⊢
  split_ifs at h ⊢ with honly
  · exact nomatch h
  · rfl

namespace Present

variable (h : Present slice)

include h

theorem isolatedInMigrated_eq : slice.isolatedInMigrated = .ok slice.onlyMigrated := by
  rw [isolatedInMigrated, onlyMigrated]
  split_ifs with hgroup
  · obtain ⟨migrated, hmigrated⟩ := Option.isSome_iff_exists.mp (h.group hgroup)
    rw [migratedPart, hmigrated, hgroup]
    rfl
  · rw [Bool.not_eq_true] at hgroup
    rw [hgroup]
    rfl

theorem migratedPart_eq (hisolated : slice.isolatedInPart = false) :
    ∃ migrated, slice.migrated = some migrated ∧ slice.migratedPart = .ok migrated ∧
      slice.shownMigrated = migrated.ids := by
  obtain ⟨migrated, hmigrated⟩ := Option.isSome_iff_exists.mp (h.migrated hisolated)
  refine ⟨migrated, hmigrated, by rw [migratedPart, hmigrated], ?_⟩
  rw [shownMigrated, hisolated, hmigrated]
  rfl

theorem migratedSize_eq : slice.migratedSize = .ok (slice.shownMigrated.length : ℤ) := by
  rw [migratedSize]
  cases hisolated : slice.isolatedInPart with
  | true =>
    rw [shownMigrated, hisolated]
    rfl
  | false =>
    obtain ⟨migrated, -, hpart, hshown⟩ := h.migratedPart_eq hisolated
    rw [hpart, hshown]
    rfl

theorem size_eq : slice.size = .ok (slice.ids.length : ℤ) := by
  have hlength : slice.ids.length = slice.shownMigrated.length + slice.shownPart.length := by
    rw [ids, List.length_append, List.length_map, List.length_map]
  have hmigrated : (if slice.isolatedInPart then .ok 0 else slice.migratedSize) =
      (.ok (slice.shownMigrated.length : ℤ) : Except Fault ℤ) := by
    rw [h.migratedSize_eq]
    split_ifs with hisolated
    · rw [shownMigrated, if_pos hisolated]
      rfl
    · rfl
  rw [size, h.sorted]
  dsimp only
  rw [hmigrated, ok_bind, h.isolatedInMigrated_eq, ok_bind, hlength, shownPart]
  cases slice.onlyMigrated with
  | true => exact congrArg _ (by simp)
  | false => exact congrArg _ (by simp [AbstractSparseIds.size])

/-- **What is at an index is the id there.** -/
theorem get_eq {i : ℕ} (hi : i < slice.ids.length) : slice.get i = .ok slice.ids[i] := by
  have hexpects : (0 : ℤ) ≤ i ∧ (i : ℤ) < slice.ids.length := ⟨Int.natCast_nonneg i, by omega⟩
  rw [get, h.size_eq, ok_bind, expects_ok hexpects, ok_bind, h.sorted]
  dsimp only
  rw [h.migratedSize_eq, ok_bind]
  rcases ids_cases hi with ⟨hlt, hget⟩ | ⟨j, rfl, hj, hget⟩
  · obtain ⟨migrated, -, hpart, hshown⟩ := h.migratedPart_eq (isolated_of_shown hlt)
    have hlt' : i < migrated.ids.length := hshown ▸ hlt
    rw [hget, if_pos ⟨by omega, by omega⟩, hpart, ok_bind, AbstractSparseIds.get_of_lt hlt',
      ok_bind]
    simp only [hshown]
  · have hindex : ((slice.shownMigrated.length + j : ℕ) : ℤ) - slice.shownMigrated.length = j := by
      omega
    have hshown := shownPart_of_shown hj
    have hj' : j < slice.part.ids.length := hshown ▸ hj
    rw [hget, if_neg (by omega), hindex, AbstractSparseIds.get_of_lt hj', ok_bind]
    simp only [hshown]

/-- **The index of an id is where it is**, if the ids of the group are told from those of the chat.
-/
theorem indexOf_get
    (hpeers : slice.key.migratedPeerId = slice.key.peerId → slice.shownMigrated = []) {i : ℕ}
    (hi : i < slice.ids.length) : slice.indexOf slice.ids[i] = .ok (some (i : ℤ)) := by
  rw [indexOf, h.sorted]
  dsimp only
  rcases ids_cases hi with ⟨hlt, hget⟩ | ⟨j, rfl, hj, hget⟩
  · have hisolated := isolated_of_shown hlt
    obtain ⟨migrated, hmigrated, hpart, hshown⟩ := h.migratedPart_eq hisolated
    have hlt' : i < migrated.ids.length := hshown ▸ hlt
    have hpeer : slice.key.peerId ≠ slice.key.migratedPeerId := by
      intro heq
      rw [hpeers heq.symm] at hlt
      exact nomatch hlt
    have hindex : migrated.indexOf slice.shownMigrated[i] = some (i : ℤ) := by
      simp only [hshown]
      exact SparseIdsSlice.indexOf_get hlt'
    rw [hget, isFromPart, isFromMigrated, hisolated, hmigrated, if_neg (by simpa using hpeer),
      if_neg Bool.false_ne_true, if_pos (by simp), hpart, ok_bind, hindex]
  · have hshown := shownPart_of_shown hj
    have hj' : j < slice.part.ids.length := hshown ▸ hj
    have hindex : slice.part.indexOf slice.shownPart[j] = some (j : ℤ) := by
      simp only [hshown]
      exact SparseIdsSlice.indexOf_get hj'
    rw [hget, isFromPart, if_pos (by simp), h.migratedSize_eq, ok_bind, hindex, Option.map_some]
    exact congrArg _ (congrArg some (by omega))

/-- The index of any id, or none: nothing absent is asked for. -/
theorem indexOf_cases (fullId : FullMsgId) :
    slice.indexOf fullId = .ok none ∨
      (∃ j : ℕ, slice.indexOf fullId = .ok (some (slice.shownMigrated.length + j : ℕ)) ∧
        ∃ hj : j < slice.part.ids.length, fullId = ⟨slice.key.peerId, slice.part.ids[j]⟩) ∨
      ∃ i : ℕ, slice.indexOf fullId = .ok (some (i : ℤ)) ∧
        ∃ hi : i < slice.shownMigrated.length,
          fullId = ⟨slice.key.migratedPeerId, slice.shownMigrated[i]⟩ := by
  obtain ⟨peer, msg⟩ := fullId
  rw [indexOf, h.sorted]
  dsimp only
  split_ifs with hpart hisolated hgroup
  · obtain rfl : slice.key.peerId = peer := of_decide_eq_true hpart
    rw [h.migratedSize_eq, ok_bind]
    cases hindex : slice.part.indexOf msg with
    | none => exact .inl rfl
    | some index =>
      obtain ⟨j, rfl, hj, rfl⟩ := AbstractSparseIds.get_indexOf hindex
      refine .inr (.inl ⟨j, ?_, hj, rfl⟩)
      rw [Option.map_some, Int.natCast_add, add_comm]
  · exact .inl rfl
  · rw [Bool.not_eq_true] at hisolated
    obtain ⟨migrated, hmigrated, hmigratedPart, hshown⟩ := h.migratedPart_eq hisolated
    obtain ⟨-, rfl⟩ : _ ∧ slice.key.migratedPeerId = peer := of_decide_eq_true hgroup
    rw [hmigratedPart, ok_bind]
    cases hindex : migrated.indexOf msg with
    | none => exact .inl rfl
    | some index =>
      obtain ⟨i, rfl, hi, rfl⟩ := AbstractSparseIds.get_indexOf hindex
      refine .inr (.inr ⟨i, rfl, hshown ▸ hi, ?_⟩)
      simp only [hshown]
  · exact .inl rfl

/-- **An index there is belongs to the id it is of.** -/
theorem get_indexOf {fullId : FullMsgId} {index : ℤ}
    (hindex : slice.indexOf fullId = .ok (some index)) (hlt : index < slice.ids.length) :
    slice.get index = .ok fullId := by
  rcases h.indexOf_cases fullId with hnone | ⟨j, hpart, hj, rfl⟩ | ⟨i, hgroup, hi, rfl⟩
  · rw [hnone] at hindex
    exact nomatch hindex
  · obtain rfl := Option.some.inj (Except.ok.inj (hindex.symm.trans hpart))
    have hlt : slice.shownMigrated.length + j < slice.ids.length := by omega
    rw [h.get_eq hlt]
    rcases ids_cases hlt with ⟨hgroup, -⟩ | ⟨j', hj', hshown, hget⟩
    · omega
    · obtain rfl : j = j' := by omega
      rw [hget]
      simp only [shownPart_of_shown hshown]
  · obtain rfl := Option.some.inj (Except.ok.inj (hindex.symm.trans hgroup))
    have hlt : i < slice.ids.length := by omega
    rw [h.get_eq hlt]
    rcases ids_cases hlt with ⟨_, hget⟩ | ⟨j, rfl, -⟩
    · rw [hget]
    · omega

/-- The index of any id is found, or none. -/
theorem indexOf_ok (fullId : FullMsgId) : ∃ index, slice.indexOf fullId = .ok index := by
  rcases h.indexOf_cases fullId with hindex | ⟨_, hindex, -⟩ | ⟨_, hindex, -⟩
  · exact ⟨_, hindex⟩
  · exact ⟨_, hindex⟩
  · exact ⟨_, hindex⟩

theorem distance_ok (a b : MergedKey) : ∃ n, slice.distance a b = .ok n := by
  obtain ⟨i, hi⟩ := h.indexOf_ok (computeId a)
  obtain ⟨j, hj⟩ := h.indexOf_ok (computeId b)
  rw [distance, hi, ok_bind]
  cases i with
  | none => exact ⟨none, rfl⟩
  | some i =>
    dsimp only
    rw [hj, ok_bind]
    cases j with
    | none => exact ⟨none, rfl⟩
    | some j => exact ⟨some (j - i), rfl⟩

theorem nearest_ok (id : MsgId) : ∃ near, slice.nearest id = .ok near := by
  rw [nearest, h.sorted]
  dsimp only
  split_ifs with hserver hisolated
  · split
    · exact ⟨_, rfl⟩
    · exact ⟨_, rfl⟩
  · split
    · exact ⟨_, rfl⟩
    · obtain ⟨migrated, -, hpart, -⟩ := h.migratedPart_eq (by simpa using hisolated)
      rw [hpart]
      exact ⟨_, rfl⟩
  · split
    · exact ⟨_, rfl⟩
    · rw [h.isolatedInMigrated_eq, ok_bind]
      split_ifs
      · exact ⟨_, rfl⟩
      · exact ⟨_, rfl⟩

/-- The ids of the group come first, and each part is sorted. -/
theorem ordered : slice.ids.Pairwise fun a b =>
    a.peer = slice.key.migratedPeerId ∧ b.peer = slice.key.peerId ∨
      a.peer = b.peer ∧ a.msg < b.msg := by
  refine List.pairwise_append.mpr ⟨List.pairwise_map.mpr ?_, List.pairwise_map.mpr ?_, ?_⟩
  · cases hisolated : slice.isolatedInPart with
    | true =>
      rw [shownMigrated, if_pos hisolated]
      exact .nil
    | false =>
      obtain ⟨migrated, -, -, hshown⟩ := h.migratedPart_eq hisolated
      rw [hshown]
      exact migrated.sorted.imp fun hlt => .inr ⟨rfl, hlt⟩
  · rw [shownPart]
    split_ifs
    · exact .nil
    · exact slice.part.sorted.imp fun hlt => .inr ⟨rfl, hlt⟩
  · intro a ha b hb
    obtain ⟨_, -, rfl⟩ := List.mem_map.mp ha
    obtain ⟨_, -, rfl⟩ := List.mem_map.mp hb
    exact .inl ⟨rfl, rfl⟩

/-- **The counts add up where those of the parts do**: what is not shown of a part is skipped on its
side. -/
theorem sums (hpart : slice.part.SumsUp)
    (hmigrated : ∀ migrated, slice.migrated = some migrated → migrated.SumsUp) : slice.SumsUp := by
  obtain ⟨full, before, after, hfull, hbefore, hafter, hsum⟩ := hpart
  have hlength : slice.ids.length = slice.shownMigrated.length + slice.shownPart.length := by
    rw [ids, List.length_append, List.length_map, List.length_map]
  rw [AbstractSparseIds.size] at hsum
  cases hslice : slice.migrated with
  | none =>
    have hisolated : slice.isolatedInPart = true := by
      by_contra hisolated
      have hsome := h.migrated (by simpa using hisolated)
      rw [hslice] at hsome
      exact nomatch hsome
    have honly : slice.onlyMigrated = false := by
      rw [onlyMigrated, hslice, Option.any_none, Bool.and_false]
    refine ⟨full + 0, before + 0, _, after + 0, ?_, ?_, h.size_eq, ?_, ?_⟩
    · rw [fullCount, h.sorted, hfull, hslice]
      rfl
    · rw [skippedBefore, h.sorted, hslice, hbefore]
      dsimp only
      rw [h.isolatedInMigrated_eq, honly]
      rfl
    · rw [skippedAfter, h.sorted]
      dsimp only
      rw [h.isolatedInMigrated_eq, honly, hafter, hisolated]
      rfl
    · rw [hlength, shownMigrated, if_pos hisolated, shownPart, honly, if_neg Bool.false_ne_true]
      simp only [List.length_nil]
      omega
  | some migrated =>
    obtain ⟨full', before', after', hfull', hbefore', hafter', hsum'⟩ := hmigrated migrated hslice
    rw [AbstractSparseIds.size] at hsum'
    have hcount : slice.fullCount = some (full + full') := by
      rw [fullCount, h.sorted, hfull, hslice]
      dsimp only
      rw [hfull']
      rfl
    have hmigratedPart : slice.migratedPart = .ok migrated := by rw [migratedPart, hslice]
    cases hisolated : slice.isolatedInPart with
    | true =>
      have hserver : isServerMsgId slice.key.universalId = true := by
        rw [isolatedInPart, Bool.and_eq_true] at hisolated
        exact hisolated.1
      have honly : slice.onlyMigrated = false := by
        rw [onlyMigrated, not_both hserver, Bool.false_and]
      refine ⟨_, before + full', _, after + 0, hcount, ?_, h.size_eq, ?_, ?_⟩
      · rw [skippedBefore, h.sorted, hslice, hbefore, hisolated]
        dsimp only
        rw [h.isolatedInMigrated_eq, honly, hfull']
        rfl
      · rw [skippedAfter, h.sorted]
        dsimp only
        rw [h.isolatedInMigrated_eq, honly, hafter, hisolated]
        rfl
      · rw [hlength, shownMigrated, if_pos hisolated, shownPart, honly, if_neg Bool.false_ne_true]
        simp only [List.length_nil]
        omega
    | false =>
      have hshown : slice.shownMigrated = migrated.ids := by
        rw [shownMigrated, hisolated, hslice]
        rfl
      cases honly : slice.onlyMigrated with
      | true =>
        refine ⟨_, 0 + before', _, full + after', hcount, ?_, h.size_eq, ?_, ?_⟩
        · rw [skippedBefore, h.sorted, hslice, hisolated]
          dsimp only
          rw [h.isolatedInMigrated_eq, honly, hbefore']
          rfl
        · rw [skippedAfter, h.sorted]
          dsimp only
          rw [h.isolatedInMigrated_eq, honly, hfull, hisolated, hmigratedPart]
          dsimp only [ok_bind]
          rw [hafter']
          rfl
        · rw [hlength, hshown, shownPart, honly, if_pos rfl]
          simp only [List.length_nil]
          omega
      | false =>
        refine ⟨_, before + before', _, after + after', hcount, ?_, h.size_eq, ?_, ?_⟩
        · rw [skippedBefore, h.sorted, hslice, hisolated, hbefore]
          dsimp only
          rw [h.isolatedInMigrated_eq, honly, hbefore']
          rfl
        · rw [skippedAfter, h.sorted]
          dsimp only
          rw [h.isolatedInMigrated_eq, honly, hafter, hisolated, hmigratedPart]
          dsimp only [ok_bind]
          rw [hafter']
          rfl
        · rw [hlength, hshown, shownPart, honly, if_neg Bool.false_ne_true]
          omega

/-- **The indices are right where the peers differ.** -/
theorem addressed
    (hpeers : slice.key.migratedPeerId = slice.key.peerId → slice.shownMigrated = []) :
    slice.Addressed where
  size_eq := h.size_eq
  get_eq _ := h.get_eq
  indexOf_get _ := h.indexOf_get hpeers
  get_indexOf _ _ := h.get_indexOf
  ordered := h.ordered
  sums := h.sums
  indexOf_ok := h.indexOf_ok
  nearest_ok := h.nearest_ok
  distance_ok := h.distance_ok

end Present

/-- A slice around no id and without a group has no size. -/
theorem Addressed.present (h : (viewed key part migrated).Addressed) :
    key.universalId ≠ 0 ∨ key.migratedPeerId ≠ 0 := by
  by_contra hneither
  obtain ⟨hid, hpeer⟩ : key.universalId = 0 ∧ key.migratedPeerId = 0 := by simpa using hneither
  have hnone : (viewed key part migrated).migrated = none := viewed_migrated_none hpeer
  have hisolated : (viewed key part migrated).isolatedInPart = false := by
    rw [isolatedInPart]
    show (isServerMsgId key.universalId && _) = false
    rw [hid]
    rfl
  have hsize := h.size_eq
  rw [size] at hsize
  change ((if (viewed key part migrated).isolatedInPart then .ok 0
    else (viewed key part migrated).migratedSize : Except Fault ℤ) >>= _) = _ at hsize
  rw [hisolated, if_neg Bool.false_ne_true, migratedSize, hisolated, if_neg Bool.false_ne_true,
    migratedPart, hnone] at hsize
  exact nomatch hsize

/-- Ids of the group that have the peer of the chat are looked for in the chat. -/
theorem Addressed.not_same_peer (h : slice.Addressed) (hpresent : Present slice)
    (hpeers : slice.key.migratedPeerId = slice.key.peerId)
    (hshown : 0 < slice.shownMigrated.length) : False := by
  have hlength : slice.ids.length = slice.shownMigrated.length + slice.shownPart.length := by
    rw [ids, List.length_append, List.length_map, List.length_map]
  have hpos : 0 < slice.ids.length := by omega
  have hindex := h.indexOf_get 0 hpos
  rcases ids_cases hpos with ⟨_, hget⟩ | ⟨j, hj, -⟩
  · rw [hget, hpeers, indexOf, hpresent.sorted] at hindex
    dsimp only at hindex
    rw [isFromPart, if_pos (by simp), hpresent.migratedSize_eq, ok_bind] at hindex
    obtain ⟨i, hi, hzero⟩ := Option.map_eq_some_iff.mp (Except.ok.inj hindex)
    obtain ⟨i, rfl, -⟩ := AbstractSparseIds.get_indexOf hi
    omega
  · omega

/-- **When a merged slice is addressed right.**  For a key that `CreateViewer` admits, whatever its
two parts are: the indices and the ids are those of each other, in order, the counts add up and
nothing absent is asked for, exactly if the key has an id or a group, and the ids shown of a group
are those of another peer. -/
theorem merged_addressed {limitBefore limitAfter : ℤ}
    (hkey : key.Admitted limitBefore limitAfter) :
    (viewed key part migrated).Addressed ↔ (viewed key part migrated).Distinct := by
  constructor
  · intro h
    have hpresent := h.present
    refine ⟨hpresent, fun hpeers => ?_⟩
    by_contra hshown
    exact h.not_same_peer (present_viewed hkey hpresent) hpeers (List.length_pos_of_ne_nil hshown)
  · exact fun h => (present_viewed hkey h.1).addressed h.2

/-- Two ids of a group and two of the chat it became. -/
theorem merged_addressed_both :
    (viewed ⟨2, 0, 0, 1, 5⟩ ⟨⟨[5, 9], some 2, some 0, some 0⟩, by decide⟩
      ⟨⟨[3, 7], some 4, some 2, some 0⟩, by decide⟩).Addressed := by
  have hkey : MergedKey.Admitted ⟨2, 0, 0, 1, 5⟩ 10 10 :=
    ⟨.inl rfl, .inl rfl, .inl (by decide), .inl (by decide)⟩
  exact (merged_addressed hkey).mpr ⟨.inl (by decide), fun hpeers => absurd hpeers (by decide)⟩

/-- **A slice around no id asks for the group there is not.** -/
theorem absent_part_accessed :
    MergedKey.Admitted ⟨2, 0, 0, 0, 0⟩ 0 0 ∧
      (viewed ⟨2, 0, 0, 0, 0⟩ ⟨⟨[5, 9], some 2, some 0, some 0⟩, by decide⟩
        ⟨⟨[], none, none, none⟩, .nil⟩).indexOf ⟨2, 5⟩ = .error .outOfBounds :=
  ⟨⟨.inl rfl, .inl rfl, .inr (.inl rfl), .inr ⟨rfl, rfl⟩⟩, by decide⟩

end SparseIdsMergedSlice

end Yunogram.Data
