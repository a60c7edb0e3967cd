import Mathlib
import Yunogram.Machinery.FlatMap
import Yunogram.Machinery.Run

/-!
# Dialogs/PinnedList — the pinned entries of a chat list, and the index each of them keeps

A pinned list is a vector of keys that is kept below a limit.  Each entry caches its place in the
pinned list of a filter, counted from one, and every change of the vector caches anew the places
that it moves.

The result is `sound_in_every_state`: the keys are distinct, no more than the limit, and cached
where they are, in all states of exactly those runs in which no list of histories of a filter
repeats one or is longer than the limit.
-/

open Machinery

namespace Yunogram.Dialogs.Pinned

/-- `FilterId`; the one of a list that is not of a filter is zero. -/
abbrev FilterId := ℕ

/-- `PeerId`; zero is no peer. -/
abbrev PeerId := ℕ

/-- `Key`. -/
inductive Key
  | history (peer : PeerId)
  | folder (id : ℤ)
  | topic (rootId : ℤ)
  | sublist (peer : PeerId)
  deriving DecidableEq

/-- `Key::history`. -/
def Key.asHistory : Key → Option PeerId
  | .history peer => some peer
  | _ => none

/-- `MTPDialogPeer`. -/
inductive DialogPeer
  | peer (peer : PeerId)
  | folder (id : ℤ)
  | community (id : ℕ)

/-! ## Entries -/

/-- `Entry`, as far as pinned lists look at it. -/
structure Entry where
  pinnedIndex : FlatMap FilterId ℕ
  folderKnown : Bool

/-- `Entry::lookupPinnedIndex`. -/
def Entry.lookupPinnedIndex (entry : Entry) (filterId : FilterId) : ℕ :=
  if filterId ≠ 0 then (entry.pinnedIndex.find? filterId).getD 0
  else match entry.pinnedIndex.entries with
    | (id, index) :: _ => if id ≠ 0 then 0 else index
    | [] => 0

/-- `Entry::cachePinnedIndex`. -/
def Entry.cachePinnedIndex (entry : Entry) (filterId : FilterId) (index : ℕ) : Entry :=
  let was := (entry.pinnedIndex.find? filterId).getD 0
  if index = was then entry
  else if index = 0 then { entry with pinnedIndex := entry.pinnedIndex.erase filterId }
  else if was = 0 then { entry with pinnedIndex := entry.pinnedIndex.emplace filterId index }
  else { entry with pinnedIndex := entry.pinnedIndex.assign filterId index }

/-! ## The list -/

/-- `PinnedList`, and the entries that there are. -/
structure PinnedList where
  filterId : FilterId
  limit : ℕ
  data : List Key
  entries : Key → Entry

namespace PinnedList

/-- `key.entry()->cachePinnedIndex(_filterId, index)`. -/
def cache (p : PinnedList) (key : Key) (index : ℕ) : PinnedList :=
  { p with
    entries := Function.update p.entries key ((p.entries key).cachePinnedIndex p.filterId index) }

/-- A loop that caches the places of keys that stand one after another, from a place on. -/
def cacheFrom (p : PinnedList) (position : ℕ) : List Key → PinnedList
  | [] => p
  | key :: keys => (p.cache key (position + 1)).cacheFrom (position + 1) keys

/-- `PinnedList::setPinned`, unpinning. -/
def unpin (p : PinnedList) (key : Key) : PinnedList :=
  if key ∈ p.data then
    let index := p.data.idxOf key
    let p := { p with data := p.data.eraseIdx index }.cache key 0
    p.cacheFrom index (p.data.drop index)
  else p

/-- The loop of `PinnedList::applyLimit`, which runs at most `fuel` times. -/
def applyLimitLoop (p : PinnedList) (limit : ℕ) : ℕ → PinnedList
  | 0 => p
  | fuel + 1 =>
    if p.data.length > limit then
      match p.data.getLast? with
      | some key => (p.unpin key).applyLimitLoop limit fuel
      | none => p
    else p

/-- `PinnedList::applyLimit`; each turn takes a key away. -/
def applyLimit (p : PinnedList) (limit : ℕ) : PinnedList := p.applyLimitLoop limit p.data.length

/-- `PinnedList::addPinnedGetPosition`. -/
def addPinnedGetPosition (p : PinnedList) (key : Key) : PinnedList × ℕ :=
  if key ∈ p.data then (p, p.data.idxOf key)
  else
    let p := p.applyLimit (p.limit - 1)
    let position := p.data.length
    ({ p with data := p.data ++ [key] }.cache key (position + 1), position)

/-- `PinnedList::setPinned`, pinning. -/
def pin (p : PinnedList) (key : Key) : PinnedList :=
  let (p, position) := p.addPinnedGetPosition key
  if position ≠ 0 then
    -- the key at the position is rotated to the front
    let data := (p.data.drop position).take 1 ++ p.data.take position
      ++ p.data.drop (position + 1)
    { p with data := data }.cacheFrom 0 (data.take (position + 1))
  else p

/-- `PinnedList::setPinned`. -/
def setPinned (p : PinnedList) (key : Key) (pinned : Bool) : Option PinnedList :=
  if (p.entries key).folderKnown || p.filterId ≠ 0 then
    some (if pinned then p.pin key else p.unpin key)
  else none

/-- `PinnedList::addPinned`. -/
def addPinned (p : PinnedList) (key : Key) : Option PinnedList :=
  if (p.entries key).folderKnown then some (p.addPinnedGetPosition key).1 else none

/-- `PinnedList::setLimit`. -/
def setLimit (p : PinnedList) (limit : ℕ) : Option PinnedList :=
  if 0 < limit then
    if p.limit = limit then some p else some ({ p with limit := limit }.applyLimit limit)
  else none

/-- `PinnedList::clear`. -/
def clear (p : PinnedList) : PinnedList := p.applyLimit 0

/-- `addPinned` for each of a list. -/
def addAll (p : PinnedList) : List Key → Option PinnedList
  | [] => some p
  | key :: keys => (p.addPinned key).bind fun p => p.addAll keys

/-- Whether the folder of an entry is known; `History::clearFolder` makes it so. -/
def setFolderKnown (p : PinnedList) (key : Key) (folderKnown : Bool) : PinnedList :=
  { p with entries := Function.update p.entries key { p.entries key with folderKnown } }

/-- What `PinnedList::applyList` of a session does with one peer. -/
def applyPeer (p : PinnedList) (channelLoaded : ℕ → Option PeerId) :
    DialogPeer → Option PinnedList
  | .peer peer => if peer ≠ 0 then p.addPinned (.history peer) else some p
  | .folder id => p.addPinned (.folder id)
  | .community id =>
    match channelLoaded id with
    | none => some p
    | some peer =>
      let key := Key.history peer
      (if !(p.entries key).folderKnown then p.setFolderKnown key true else p).addPinned key

/-- …and with those of a list. -/
def applyPeers (p : PinnedList) (channelLoaded : ℕ → Option PeerId) :
    List DialogPeer → Option PinnedList
  | [] => some p
  | peer :: list => (p.applyPeer channelLoaded peer).bind fun p => p.applyPeers channelLoaded list

/-- `PinnedList::applyList` of a session. -/
def applyDialogs (p : PinnedList) (channelLoaded : ℕ → Option PeerId) (list : List DialogPeer) :
    Option PinnedList :=
  p.clear.applyPeers channelLoaded list

/-- The sublist that `PinnedList::applyList` of saved messages pins for a peer. -/
def DialogPeer.sublist? : DialogPeer → Option Key
  | .peer peer => if peer ≠ 0 then some (.sublist peer) else none
  | _ => none

/-- `PinnedList::applyList` of saved messages. -/
def applySublists (p : PinnedList) (list : List DialogPeer) : Option PinnedList :=
  p.clear.addAll (list.filterMap DialogPeer.sublist?)

/-- `PinnedList::applyList` of a forum, all topics of the list being there. -/
def applyTopics (p : PinnedList) (list : List ℤ) : Option PinnedList :=
  p.clear.addAll (list.map .topic)

/-- What `PinnedList::applyList` of histories does with the keys that were there. -/
def uncacheOld (p : PinnedList) : List Key → PinnedList
  | [] => p
  | key :: old =>
    let listed := match key.asHistory with
      | some history => p.data.any fun key => key.asHistory = some history
      | none => false
    (if !listed then p.cache key 0 else p).uncacheOld old

/-- `PinnedList::applyList` of histories. -/
def applyHistories (p : PinnedList) (list : List PeerId) : Option PinnedList :=
  if p.filterId ≠ 0 then
    let old := p.data
    let data := list.map .history
    some (({ p with data := data }.cacheFrom 0 data).uncacheOld old)
  else none

/-- `PinnedList::reorder`. -/
def reorder (p : PinnedList) (key1 key2 : Key) : Option PinnedList :=
  let index1 := p.data.idxOf key1
  let index2 := p.data.idxOf key2
  if key1 ∈ p.data ∧ key2 ∈ p.data ∧ index1 ≠ index2 then
    let p := { p with data := (p.data.set index1 key2).set index2 key1 }
    some ((p.cache key1 (index2 + 1)).cache key2 (index1 + 1))
  else none

end PinnedList

/-! ## What entries cache -/

section

variable {entry : Entry} {filterId : FilterId} {index : ℕ}

theorem Entry.lookupPinnedIndex_eq (entry : Entry) (filterId : FilterId) :
    entry.lookupPinnedIndex filterId = (entry.pinnedIndex.find? filterId).getD 0 := by
  rw [lookupPinnedIndex]
  split_ifs with hfilter
  · rfl
  · obtain rfl := not_not.mp hfilter
    -- the keys are sorted, so zero is the first one if it is there
    cases hentries : entry.pinnedIndex.entries with
    | nil => rw [FlatMap.find?, hentries]; rfl
    | cons e entries =>
      obtain ⟨id, index⟩ := e
      have hsorted := entry.pinnedIndex.sorted
      rw [hentries, List.pairwise_cons] at hsorted
      dsimp only
      split_ifs with hid
      · have hnone : entry.pinnedIndex.find? 0 = none := by
          rw [FlatMap.find?_eq_none, FlatMap.keys, hentries]
          intro hmem
          rcases List.mem_map.mp hmem with ⟨e, he, hzero⟩
          rcases List.mem_cons.mp he with rfl | he
          · exact hid hzero
          · exact absurd (hzero ▸ hsorted.1 e he) (Nat.not_lt_zero _)
        rw [hnone]
        rfl
      · obtain rfl := not_not.mp hid
        have hsome : entry.pinnedIndex.find? 0 = some index := by
          rw [FlatMap.find?_eq_some, hentries]
          exact List.mem_cons_self
        rw [hsome]
        rfl

/-- **An entry stores what it caches**, but for a zero. -/
theorem Entry.find?_cachePinnedIndex
    (hzero : entry.pinnedIndex.find? filterId ≠ some 0) :
    (entry.cachePinnedIndex filterId index).pinnedIndex.find? filterId =
      if index = 0 then none else some index := by
  rw [cachePinnedIndex]
  cases hwas : entry.pinnedIndex.find? filterId with
  | none =>
    rw [Option.getD_none]
    split_ifs with h1 h2
    · exact hwas
    · show (entry.pinnedIndex.emplace filterId index).find? filterId = some index
      rw [FlatMap.find?_emplace, if_pos rfl, hwas]
      rfl
    · exact absurd rfl h2
  | some was =>
    have hne : was ≠ 0 := fun h => hzero (h ▸ hwas)
    rw [Option.getD_some]
    split_ifs with h1 h2 h3
    · exact absurd (h1.symm.trans h2) hne
    · rw [hwas, h1]
    · exact FlatMap.find?_erase_self _ _
    · show (entry.pinnedIndex.assign filterId index).find? filterId = some index
      rw [FlatMap.find?_assign, if_pos rfl]

end

namespace PinnedList

/-- The index that a key's entry has cached. -/
def stored (p : PinnedList) (key : Key) : Option ℕ := (p.entries key).pinnedIndex.find? p.filterId

/-- The place a key has in a vector, counted from one. -/
def place (data : List Key) (key : Key) : Option ℕ :=
  if key ∈ data then some (data.idxOf key + 1) else none

variable {p p' : PinnedList} {key key' : Key} {data a b keys : List Key} {limit position : ℕ}

theorem place_append (a b : List Key) (key : Key) :
    place (a ++ b) key = (place a key).or ((place b key).map (a.length + ·)) := by
  simp only [place, List.mem_append]
  by_cases ha : key ∈ a
  · rw [if_pos (.inl ha), if_pos ha, List.idxOf_append_of_mem ha]
    rfl
  · by_cases hb : key ∈ b
    · rw [if_pos (.inr hb), if_neg ha, if_pos hb, List.idxOf_append_of_notMem ha]
      rfl
    · rw [if_neg (not_or.mpr ⟨ha, hb⟩), if_neg ha, if_neg hb]
      rfl

theorem place_cons (key : Key) (keys : List Key) (key' : Key) :
    place (key :: keys) key' = if key' = key then some 1 else (place keys key').map (1 + ·) := by
  rw [← List.singleton_append, place_append]
  by_cases heq : key' = key
  · subst heq
    rw [if_pos rfl, place, if_pos (List.mem_singleton.mpr rfl), List.idxOf_cons_self]
    rfl
  · rw [if_neg heq, place, if_neg (fun h => heq (List.mem_singleton.mp h))]
    rfl

theorem place_eq_none (hnot : key ∉ data) : place data key = none := if_neg hnot

/-- No entry stores a zero. -/
def Clean (p : PinnedList) : Prop := ∀ key, p.stored key ≠ some 0

/-- **One entry caches an index.** -/
theorem stored_cache (hc : Clean p) (key : Key) (index : ℕ) (key' : Key) :
    (p.cache key index).stored key' =
      if key' = key then (if index = 0 then none else some index) else p.stored key' := by
  rw [stored, cache]
  dsimp only
  rw [Function.update_apply]
  by_cases heq : key' = key
  · rw [if_pos heq, if_pos heq]
    exact Entry.find?_cachePinnedIndex (hc key)
  · rw [if_neg heq, if_neg heq]
    rfl

theorem Clean.cache (hc : Clean p) (key : Key) (index : ℕ) : Clean (p.cache key index) := by
  intro key'
  rw [stored_cache hc]
  split_ifs with h1 h2
  · exact nofun
  · exact fun h => h2 (Option.some.inj h)
  · exact hc key'

/-- **The entries of keys that stand one after another cache their places.** -/
theorem stored_cacheFrom (hc : Clean p) (hnodup : keys.Nodup) (position : ℕ) (key : Key) :
    (p.cacheFrom position keys).stored key =
      ((place keys key).map (position + ·)).or (p.stored key) := by
  induction keys generalizing p position with
  | nil => rfl
  | cons key' keys ih =>
    obtain ⟨hnot, hnodup⟩ := List.nodup_cons.mp hnodup
    rw [cacheFrom, ih (hc.cache _ _) hnodup, stored_cache hc, place_cons]
    by_cases heq : key = key'
    · subst heq
      rw [place_eq_none hnot, if_pos rfl, if_pos rfl]
      rfl
    · rw [if_neg heq, if_neg heq, Option.map_map]
      congr 2
      funext i
      exact (Nat.add_assoc position 1 i)

theorem Clean.cacheFrom (hc : Clean p) (position : ℕ) (keys : List Key) :
    Clean (p.cacheFrom position keys) := by
  induction keys generalizing p position with
  | nil => exact hc
  | cons key keys ih => exact ih (hc.cache _ _) _

/-- Caching changes entries only. -/
theorem cacheFrom_eq (p : PinnedList) (position : ℕ) (keys : List Key) :
    p.cacheFrom position keys = { p with entries := (p.cacheFrom position keys).entries } := by
  induction keys generalizing p position with
  | nil => rfl
  | cons key keys ih => exact ih _ _

@[simp] theorem data_cacheFrom : (p.cacheFrom position keys).data = p.data := by
  rw [cacheFrom_eq]

@[simp] theorem limit_cacheFrom : (p.cacheFrom position keys).limit = p.limit := by
  rw [cacheFrom_eq]

@[simp] theorem filterId_cacheFrom : (p.cacheFrom position keys).filterId = p.filterId := by
  rw [cacheFrom_eq]

/-! ## The keys are where they are cached -/

/-- The keys are distinct, and cached where they are. -/
structure Placed (p : PinnedList) : Prop where
  nodup : p.data.Nodup
  stored : ∀ key, p.stored key = place p.data key

theorem Placed.clean (hp : Placed p) : Clean p := by
  intro key
  rw [hp.stored, place]
  split_ifs
  · exact fun h => Nat.succ_ne_zero _ (Option.some.inj h)
  · exact nofun

/-- Taking a key away from the middle of a vector. -/
theorem place_erase (hnodup : (a ++ key :: b).Nodup) (key' : Key) :
    place (a ++ b) key' = if key' = key then none else
      ((place b key').map (a.length + ·)).or (place (a ++ key :: b) key') := by
  obtain ⟨hnot, hab⟩ := List.nodup_cons.mp (List.nodup_middle.mp hnodup)
  by_cases heq : key' = key
  · subst heq
    rw [if_pos rfl, place_eq_none hnot]
  · rw [if_neg heq, place_append, place_append, place_cons, if_neg heq]
    by_cases hb : key' ∈ b
    · have ha : key' ∉ a := fun ha => (List.nodup_append.mp hab).2.2 key' ha key' hb rfl
      rw [place_eq_none ha, place, if_pos hb]
      rfl
    · rw [place_eq_none hb]
      rfl

/-- **A key is unpinned**, and those behind it move up. -/
theorem Placed.unpin (hp : Placed p) (hdata : p.data = a ++ key :: b) :
    Placed (p.unpin key) ∧ (p.unpin key).data = a ++ b := by
  have hnodup := hp.nodup
  rw [hdata] at hnodup
  obtain ⟨hnot, hab⟩ := List.nodup_cons.mp (List.nodup_middle.mp hnodup)
  have ha : key ∉ a := fun h => hnot (List.mem_append_left _ h)
  have hmem : key ∈ p.data := by rw [hdata]; exact List.mem_append_right _ List.mem_cons_self
  have hidx : p.data.idxOf key = a.length := by
    rw [hdata, List.idxOf_append_of_notMem ha, List.idxOf_cons_self, Nat.add_zero]
  have herase : p.data.eraseIdx a.length = a ++ b := by
    rw [hdata, List.eraseIdx_append_of_length_le le_rfl, Nat.sub_self]
    rfl
  have hcache : Clean ({ p with data := a ++ b } : PinnedList) := hp.clean
  have hunpin : p.unpin key = (cache { p with data := a ++ b } key 0).cacheFrom a.length b := by
    rw [PinnedList.unpin, if_pos hmem, hidx]
    dsimp only
    rw [herase]
    show (cache { p with data := a ++ b } key 0).cacheFrom a.length ((a ++ b).drop a.length) = _
    rw [List.drop_left]
  rw [hunpin, data_cacheFrom]
  refine ⟨⟨by rw [data_cacheFrom]; exact hab, fun key' => ?_⟩, rfl⟩
  rw [stored_cacheFrom (hcache.cache key 0) (List.nodup_append.mp hab).2.1, stored_cache hcache,
    data_cacheFrom]
  show _ = place (a ++ b) key'
  rw [place_erase hnodup]
  by_cases heq : key' = key
  · have hb : key ∉ b := fun h => hnot (List.mem_append_right _ h)
    subst heq
    rw [if_pos rfl, if_pos rfl, if_pos rfl, place_eq_none hb]
    rfl
  · rw [if_neg heq, if_neg heq, ← hdata, ← hp.stored key']
    rfl

/-- Caching and unpinning leave the limit and the filter alone. -/
theorem limit_unpin (p : PinnedList) (key : Key) :
    (p.unpin key).limit = p.limit ∧ (p.unpin key).filterId = p.filterId := by
  rw [PinnedList.unpin]
  split_ifs
  · exact ⟨limit_cacheFrom, filterId_cacheFrom⟩
  · exact ⟨rfl, rfl⟩

/-! ## Taking keys away from the back -/

theorem applyLimitLoop_spec (hp : Placed p) (limit : ℕ) {fuel : ℕ} (hfuel : p.data.length ≤ fuel) :
    Placed (p.applyLimitLoop limit fuel) ∧
      (p.applyLimitLoop limit fuel).data = p.data.take limit ∧
      (p.applyLimitLoop limit fuel).limit = p.limit ∧
      (p.applyLimitLoop limit fuel).filterId = p.filterId := by
  induction fuel generalizing p with
  | zero =>
    have hnil : p.data = [] := List.length_eq_zero_iff.mp (Nat.le_zero.mp hfuel)
    exact ⟨hp, by rw [applyLimitLoop, hnil, List.take_nil], rfl, rfl⟩
  | succ fuel ih =>
    rw [applyLimitLoop]
    split_ifs with hlong
    · rcases List.eq_nil_or_concat p.data with hnil | ⟨init, key, hdata⟩
      · rw [hnil] at hlong
        exact absurd hlong (Nat.not_lt_zero _)
      · rw [List.concat_eq_append] at hdata
        have hunpin := hp.unpin hdata
        rw [List.append_nil] at hunpin
        have hlast : p.data.getLast? = some key := by rw [hdata, List.getLast?_concat]
        have hlength : p.data.length = init.length + 1 := by rw [hdata, List.length_append]; rfl
        have hinit : (p.unpin key).data.length ≤ fuel := by
          rw [hunpin.2]
          exact Nat.le_of_succ_le_succ (hlength.symm.trans_le hfuel)
        obtain ⟨hplaced, htake, hlimit, hfilter⟩ := ih hunpin.1 hinit
        rw [hlast]
        refine ⟨hplaced, htake.trans ?_, hlimit.trans (limit_unpin p key).1,
          hfilter.trans (limit_unpin p key).2⟩
        have hle : limit ≤ init.length := Nat.le_of_lt_succ (hlong.trans_eq hlength)
        rw [hunpin.2, hdata, List.take_append_of_le_length hle]
    · exact ⟨hp, (List.take_of_length_le (not_lt.mp hlong)).symm, rfl, rfl⟩

/-- **What exceeds the limit is unpinned.** -/
theorem Placed.applyLimit (hp : Placed p) (limit : ℕ) :
    Placed (p.applyLimit limit) ∧ (p.applyLimit limit).data = p.data.take limit ∧
      (p.applyLimit limit).limit = p.limit ∧ (p.applyLimit limit).filterId = p.filterId :=
  applyLimitLoop_spec hp limit le_rfl

/-! ## Adding and moving keys -/

/-- **A key is added at the back**, unless it is pinned already. -/
theorem Placed.addPinnedGetPosition (hp : Placed p) (hlimit : 0 < p.limit)
    (hle : p.data.length ≤ p.limit) (key : Key) :
    Placed (p.addPinnedGetPosition key).1 ∧ (∃ a b,
      (p.addPinnedGetPosition key).1.data = a ++ key :: b ∧
        (p.addPinnedGetPosition key).2 = a.length) ∧
      (p.addPinnedGetPosition key).1.data.length ≤ p.limit ∧
      (p.addPinnedGetPosition key).1.limit = p.limit ∧
      (p.addPinnedGetPosition key).1.filterId = p.filterId := by
  rw [PinnedList.addPinnedGetPosition]
  split_ifs with hmem
  · obtain ⟨a, b, hdata, hnot⟩ := List.eq_append_cons_of_mem hmem
    refine ⟨hp, ⟨a, b, hdata, ?_⟩, hle, rfl, rfl⟩
    show p.data.idxOf key = a.length
    rw [hdata, List.idxOf_append_of_notMem hnot, List.idxOf_cons_self, Nat.add_zero]
  · obtain ⟨hplaced, htake, hlimit', hfilter⟩ := hp.applyLimit (p.limit - 1)
    set q := p.applyLimit (p.limit - 1)
    have hnot : key ∉ q.data := by
      rw [htake]
      exact fun h => hmem (List.mem_of_mem_take h)
    have hclean : Clean ({ q with data := q.data ++ [key] } : PinnedList) := hplaced.clean
    have hlength : q.data.length ≤ p.limit - 1 := by
      rw [htake, List.length_take]
      exact min_le_left _ _
    refine ⟨⟨?_, fun key' => ?_⟩, ⟨q.data, [], rfl, rfl⟩, ?_, hlimit', hfilter⟩
    · exact List.nodup_append.mpr ⟨hplaced.nodup, List.nodup_singleton key,
        fun k hk k' hk' heq => hnot (List.mem_singleton.mp hk' ▸ heq ▸ hk)⟩
    · show (cache { q with data := q.data ++ [key] } key (q.data.length + 1)).stored key' =
        place (q.data ++ [key]) key'
      rw [stored_cache hclean, place_append, place_cons, if_neg (Nat.succ_ne_zero _)]
      by_cases heq : key' = key
      · subst heq
        rw [if_pos rfl, if_pos rfl, place_eq_none hnot]
        rfl
      · rw [if_neg heq, if_neg heq]
        show q.stored key' = _
        rw [hplaced.stored]
        cases place q.data key' <;> rfl
    · show (q.data ++ [key]).length ≤ p.limit
      rw [List.length_append, List.length_singleton]
      omega

/-- **A key is moved to the front**, or added there. -/
theorem Placed.pin (hp : Placed p) (hlimit : 0 < p.limit) (hle : p.data.length ≤ p.limit)
    (key : Key) :
    Placed (p.pin key) ∧ (p.pin key).data.length ≤ p.limit ∧ (p.pin key).limit = p.limit ∧
      (p.pin key).filterId = p.filterId := by
  obtain ⟨hplaced, ⟨a, b, hdata, hposition⟩, hlength, hlimit', hfilter⟩ :=
    hp.addPinnedGetPosition hlimit hle key
  set q := (p.addPinnedGetPosition key).1
  have hpin : p.pin key = if a.length ≠ 0 then
      { q with data := key :: (a ++ b) }.cacheFrom 0 (key :: a) else q := by
    have hpair : p.addPinnedGetPosition key = (q, a.length) := Prod.ext rfl hposition
    rw [PinnedList.pin, hpair]
    dsimp only
    rw [hdata]
    have hrotated : ((a ++ key :: b).drop a.length).take 1 ++ (a ++ key :: b).take a.length ++
        (a ++ key :: b).drop (a.length + 1) = key :: (a ++ b) := by
      rw [List.drop_left, List.take_left, List.drop_append]
      simp
    rw [hrotated, List.take_succ_cons, List.take_left]
  rw [hpin]
  split_ifs with ha
  · have hnodup := hplaced.nodup
    rw [hdata] at hnodup
    have hfront := List.nodup_middle.mp hnodup
    obtain ⟨hnot, hab⟩ := List.nodup_cons.mp hfront
    have hka : (key :: a).Nodup :=
      hfront.sublist ((List.sublist_append_left a b).cons_cons key)
    have hclean : Clean ({ q with data := key :: (a ++ b) } : PinnedList) := hplaced.clean
    refine ⟨⟨by rw [data_cacheFrom]; exact hfront, fun key' => ?_⟩, ?_, ?_, ?_⟩
    · rw [stored_cacheFrom hclean hka, data_cacheFrom]
      show ((place (key :: a) key').map (0 + ·)).or (q.stored key') = place (key :: (a ++ b)) key'
      rw [hplaced.stored, hdata, place_append, place_cons, place_cons, place_cons, place_append]
      by_cases heq : key' = key
      · rw [if_pos heq, if_pos heq, if_pos heq]
        rfl
      · rw [if_neg heq, if_neg heq, if_neg heq]
        cases place a key' with
        | some i => simp
        | none =>
          cases place b key' with
          | none => rfl
          | some i =>
            show some (a.length + (1 + i)) = some (1 + (a.length + i))
            congr 1
            omega
    · rw [data_cacheFrom]
      rw [hdata] at hlength
      simpa [Nat.add_assoc] using hlength
    · rw [limit_cacheFrom]; exact hlimit'
    · rw [filterId_cacheFrom]; exact hfilter
  · exact ⟨hplaced, hlength, hlimit', hfilter⟩

/-! ## Lists of histories -/

theorem listed_iff {list : List PeerId} :
    (match key.asHistory with
      | some history => (list.map Key.history).any fun key => key.asHistory = some history
      | none => false) = true ↔ key ∈ list.map Key.history := by
  cases key with
  | history peer => simp [Key.asHistory]
  | folder id => simp [Key.asHistory]
  | topic rootId => simp [Key.asHistory]
  | sublist peer => simp [Key.asHistory]

/-- **The entries of keys that are not listed any more** cache that they are not. -/
theorem uncacheOld_spec (hc : Clean p) {list : List PeerId} (hdata : p.data = list.map .history)
    (old : List Key) :
    (p.uncacheOld old).data = p.data ∧ (p.uncacheOld old).limit = p.limit ∧
      (p.uncacheOld old).filterId = p.filterId ∧ ∀ key, (p.uncacheOld old).stored key =
        if key ∈ old ∧ key ∉ p.data then none else p.stored key := by
  induction old generalizing p with
  | nil => exact ⟨rfl, rfl, rfl, fun key => by rw [if_neg (fun h => List.not_mem_nil h.1)]; rfl⟩
  | cons key' old ih =>
    rw [uncacheOld, hdata]
    by_cases hlisted : key' ∈ list.map Key.history
    · rw [if_neg (by rw [Bool.not_eq_true, Bool.not_eq_false']; exact listed_iff.mpr hlisted)]
      obtain ⟨h1, h2, h3, h4⟩ := ih hc hdata
      refine ⟨h1.trans hdata, h2, h3, fun key => (h4 key).trans ?_⟩
      rw [hdata]
      by_cases heq : key = key'
      · rw [heq, if_neg fun h => h.2 hlisted, if_neg fun h => h.2 hlisted]
      · simp only [List.mem_cons, heq, false_or]
    · rw [if_pos (by
        rw [Bool.not_eq_true', ← Bool.not_eq_true]
        exact fun h => hlisted (listed_iff.mp h))]
      obtain ⟨h1, h2, h3, h4⟩ := ih (hc.cache key' 0) hdata
      refine ⟨h1.trans hdata, h2, h3, fun key => (h4 key).trans ?_⟩
      rw [stored_cache hc]
      show (if key ∈ old ∧ key ∉ p.data then none else _) = _
      rw [hdata]
      by_cases heq : key = key'
      · rw [heq, if_pos rfl, if_pos rfl, ite_self, if_pos ⟨List.mem_cons_self, hlisted⟩]
      · simp only [List.mem_cons, heq, false_or, if_false]

/-- What a list of histories leaves, whether it repeats one or not. -/
theorem applyHistories_some {list : List PeerId} (h : p.applyHistories list = some p') :
    p' = ({ p with data := list.map .history }.cacheFrom 0 (list.map .history)).uncacheOld
      p.data := by
  rw [PinnedList.applyHistories] at h
  split_ifs at h
  exact (Option.some.inj h).symm

/-- **A list without repetitions is applied.** -/
theorem Placed.applyHistories (hp : Placed p) {list : List PeerId} (hnodup : list.Nodup)
    (h : p.applyHistories list = some p') :
    Placed p' ∧ p'.data = list.map .history ∧ p'.limit = p.limit ∧ p'.filterId = p.filterId := by
  set q : PinnedList := { p with data := list.map .history } with hq
  have hclean : Clean q := hp.clean
  have hmap : (list.map Key.history).Nodup := hnodup.map fun _ _ h => Key.history.inj h
  have hdata : (q.cacheFrom 0 (list.map .history)).data = list.map .history := data_cacheFrom
  obtain ⟨hdata', hlimit, hfilter, hstored⟩ :=
    uncacheOld_spec (hclean.cacheFrom 0 (list.map .history)) hdata p.data
  obtain rfl := applyHistories_some h
  refine ⟨⟨by rw [hdata', hdata]; exact hmap, fun key => ?_⟩, hdata'.trans hdata,
    hlimit.trans limit_cacheFrom, hfilter.trans filterId_cacheFrom⟩
  rw [hstored, hdata', hdata, stored_cacheFrom hclean hmap]
  show (if key ∈ p.data ∧ key ∉ list.map Key.history then none
    else ((place (list.map Key.history) key).map (0 + ·)).or (p.stored key)) = _
  rw [hp.stored]
  by_cases hmem : key ∈ list.map Key.history
  · rw [if_neg fun h => h.2 hmem, place, if_pos hmem, Option.map_some, Nat.zero_add]
    rfl
  · rw [place_eq_none hmem]
    split_ifs with hold
    · rfl
    · exact place_eq_none fun h => hold ⟨h, hmem⟩

/-! ## Two keys change places -/

/-- **Being placed, read by positions.** -/
theorem placed_iff : Placed p ↔
    Clean p ∧ ∀ key i, p.stored key = some (i + 1) ↔ p.data[i]? = some key := by
  constructor
  · intro hp
    refine ⟨hp.clean, fun key i => ?_⟩
    rw [hp.stored, place]
    constructor
    · intro h
      split_ifs at h with hmem
      rw [← Nat.succ.inj (Option.some.inj h)]
      exact List.getElem?_idxOf hmem
    · intro h
      obtain ⟨hi, hkey⟩ := List.getElem?_eq_some_iff.mp h
      rw [if_pos (hkey ▸ List.getElem_mem hi), ← hkey, hp.nodup.idxOf_getElem]
  · rintro ⟨hclean, hstored⟩
    have hnodup : p.data.Nodup := by
      refine List.nodup_iff_getElem?_ne_getElem?.mpr fun i j hlt hj heq => ?_
      have hi := (hstored p.data[j] i).mpr (by rw [heq]; exact List.getElem?_eq_getElem hj)
      have hj := (hstored p.data[j] j).mpr (List.getElem?_eq_getElem hj)
      exact absurd (Nat.succ.inj (Option.some.inj (hi.symm.trans hj))) hlt.ne
    refine ⟨hnodup, fun key => ?_⟩
    by_cases hmem : key ∈ p.data
    · rw [place, if_pos hmem]
      exact (hstored key _).mpr (List.getElem?_idxOf hmem)
    · rw [place_eq_none hmem]
      cases hkey : p.stored key with
      | none => rfl
      | some index =>
        cases index with
        | zero => exact absurd hkey (hclean key)
        | succ i => exact absurd (List.mem_of_getElem? ((hstored key i).mp hkey)) hmem

theorem Placed.reorder (hp : Placed p) {key1 key2 : Key} (h : p.reorder key1 key2 = some p') :
    Placed p' ∧ p'.data.length = p.data.length ∧ p'.limit = p.limit ∧
      p'.filterId = p.filterId := by
  rw [PinnedList.reorder] at h
  split_ifs at h with hkeys
  obtain ⟨hmem1, hmem2, hne⟩ := hkeys
  obtain rfl := Option.some.inj h
  set i1 := p.data.idxOf key1
  set i2 := p.data.idxOf key2
  set q : PinnedList := { p with data := (p.data.set i1 key2).set i2 key1 }
  have hq : Clean q := hp.clean
  have hlt1 : i1 < p.data.length := List.idxOf_lt_length_iff.mpr hmem1
  have hlt2 : i2 < p.data.length := List.idxOf_lt_length_iff.mpr hmem2
  have hkey : key1 ≠ key2 := fun heq => hne (congrArg p.data.idxOf heq)
  have hold := (placed_iff.mp hp).2
  have hdata : ∀ i, ((p.data.set i1 key2).set i2 key1)[i]? =
      if i2 = i then some key1 else if i1 = i then some key2 else p.data[i]? := by
    intro i
    rw [List.getElem?_set, List.getElem?_set, List.length_set, if_pos hlt2, if_pos hlt1]
  have hfirst : ∀ key i, key ∈ p.data → p.data.idxOf key ≠ i → p.data[i]? ≠ some key := by
    intro key i hmem hne heq
    have hstored := (hold key i).mpr heq
    rw [hp.stored, place, if_pos hmem] at hstored
    exact hne (Nat.succ.inj (Option.some.inj hstored))
  refine ⟨placed_iff.mpr ⟨(hq.cache _ _).cache _ _, fun key i => ?_⟩, ?_, rfl, rfl⟩
  · rw [stored_cache (hq.cache _ _), stored_cache hq, if_neg (Nat.succ_ne_zero _),
      if_neg (Nat.succ_ne_zero _)]
    show _ ↔ ((p.data.set i1 key2).set i2 key1)[i]? = some key
    rw [hdata]
    by_cases h2 : key = key2
    · subst h2
      rw [if_pos rfl, Option.some_inj, Nat.succ_inj]
      split_ifs with hi2 hi1
      · exact ⟨fun h => absurd (h.trans hi2.symm) hne, fun h => absurd (Option.some.inj h) hkey⟩
      · exact ⟨fun _ => rfl, fun _ => hi1⟩
      · exact ⟨fun h => absurd h hi1, fun h => absurd h (hfirst _ _ hmem2 hi2)⟩
    · rw [if_neg h2]
      by_cases h1 : key = key1
      · subst h1
        rw [if_pos rfl, Option.some_inj, Nat.succ_inj]
        split_ifs with hi2 hi1
        · exact ⟨fun _ => rfl, fun _ => hi2⟩
        · exact ⟨fun h => absurd h hi2, fun h => absurd (Option.some.inj h).symm hkey⟩
        · exact ⟨fun h => absurd h hi2, fun h => absurd h (hfirst _ _ hmem1 hi1)⟩
      · rw [if_neg h1]
        show p.stored key = some (i + 1) ↔ _
        rw [hold]
        split_ifs with hi2 hi1
        · have hi : p.data[i]? = some key2 := hi2 ▸ List.getElem?_idxOf hmem2
          rw [hi]
          exact ⟨fun h => absurd (Option.some.inj h).symm h2,
            fun h => absurd (Option.some.inj h).symm h1⟩
        · have hi : p.data[i]? = some key1 := hi1 ▸ List.getElem?_idxOf hmem1
          rw [hi]
          exact ⟨fun h => absurd (Option.some.inj h).symm h1,
            fun h => absurd (Option.some.inj h).symm h2⟩
        · exact Iff.rfl
  · show ((p.data.set _ key2).set _ key1).length = _
    rw [List.length_set, List.length_set]

/-! ## Whatever is done with the list -/

/-- **The keys are distinct, no more than the limit, and cached where they are.** -/
structure Sound (p : PinnedList) : Prop where
  nodup : p.data.Nodup
  length : p.data.length ≤ p.limit
  index : ∀ key, (p.entries key).lookupPinnedIndex p.filterId =
    if key ∈ p.data then p.data.idxOf key + 1 else 0

/-- What is done with a pinned list, and how the folder of an entry becomes known. -/
inductive Op
  | addPinned (key : Key)
  | setPinned (key : Key) (pinned : Bool)
  | setLimit (limit : ℕ)
  | clear
  | applyDialogs (channelLoaded : ℕ → Option PeerId) (list : List DialogPeer)
  | applySublists (list : List DialogPeer)
  | applyTopics (list : List ℤ)
  | applyHistories (list : List PeerId)
  | reorder (key1 key2 : Key)
  | setFolderKnown (key : Key) (folderKnown : Bool)

/-- One of them; nothing where an assertion fails. -/
def step (p : PinnedList) : Op → Option PinnedList
  | .addPinned key => p.addPinned key
  | .setPinned key pinned => p.setPinned key pinned
  | .setLimit limit => p.setLimit limit
  | .clear => some p.clear
  | .applyDialogs channelLoaded list => p.applyDialogs channelLoaded list
  | .applySublists list => p.applySublists list
  | .applyTopics list => p.applyTopics list
  | .applyHistories list => p.applyHistories list
  | .reorder key1 key2 => p.reorder key1 key2
  | .setFolderKnown key folderKnown => some (p.setFolderKnown key folderKnown)

/-- What is kept: the keys are placed, and there is a limit, which they keep to. -/
structure Kept (p : PinnedList) : Prop extends Placed p where
  positive : 0 < p.limit
  length : p.data.length ≤ p.limit

theorem Kept.sound (hk : Kept p) : Sound p where
  nodup := hk.nodup
  length := hk.length
  index := by
    intro key
    have hstored := hk.stored key
    rw [stored, place] at hstored
    rw [Entry.lookupPinnedIndex_eq, hstored]
    split_ifs
    · rfl
    · rfl

theorem Kept.applyLimit (hk : Kept p) (limit : ℕ) : Kept (p.applyLimit limit) := by
  obtain ⟨hplaced, hdata, hlimit, -⟩ := hk.toPlaced.applyLimit limit
  refine ⟨hplaced, hlimit.symm ▸ hk.positive, ?_⟩
  rw [hdata, hlimit, List.length_take]
  exact (min_le_right _ _).trans hk.length

theorem Kept.clear (hk : Kept p) : Kept p.clear := hk.applyLimit 0

theorem Kept.addPinned (hk : Kept p) (h : p.addPinned key = some p') : Kept p' := by
  rw [PinnedList.addPinned] at h
  split_ifs at h
  obtain rfl := Option.some.inj h
  obtain ⟨hplaced, -, hlength, hlimit, -⟩ :=
    hk.toPlaced.addPinnedGetPosition hk.positive hk.length key
  exact ⟨hplaced, hlimit.symm ▸ hk.positive, hlimit.symm ▸ hlength⟩

theorem Kept.addAll (hk : Kept p) (h : p.addAll keys = some p') : Kept p' := by
  induction keys generalizing p with
  | nil => exact Option.some.inj h ▸ hk
  | cons key keys ih =>
    obtain ⟨q, hq, h⟩ := Option.bind_eq_some_iff.mp h
    exact ih (hk.addPinned hq) h

theorem Kept.setFolderKnown (hk : Kept p) (key : Key) (folderKnown : Bool) :
    Kept (p.setFolderKnown key folderKnown) := by
  refine ⟨⟨hk.nodup, fun key' => (?_ : _ = p.stored key').trans (hk.stored key')⟩, hk.positive,
    hk.length⟩
  rw [stored, PinnedList.setFolderKnown]
  dsimp only
  rw [Function.update_apply]
  split_ifs with heq
  · rw [heq]; rfl
  · rfl

theorem Kept.applyPeers (hk : Kept p) {channelLoaded : ℕ → Option PeerId} {list : List DialogPeer}
    (h : p.applyPeers channelLoaded list = some p') : Kept p' := by
  induction list generalizing p with
  | nil => exact Option.some.inj h ▸ hk
  | cons peer list ih =>
    obtain ⟨q, hq, h⟩ := Option.bind_eq_some_iff.mp h
    refine ih ?_ h
    cases peer with
    | peer peer =>
      rw [applyPeer] at hq
      split_ifs at hq
      · exact hk.addPinned hq
      · exact Option.some.inj hq ▸ hk
    | folder id => exact hk.addPinned hq
    | community id =>
      rw [applyPeer] at hq
      cases hloaded : channelLoaded id with
      | none =>
        rw [hloaded] at hq
        exact Option.some.inj hq ▸ hk
      | some peer =>
        rw [hloaded] at hq
        dsimp only at hq
        split_ifs at hq
        · exact (hk.setFolderKnown _ true).addPinned hq
        · exact hk.addPinned hq

theorem Kept.setPinned (hk : Kept p) {pinned : Bool} (h : p.setPinned key pinned = some p') :
    Kept p' := by
  rw [PinnedList.setPinned] at h
  split_ifs at h with hfolder hpinned
  · obtain rfl := Option.some.inj h
    obtain ⟨hplaced, hlength, hlimit, -⟩ := hk.toPlaced.pin hk.positive hk.length key
    exact ⟨hplaced, hlimit.symm ▸ hk.positive, hlimit.symm ▸ hlength⟩
  · obtain rfl := Option.some.inj h
    by_cases hmem : key ∈ p.data
    · obtain ⟨a, b, hdata⟩ := List.append_of_mem hmem
      obtain ⟨hplaced, hdata'⟩ := hk.toPlaced.unpin hdata
      refine ⟨hplaced, (limit_unpin p key).1.symm ▸ hk.positive, ?_⟩
      have hlength := hk.length
      rw [hdata, List.length_append, List.length_cons] at hlength
      rw [hdata', (limit_unpin p key).1, List.length_append]
      omega
    · rw [PinnedList.unpin, if_neg hmem]
      exact hk

theorem Kept.setLimit (hk : Kept p) (h : p.setLimit limit = some p') : Kept p' := by
  rw [PinnedList.setLimit] at h
  split_ifs at h with hpositive
  · exact Option.some.inj h ▸ hk
  · obtain rfl := Option.some.inj h
    have hplaced : Placed ({ p with limit := limit } : PinnedList) := ⟨hk.nodup, hk.stored⟩
    obtain ⟨hplaced, hdata, hlimit, -⟩ := hplaced.applyLimit limit
    refine ⟨hplaced, hlimit.symm ▸ hpositive, ?_⟩
    rw [hdata, hlimit, List.length_take]
    exact min_le_left _ _

/-- A list of histories is applied as it is, so it has to be without repetitions and to keep the
limit by itself; the lists of dialogs are added one by one. -/
def Op.Fits (p : PinnedList) : Op → Prop
  | .applyHistories list => p.filterId ≠ 0 → list.Nodup ∧ list.length ≤ p.limit
  | _ => True

/-- **What fits keeps the list.** -/
theorem Kept.step (hk : Kept p) {op : Op} (hfits : op.Fits p) (h : p.step op = some p') :
    Kept p' := by
  cases op with
  | addPinned key => exact hk.addPinned h
  | setPinned key pinned => exact hk.setPinned h
  | setLimit limit => exact hk.setLimit h
  | clear => exact Option.some.inj h ▸ hk.clear
  | applyDialogs channelLoaded list => exact hk.clear.applyPeers h
  | applySublists list => exact hk.clear.addAll h
  | applyTopics list => exact hk.clear.addAll h
  | applyHistories list =>
    have hfilter : p.filterId ≠ 0 := by
      intro hzero
      rw [PinnedList.step, PinnedList.applyHistories, if_neg (not_not.mpr hzero)] at h
      exact nomatch h
    obtain ⟨hnodup, hlength⟩ := hfits hfilter
    obtain ⟨hplaced, hdata, hlimit, -⟩ := hk.toPlaced.applyHistories hnodup h
    exact ⟨hplaced, hlimit.symm ▸ hk.positive,
      by rw [hdata, hlimit, List.length_map]; exact hlength⟩
  | reorder key1 key2 =>
    obtain ⟨hplaced, hlength, hlimit, -⟩ := hk.toPlaced.reorder h
    exact ⟨hplaced, hlimit.symm ▸ hk.positive, by rw [hlength, hlimit]; exact hk.length⟩
  | setFolderKnown key folderKnown => exact Option.some.inj h ▸ hk.setFolderKnown key folderKnown

/-- **What does not fit leaves a list that is not sound.** -/
theorem Kept.not_sound (hk : Kept p) {op : Op} (hfits : ¬ op.Fits p) :
    ∃ p', p.step op = some p' ∧ ¬ Sound p' := by
  cases op with
  | applyHistories list =>
    rw [Op.Fits, Classical.not_imp] at hfits
    obtain ⟨hfilter, hfits⟩ := hfits
    refine ⟨_, if_pos hfilter, fun hsound => hfits ?_⟩
    set q : PinnedList := { p with data := list.map .history }
    have hclean : Clean q := hk.toPlaced.clean
    have hlist : (q.cacheFrom 0 (list.map .history)).data = list.map .history := data_cacheFrom
    obtain ⟨hdata, hlimit, -, -⟩ :=
      uncacheOld_spec (hclean.cacheFrom 0 (list.map .history)) hlist p.data
    have hnodup := hsound.nodup
    have hlength := hsound.length
    rw [hdata, data_cacheFrom] at hnodup hlength
    rw [hlimit, limit_cacheFrom, List.length_map] at hlength
    exact ⟨hnodup.of_map _, hlength⟩
  | _ => exact absurd trivial hfits

/-- **A list stays sound exactly as long as the lists of histories fit it**: from an empty list
with a limit on, the keys of every state are distinct, no more than the limit, and cached where
they are, if and only if no list of histories of a filter repeats one or exceeds the limit. -/
theorem sound_in_every_state (hempty : p.data = []) (hpositive : 0 < p.limit)
    (hindex : ∀ key, (p.entries key).pinnedIndex.find? p.filterId = none) (ops : List Op) :
    EveryState step Sound p ops ↔ EveryStep step (fun p op => op.Fits p) p ops := by
  refine everyState_iff (fun _ => Kept.sound) (fun _ _ _ hk => hk.step)
    (fun _ _ hk => hk.not_sound) ⟨⟨?_, fun key => (hindex key).trans ?_⟩, hpositive, ?_⟩ ops
  · rw [hempty]; exact List.nodup_nil
  · rw [hempty]; rfl
  · rw [hempty]; exact Nat.zero_le _

/-- The list of a filter, before anything is pinned. -/
def empty (filterId : FilterId) (limit : ℕ) : PinnedList where
  filterId := filterId
  limit := limit
  data := []
  entries := fun _ => ⟨FlatMap.empty, true⟩

/-- A key that is pinned anew moves to the front, and a list of two histories replaces it. -/
theorem sound_in_every_state_two : (empty 1 2).data = [] ∧ 0 < (empty 1 2).limit ∧
    (∀ key, ((empty 1 2).entries key).pinnedIndex.find? (empty 1 2).filterId = none) ∧
    (EveryState step Sound (empty 1 2)
        [.setPinned (.history 5) true, .setPinned (.history 6) true, .applyHistories [7, 5]] ↔
      EveryStep step (fun p op => op.Fits p) (empty 1 2)
        [.setPinned (.history 5) true, .setPinned (.history 6) true, .applyHistories [7, 5]]) :=
  ⟨rfl, Nat.two_pos, fun _ => rfl, sound_in_every_state rfl Nat.two_pos (fun _ => rfl) _⟩

/-- **A list of histories that names one twice is kept as it is.** -/
theorem repeated_history_stays : ¬ ∀ (filterId : FilterId) (limit : ℕ) (ops : List Op),
    0 < limit → EveryState step Sound (empty filterId limit) ops := by
  intro hall
  have hstates := hall 1 2 [.applyHistories [5, 5]] Nat.two_pos
  have hsound : Sound _ := hstates.2 _ rfl
  have hnodup : [Key.history 5, Key.history 5].Nodup := hsound.nodup
  exact absurd hnodup (by decide)

end PinnedList

end Yunogram.Dialogs.Pinned
