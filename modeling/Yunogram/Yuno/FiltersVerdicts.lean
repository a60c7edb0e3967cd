import Mathlib
import Yunogram.Yuno.FiltersCache

/-!
# Yuno/FiltersVerdicts — what was asked before does not matter, but in albums it does

Where verdicts are remembered they are those of the current patterns (`State.Sound`), whatever is in
the middle of a call.  A verdict of a message of an album goes to the whole album if it is positive,
though the text that was matched has the type and the buttons of one message: there a message that
its own text leaves alone is filtered once another one was asked for.

The result is `verdicts_independent`: in runs where what is spread over an album is the verdict of
each of its messages, a verdict depends on nothing but the message, its album and the patterns.
-/

open Machinery

namespace Yunogram.Yuno.Filters

variable {Regex : Type} {lib : Library Regex} {settings : Settings} {s s' : State Regex}
  {world : World} {id : ItemId} {group : List ItemId} {action : Action} {call : Pending Regex}
  {changed : List ItemId}

/-! ## Albums -/

/-- The messages of an album find the same one, and are of the same chat. -/
theorem World.find_eq_some (h : world.find id = some group) {member : ItemId}
    (hmem : member ∈ group) : world.find member = some group ∧ member.peer = id.peer := by
  unfold World.find at h
  cases hgroup : (world.item id).groupId with
  | none => rw [hgroup] at h; exact nomatch h
  | some key =>
    rw [hgroup] at h
    dsimp only at h
    split_ifs at h with hmany
    obtain rfl := Option.some.inj h
    have hregistered := world.registered key member hmem
    constructor
    · rw [World.find, hregistered]
      exact if_pos hmany
    · rw [← world.peer key member hregistered, ← world.peer key id hgroup]

/-! ## The current patterns -/

/-- The cache that a snapshot gives. -/
def State.currentCache (lib : Library Regex) (s : State Regex) : Cache Regex :=
  match s.cache with
  | some pointer => pointer.cache
  | none => buildCache lib s.database

/-- The verdict of the current patterns. -/
def State.own (lib : Library Regex) (settings : Settings) (s : State Regex) (id : ItemId) : Bool :=
  verdictOf lib settings (s.currentCache lib) s.world id

/-- A message whose verdict is that of patterns. -/
def State.Matched (settings : Settings) (s : State Regex) (id : ItemId) : Prop :=
  verdictBefore settings s.world id = none

/-- A verdict that does not depend on what was asked before. -/
def State.verdict (lib : Library Regex) (settings : Settings) (s : State Regex) (id : ItemId) :
    Bool :=
  (verdictBefore settings s.world id).getD (s.own lib settings id)

/-- Addresses of caches are not used twice. -/
structure State.Fresh (s : State Regex) : Prop where
  cache : ∀ pointer, s.cache = some pointer → pointer.address < s.nextAddress
  pending : ∀ call ∈ s.pending, call.matchedCache.address < s.nextAddress
  same : ∀ call ∈ s.pending, ∀ pointer, s.cache = some pointer →
    pointer.address = call.matchedCache.address → pointer = call.matchedCache

/-- **What is remembered is the verdict of the current patterns**, and so is what calls in the
middle have matched against them. -/
structure State.Sound (lib : Library Regex) (settings : Settings) (s : State Regex) : Prop where
  remembered : s.filteredMessages.Sound (s.own lib settings) (s.Matched settings)
  pending : ∀ call ∈ s.pending, s.cache = some call.matchedCache →
    call.res = s.own lib settings call.item ∧ call.group = s.world.find call.item
  empty : s.cache = none → s.filteredMessages = Memo.empty ∧ s.pending = []

theorem State.fresh_start (database : Database) (world : World) :
    (State.start database world : State Regex).Fresh where
  cache := fun _ h => nomatch h
  pending := fun _ h => absurd h List.not_mem_nil
  same := fun _ h => absurd h List.not_mem_nil

theorem State.sound_start (database : Database) (world : World) :
    (State.start database world).Sound lib settings where
  remembered := Memo.sound_empty
  pending := fun _ h => absurd h List.not_mem_nil
  empty := fun _ => ⟨rfl, rfl⟩

/-! ## What the steps keep -/

/-- A snapshot is the cache that there is, or one that is built. -/
theorem State.snapshot_cases (lib : Library Regex) (s : State Regex) :
    (∃ pointer, s.cache = some pointer ∧ s.snapshot lib = (pointer, s))
      ∨ s.cache = none ∧ s.snapshot lib = (⟨s.nextAddress, buildCache lib s.database⟩,
        { s with
          cache := some ⟨s.nextAddress, buildCache lib s.database⟩
          nextAddress := s.nextAddress + 1 }) := by
  unfold State.snapshot
  cases hcache : s.cache with
  | none => exact .inr ⟨rfl, rfl⟩
  | some pointer => exact .inl ⟨pointer, rfl, rfl⟩

theorem State.Fresh.congr (h : s.Fresh) (hcache : s'.cache = s.cache)
    (haddress : s'.nextAddress = s.nextAddress) (hpending : s'.pending ⊆ s.pending) :
    s'.Fresh where
  cache := by rw [hcache, haddress]; exact h.cache
  pending := fun call hmem => by rw [haddress]; exact h.pending call (hpending hmem)
  same := fun call hmem => by rw [hcache]; exact h.same call (hpending hmem)

/-- A cache at a new address is no one's. -/
theorem State.Fresh.renew (h : s.Fresh) (cache : Cache Regex) (remembered : Memo ItemId Bool) :
    State.Fresh { s with
      cache := some ⟨s.nextAddress, cache⟩
      nextAddress := s.nextAddress + 1
      filteredMessages := remembered } where
  cache := fun pointer hpointer => by
    obtain rfl := Option.some.inj hpointer
    exact Nat.lt_succ_self _
  pending := fun call hmem => Nat.lt_succ_of_lt (h.pending call hmem)
  same := fun call hmem pointer hpointer heq => by
    obtain rfl := Option.some.inj hpointer
    exact absurd (h.pending call hmem) (heq ▸ Nat.lt_irrefl _)

theorem State.Fresh.snapshot (h : s.Fresh) (lib : Library Regex) : (s.snapshot lib).2.Fresh := by
  rcases s.snapshot_cases lib with ⟨pointer, -, heq⟩ | ⟨-, heq⟩
  · rw [heq]
    exact h
  · rw [heq]
    exact h.renew _ _

/-- After a snapshot its pointer is the cache. -/
theorem State.cache_snapshot (lib : Library Regex) (s : State Regex) :
    (s.snapshot lib).2.cache = some (s.snapshot lib).1 := by
  rcases s.snapshot_cases lib with ⟨pointer, hcache, heq⟩ | ⟨-, heq⟩
  · rw [heq]
    exact hcache
  · rw [heq]

theorem State.putFiltered_eq (s : State Regex) (item : ItemId) (group : Option (List ItemId))
    (res : Bool) (matchedCache : CachePointer Regex) :
    ∃ remembered, s.putFiltered item group res matchedCache =
      { s with filteredMessages := remembered } := by
  unfold State.putFiltered
  dsimp only
  split_ifs with hother
  · exact ⟨s.filteredMessages, rfl⟩
  · split
    · exact ⟨_, rfl⟩
    · exact ⟨_, rfl⟩

/-- Invalidating forgets the album, or the message. -/
theorem State.invalidate_eq (s : State Regex) (item : ItemId) :
    s.invalidate item = { s with
      filteredMessages := s.filteredMessages.dropAll ((s.world.find item).getD [item]) } := by
  unfold State.invalidate
  cases s.world.find item with
  | none => rfl
  | some group => rfl

/-- A change forgets the albums, or the messages, of what has changed. -/
theorem State.change_eq (s : State Regex) (world : World) (changed : List ItemId) :
    s.change world changed = { s with
      world := world
      filteredMessages := s.filteredMessages.dropAll
        (changed.flatMap fun item => (world.find item).getD [item]) } := by
  unfold State.change
  induction changed generalizing s with
  | nil => rfl
  | cons item changed ih =>
    rw [List.foldl_cons, State.invalidate_eq, List.flatMap_cons, Memo.dropAll_append]
    exact ih { s with
      filteredMessages := s.filteredMessages.dropAll ((world.find item).getD [item]) }

/-- **Every step keeps addresses fresh.** -/
theorem State.Fresh.apply (h : s.Fresh) (lib : Library Regex) (settings : Settings)
    (action : Action) : (s.apply lib settings action).Fresh := by
  cases action with
  | matchItem item =>
    have hsnapshot := h.snapshot lib
    have hcache := s.cache_snapshot lib
    unfold State.apply State.matchItem
    dsimp only
    split
    · next res hres =>
      refine ⟨hsnapshot.cache, fun call hmem => ?_, fun call hmem pointer hpointer heq => ?_⟩
      · rcases List.mem_append.1 hmem with hold | hnew
        · exact hsnapshot.pending call hold
        · obtain rfl := List.mem_singleton.1 hnew
          exact hsnapshot.cache _ hcache
      · rcases List.mem_append.1 hmem with hold | hnew
        · exact hsnapshot.same call hold pointer hpointer heq
        · obtain rfl := List.mem_singleton.1 hnew
          exact Option.some.inj (hpointer.symm.trans hcache)
    · exact hsnapshot
  | putFiltered index =>
    unfold State.apply State.finish
    dsimp only
    split
    · exact h
    · next call hcall =>
      obtain ⟨remembered, heq⟩ := State.putFiltered_eq
        { s with pending := s.pending.eraseIdx index } call.item call.group call.res
        call.matchedCache
      rw [heq]
      exact h.congr rfl rfl (List.eraseIdx_subset ..)
  | rebuildCache => exact h.renew _ _
  | snapshot => exact h.snapshot lib
  | invalidate item =>
    rw [State.apply, State.invalidate_eq]
    exact h.congr rfl rfl (List.Subset.refl _)
  | edit database => exact h.congr rfl rfl (List.Subset.refl _)
  | change world changed =>
    rw [State.apply, State.change_eq]
    exact h.congr rfl rfl (List.Subset.refl _)

/-- **What a step has to meet.**  A positive verdict that goes to an album is that of each of its
messages, by the text with its own type and buttons; and messages that change are in the albums that
are found for them. -/
def State.Meets (lib : Library Regex) (settings : Settings) (s : State Regex) : Action → Prop
  | .putFiltered index => ∀ call ∈ s.pending[index]?, s.cache = some call.matchedCache →
      s.own lib settings call.item = true → ∀ group, s.world.find call.item = some group →
        ∀ member ∈ group, s.Matched settings member → s.own lib settings member = true
  | .change world _ => ∀ item group, world.find item = some group → item ∈ group
  | _ => True

/-- The texts that a verdict is made of. -/
theorem verdictOf_congr {cache : Cache Regex} (hitem : world.item id = s.world.item id)
    (hfind : world.find id = s.world.find id)
    (hmembers : ∀ group, world.find id = some group → ∀ member ∈ group,
      world.item member = s.world.item member) :
    verdictOf lib settings cache world id = verdictOf lib settings cache s.world id := by
  have htexts : extractTexts lib world id (world.find id) =
      extractTexts lib s.world id (s.world.find id) := by
    rw [← hfind]
    cases hgroup : world.find id with
    | none => rw [extractTexts, extractTexts, hitem]
    | some group =>
      unfold extractTexts
      refine List.foldl_ext _ _ _ fun text member hmem => ?_
      rw [hmembers group hgroup member hmem]
  unfold verdictOf extractAllText
  rw [htexts, hitem]

/-- A snapshot leaves messages and calls as they are. -/
theorem State.snapshot_kept (lib : Library Regex) (s : State Regex) :
    (s.snapshot lib).2.world = s.world ∧ (s.snapshot lib).2.pending = s.pending := by
  rcases s.snapshot_cases lib with ⟨pointer, -, heq⟩ | ⟨-, heq⟩
  · rw [heq]
    exact ⟨rfl, rfl⟩
  · rw [heq]
    exact ⟨rfl, rfl⟩

theorem State.currentCache_snapshot (lib : Library Regex) (s : State Regex) :
    (s.snapshot lib).1.cache = s.currentCache lib := by
  unfold State.currentCache
  rcases s.snapshot_cases lib with ⟨pointer, hcache, heq⟩ | ⟨hcache, heq⟩
  · rw [heq, hcache]
  · rw [heq, hcache]

/-- A snapshot changes no verdict. -/
theorem State.Sound.snapshot (h : s.Sound lib settings) :
    (s.snapshot lib).2.Sound lib settings := by
  rcases s.snapshot_cases lib with ⟨pointer, -, heq⟩ | ⟨hcache, heq⟩
  · rw [heq]
    exact h
  · rw [heq]
    obtain ⟨hmemo, hpending⟩ := h.empty hcache
    refine ⟨?_, ?_, fun hnone => nomatch hnone⟩
    · dsimp only
      rw [hmemo]
      exact Memo.sound_empty
    · dsimp only
      rw [hpending]
      exact fun call hmem => absurd hmem List.not_mem_nil

/-- **A call that matches finds the verdict of the current patterns.** -/
theorem State.Sound.matchItem (h : s.Sound lib settings) (item : ItemId) :
    (s.matchItem lib settings item).Sound lib settings := by
  have hsnapshot := h.snapshot
  have hcache := s.cache_snapshot lib
  have hcurrent : (s.snapshot lib).2.currentCache lib = (s.snapshot lib).1.cache := by
    rw [State.currentCache, hcache]
  have hworld := (s.snapshot_kept lib).1
  unfold State.matchItem
  dsimp only
  split
  · next res hres =>
    refine ⟨hsnapshot.remembered, fun call hmem hpointer => ?_, fun hnone => ?_⟩
    · rcases List.mem_append.1 hmem with hold | hnew
      · exact hsnapshot.pending call hold hpointer
      · obtain rfl := List.mem_singleton.1 hnew
        refine ⟨?_, by rw [hworld]⟩
        change res = verdictOf lib settings ((s.snapshot lib).2.currentCache lib)
          (s.snapshot lib).2.world item
        rw [hcurrent, verdictOf, hworld]
        rw [hworld] at hres
        rw [hres]
        rfl
    · exact nomatch hcache.symm.trans hnone
  · exact hsnapshot

/-- **A verdict against another cache is not remembered.** -/
theorem State.Fresh.finish_of_other (h : s.Fresh) {index : ℕ}
    (hcall : s.pending[index]? = some call) (hother : s.cache ≠ some call.matchedCache) :
    s.finish index = { s with pending := s.pending.eraseIdx index } := by
  unfold State.finish
  rw [hcall]
  dsimp only
  rw [State.putFiltered, if_pos]
  intro heq
  obtain ⟨pointer, hpointer, haddress⟩ := Option.map_eq_some_iff.1 heq
  exact hother (hpointer.trans (congrArg some
    (h.same call (List.mem_of_getElem? hcall) pointer hpointer haddress)))

/-- **A call that ends remembers the verdict**, of an album where it is that of its messages. -/
theorem State.Sound.finish (h : s.Sound lib settings) (hfresh : s.Fresh) {index : ℕ}
    (hmeets : s.Meets lib settings (.putFiltered index)) :
    (s.finish index).Sound lib settings := by
  cases hcall : s.pending[index]? with
  | none =>
    rw [State.finish, hcall]
    exact h
  | some call =>
    have hmem : call ∈ s.pending := List.mem_of_getElem? hcall
    have hsubset : s.pending.eraseIdx index ⊆ s.pending := List.eraseIdx_subset ..
    have herased : State.Sound lib settings { s with pending := s.pending.eraseIdx index } :=
      ⟨h.remembered, fun call hmem => h.pending call (hsubset hmem), fun hnone =>
        ⟨(h.empty hnone).1, List.eq_nil_of_subset_nil ((h.empty hnone).2 ▸ hsubset)⟩⟩
    by_cases hcurrent : s.cache = some call.matchedCache
    · obtain ⟨hres, hgroup⟩ := h.pending call hmem hcurrent
      have hnotNone : s.cache ≠ none := fun hnone => nomatch hcurrent.symm.trans hnone
      have hput : (s.filteredMessages.put call.item call.res).Sound (s.own lib settings)
          (s.Matched settings) := h.remembered.put fun _ => hres
      unfold State.finish
      rw [hcall]
      dsimp only
      rw [State.putFiltered, if_neg (fun hother => hother (by rw [hcurrent]; rfl))]
      dsimp only
      cases hsome : call.group with
      | none => exact ⟨hput, herased.pending, fun hnone => absurd hnone hnotNone⟩
      | some group =>
        cases htrue : call.res with
        | false =>
          rw [htrue] at hput
          exact ⟨hput, herased.pending, fun hnone => absurd hnone hnotNone⟩
        | true =>
          refine ⟨?_, herased.pending, fun hnone => absurd hnone hnotNone⟩
          have hfind : s.world.find call.item = some group := hgroup.symm.trans hsome
          have hkeys : group.map (fun groupItem => (⟨call.item.peer, groupItem.id⟩ : ItemId)) =
              group := by
            refine (List.map_congr_left fun member hmember => ?_).trans (List.map_id group)
            rw [← (World.find_eq_some hfind hmember).2]
            rfl
          have hown : s.own lib settings call.item = true := hres.symm.trans htrue
          dsimp only
          rw [hkeys]
          rw [htrue] at hput
          exact hput.putAll fun member hmember hmatched =>
            (hmeets call hcall hcurrent hown group hfind member hmember hmatched).symm
    · rw [hfresh.finish_of_other hcall hcurrent]
      exact herased

/-- **A change forgets what it changes**, of messages that are in the albums found for them. -/
theorem State.Sound.change (h : s.Sound lib settings)
    (hallowed : s.Allows settings (.change world changed))
    (hmeets : s.Meets lib settings (.change world changed)) :
    (s.change world changed).Sound lib settings := by
  obtain ⟨hpending, hchanged⟩ := hallowed
  rw [State.change_eq]
  have hforgotten : ∀ item ∈ changed, ∀ id, world.find item = world.find id →
      (world.find id = none → id = item) →
      id ∈ changed.flatMap fun item => (world.find item).getD [item] := by
    intro item hitem id hfind hsame
    refine List.mem_flatMap.2 ⟨item, hitem, ?_⟩
    rw [hfind]
    cases hgroup : world.find id with
    | none => exact List.mem_singleton.2 (hsame hgroup)
    | some group => exact hmeets id group hgroup
  refine ⟨h.remembered.change fun id v hv hmatched => ?_, ?_, fun hnone => ?_⟩
  · dsimp only at hv
    rw [Memo.dropAll_apply] at hv
    split_ifs at hv with hdropped
    have hitem : world.item id = s.world.item id := by
      by_contra hne
      exact hdropped (hforgotten id (hchanged id (.inl hne)) id rfl fun _ => rfl)
    have hfind : world.find id = s.world.find id := by
      by_contra hne
      exact hdropped (hforgotten id (hchanged id (.inr hne)) id rfl fun _ => rfl)
    have hmembers : ∀ group, world.find id = some group → ∀ member ∈ group,
        world.item member = s.world.item member := by
      intro group hgroup member hmember
      by_contra hne
      have hsame := (World.find_eq_some hgroup hmember).1.trans hgroup.symm
      exact hdropped (hforgotten member (hchanged member (.inl hne)) id hsame fun hnone =>
        nomatch hnone.symm.trans hgroup)
    refine ⟨hv, ?_, verdictOf_congr hitem hfind hmembers⟩
    rw [State.Matched, verdictBefore] at hmatched ⊢
    rwa [hitem] at hmatched
  · dsimp only
    rw [hpending]
    exact fun call hmem => absurd hmem List.not_mem_nil
  · obtain ⟨hmemo, -⟩ := h.empty hnone
    refine ⟨?_, hpending⟩
    funext id
    dsimp only
    rw [Memo.dropAll_apply, hmemo]
    split_ifs <;> rfl

/-- **Every step that meets the condition keeps verdicts sound.** -/
theorem State.Sound.apply (h : s.Sound lib settings) (hfresh : s.Fresh) {action : Action}
    (hallowed : s.Allows settings action) (hmeets : s.Meets lib settings action) :
    (s.apply lib settings action).Sound lib settings := by
  cases action with
  | matchItem item => exact h.matchItem item
  | putFiltered index => exact h.finish hfresh hmeets
  | rebuildCache =>
    refine ⟨Memo.sound_empty, fun call hmem hpointer => ?_, fun hnone => nomatch hnone⟩
    have haddress := congrArg (fun pointer => pointer.address) (Option.some.inj hpointer)
    exact absurd (hfresh.pending call hmem) (haddress ▸ Nat.lt_irrefl _)
  | snapshot => exact h.snapshot
  | invalidate item =>
    rw [State.apply, State.invalidate_eq]
    refine ⟨h.remembered.change fun id v hv hmatched => ?_, h.pending, fun hnone => ?_⟩
    · dsimp only at hv
      rw [Memo.dropAll_apply] at hv
      split_ifs at hv
      exact ⟨hv, hmatched, rfl⟩
    · obtain ⟨hmemo, hpending⟩ := h.empty hnone
      refine ⟨?_, hpending⟩
      funext id
      dsimp only
      rw [Memo.dropAll_apply, hmemo]
      split_ifs <;> rfl
  | edit database =>
    cases hcache : s.cache with
    | none =>
      obtain ⟨hmemo, hpending⟩ := h.empty hcache
      refine ⟨?_, ?_, fun _ => ⟨hmemo, hpending⟩⟩
      · rw [State.apply, hmemo]
        exact Memo.sound_empty
      · rw [State.apply, hpending]
        exact fun call hmem => absurd hmem List.not_mem_nil
    | some pointer =>
      have hown : (s.apply lib settings (.edit database)).own lib settings =
          s.own lib settings := by
        funext id
        simp only [State.own, State.currentCache, State.apply, hcache]
      refine ⟨?_, ?_, h.empty⟩
      · rw [hown]
        exact h.remembered
      · rw [hown]
        exact h.pending
  | change world changed => exact h.change hallowed hmeets

/-! ## A call by itself -/

/-- A text that is matched is not empty, for it has a type. -/
theorem isFiltered_extractAllText (lib : Library Regex) (cache : Cache Regex) (world : World)
    (item : ItemId) (group : Option (List ItemId)) (dialogId : ID) :
    ∃ res, isFiltered lib (extractAllText lib world item group) dialogId cache = some res := by
  have htext : (extractAllText lib world item group).isEmpty = false := by
    rw [List.isEmpty_eq_false_iff, extractAllText]
    exact List.append_ne_nil_of_right_ne_nil _ (List.cons_ne_nil _ _)
  unfold isFiltered
  rw [htext, if_neg Bool.false_ne_true]
  split_ifs
  · exact ⟨true, rfl⟩
  · exact ⟨_, rfl⟩

/-- **A call that is not interrupted** is its parts in a row: what it finds before, or else a match
and a verdict that is remembered. -/
theorem State.filtered_eq (lib : Library Regex) (settings : Settings) (s : State Regex)
    (item : ItemId) : (s.filtered lib settings item).2 = s
      ∨ s.Matched settings item ∧ (s.filtered lib settings item).2 =
        (s.matchItem lib settings item).finish s.pending.length := by
  unfold State.filtered
  cases hbefore : verdictBefore settings s.world item with
  | some verdict => exact .inl rfl
  | none =>
    dsimp only
    cases hcached : s.filteredMessages item with
    | some cached => exact .inl rfl
    | none =>
      obtain ⟨-, hpending⟩ := s.snapshot_kept lib
      obtain ⟨res, hres⟩ := isFiltered_extractAllText lib (s.snapshot lib).1.cache
        (s.snapshot lib).2.world item (s.world.find item) (settings.getDialogIdFromPeer item.peer)
      refine .inr ⟨hbefore, ?_⟩
      unfold State.matchItem State.finish
      dsimp only
      rw [hres]
      dsimp only
      rw [← hpending, List.getElem?_concat_length,
        List.eraseIdx_append_of_length_le (Nat.le_refl _), Nat.sub_self, List.eraseIdx_cons_zero,
        List.append_nil]

/-- **A sound state answers the verdict.** -/
theorem State.Sound.filtered (h : s.Sound lib settings) (item : ItemId) :
    (s.filtered lib settings item).1 = s.verdict lib settings item := by
  unfold State.filtered State.verdict
  cases hbefore : verdictBefore settings s.world item with
  | some verdict => rfl
  | none =>
    dsimp only
    cases hcached : s.filteredMessages item with
    | some cached => exact h.remembered item cached hbefore hcached
    | none =>
      obtain ⟨hworld, -⟩ := s.snapshot_kept lib
      obtain ⟨res, hres⟩ := isFiltered_extractAllText lib (s.snapshot lib).1.cache
        (s.snapshot lib).2.world item (s.world.find item) (settings.getDialogIdFromPeer item.peer)
      have hown : s.own lib settings item = res := by
        rw [hworld] at hres
        rw [State.own, verdictOf, ← s.currentCache_snapshot lib, hres]
        rfl
      dsimp only
      rw [hres]
      exact hown.symm

/-! ## Runs -/

/-- A step of a run. -/
def Step (lib : Library Regex) (settings : Settings) (s s' : State Regex) : Prop :=
  ∃ action, s.Allows settings action ∧ s.apply lib settings action = s'

/-- A step that meets the condition. -/
def StepMeets (lib : Library Regex) (settings : Settings) (s s' : State Regex) : Prop :=
  ∃ action, s.Allows settings action ∧ s.Meets lib settings action
    ∧ s.apply lib settings action = s'

/-- A step that does not edit the filters. -/
def StepKeepsFilters (lib : Library Regex) (settings : Settings) (s s' : State Regex) : Prop :=
  ∃ action, s.Allows settings action ∧ (∀ database, action ≠ .edit database)
    ∧ s.apply lib settings action = s'

open Relation (ReflTransGen)

variable {database : Database}

theorem fresh_of_run (h : ReflTransGen (Step lib settings) (.start database world) s) :
    s.Fresh := by
  induction h with
  | refl => exact State.fresh_start database world
  | tail _ hstep ih =>
    obtain ⟨action, -, rfl⟩ := hstep
    exact ih.apply lib settings action

theorem sound_of_run (h : ReflTransGen (StepMeets lib settings) (.start database world) s) :
    s.Sound lib settings ∧ s.Fresh := by
  induction h with
  | refl => exact ⟨State.sound_start database world, State.fresh_start database world⟩
  | tail _ hstep ih =>
    obtain ⟨action, hallowed, hmeets, rfl⟩ := hstep
    exact ⟨ih.1.apply ih.2 hallowed hmeets, ih.2.apply lib settings action⟩

/-- The patterns are those of the filters. -/
def State.Settled (lib : Library Regex) (s : State Regex) : Prop :=
  ∀ pointer, s.cache = some pointer → pointer.cache = buildCache lib s.database

theorem State.Settled.currentCache (h : s.Settled lib) :
    s.currentCache lib = buildCache lib s.database := by
  unfold State.currentCache
  cases hcache : s.cache with
  | none => rfl
  | some pointer => exact h pointer hcache

theorem State.Settled.congr (h : s.Settled lib) (hcache : s'.cache = s.cache)
    (hdatabase : s'.database = s.database) : s'.Settled lib := by
  intro pointer hpointer
  rw [hdatabase]
  exact h pointer (hcache ▸ hpointer)

theorem State.Settled.snapshot (h : s.Settled lib) : (s.snapshot lib).2.Settled lib := by
  rcases s.snapshot_cases lib with ⟨pointer, -, heq⟩ | ⟨-, heq⟩
  · rw [heq]
    exact h
  · rw [heq]
    intro pointer hpointer
    obtain rfl := Option.some.inj hpointer
    rfl

/-- What does not edit the filters keeps their patterns. -/
theorem State.Settled.step (h : s.Settled lib) (hstep : StepKeepsFilters lib settings s s') :
    s'.Settled lib ∧ s'.database = s.database := by
  obtain ⟨action, -, hkeeps, rfl⟩ := hstep
  have hsnapshot : (s.snapshot lib).2.database = s.database := by
    rcases s.snapshot_cases lib with ⟨pointer, -, heq⟩ | ⟨-, heq⟩ <;> rw [heq]
  cases action with
  | matchItem item =>
    unfold State.apply State.matchItem
    dsimp only
    split
    · exact ⟨h.snapshot.congr rfl rfl, hsnapshot⟩
    · exact ⟨h.snapshot, hsnapshot⟩
  | putFiltered index =>
    unfold State.apply State.finish
    dsimp only
    split
    · exact ⟨h, rfl⟩
    · next call hcall =>
      obtain ⟨remembered, heq⟩ := State.putFiltered_eq
        { s with pending := s.pending.eraseIdx index } call.item call.group call.res
        call.matchedCache
      rw [heq]
      exact ⟨h.congr rfl rfl, rfl⟩
  | rebuildCache =>
    refine ⟨fun pointer hpointer => ?_, rfl⟩
    obtain rfl := Option.some.inj hpointer
    rfl
  | snapshot => exact ⟨h.snapshot, hsnapshot⟩
  | invalidate item =>
    rw [State.apply, State.invalidate_eq]
    exact ⟨h.congr rfl rfl, rfl⟩
  | edit database => exact absurd rfl (hkeeps database)
  | change world changed =>
    rw [State.apply, State.change_eq]
    exact ⟨h.congr rfl rfl, rfl⟩

/-- After the filters were read, and while they are not edited, the patterns are theirs. -/
theorem settled_after_rebuild
    (h : ReflTransGen (StepKeepsFilters lib settings) (s.rebuildCache lib) s') :
    s'.Settled lib ∧ s'.database = s.database := by
  induction h with
  | refl =>
    refine ⟨fun pointer hpointer => ?_, rfl⟩
    obtain rfl := Option.some.inj hpointer
    rfl
  | tail _ hstep ih =>
    obtain ⟨hsettled, hdatabase⟩ := ih.1.step hstep
    exact ⟨hsettled, hdatabase.trans ih.2⟩

/-- **A verdict depends on the message, its album and the patterns only**, in every state of every
run whose steps meet the condition, for a call that is made there and for a call in the middle that
matches the current patterns.  In every run, a verdict against an older cache is not remembered; and
from the last `rebuildCache` on the patterns are those of the filters. -/
theorem verdicts_independent (lib : Library Regex) (settings : Settings) (database : Database)
    (world : World) :
    (∀ s, ReflTransGen (StepMeets lib settings) (.start database world) s →
      (∀ item, (s.filtered lib settings item).1 = s.verdict lib settings item)
        ∧ ∀ call ∈ s.pending, s.cache = some call.matchedCache →
          call.res = s.own lib settings call.item)
    ∧ (∀ s index call, ReflTransGen (Step lib settings) (.start database world) s →
      s.pending[index]? = some call → s.cache ≠ some call.matchedCache →
        (s.finish index).filteredMessages = s.filteredMessages)
    ∧ ∀ s s' : State Regex, ReflTransGen (StepKeepsFilters lib settings) (s.rebuildCache lib) s' →
      s'.currentCache lib = buildCache lib s.database := by
  refine ⟨fun s hrun => ?_, fun s index call hrun hcall hother => ?_, fun s s' hrun => ?_⟩
  · obtain ⟨hsound, -⟩ := sound_of_run hrun
    exact ⟨hsound.filtered, fun call hmem hcurrent => (hsound.pending call hmem hcurrent).1⟩
  · rw [(fresh_of_run hrun).finish_of_other hcall hother]
  · obtain ⟨hsettled, hdatabase⟩ := settled_after_rebuild hrun
    rw [hsettled.currentCache, hdatabase]

/-! ## An album of a photo and a video -/

/-- A library whose expressions match a text with a digit one in it. -/
def findsOne : Library Unit where
  regularExpression := fun _ _ => some ()
  hasMatch := fun _ text => text.contains 49
  fromUtf8 := fun data => data.map fun byte => byte.toUInt16
  isSpace := fun unit => unit = 32

/-- Filters are enabled, everywhere. -/
def everywhere : Settings where
  filtersEnabled := true
  filtersEnabledInChats := true
  showingFilteredMessages := fun _ => false
  isBroadcast := fun _ => false
  getDialogIdFromPeer := fun peer => peer

/-- One shared filter, for photos. -/
def photoFilter : Database where
  filters := [⟨[1], (ascii "<type>1<").map fun unit => unit.toUInt8, true, false, false, none⟩]
  exclusions := []

/-- An album of a photo, the first message, and of a video, the second one. -/
def photoAndVideo : World where
  item := fun id => {
    text := []
    entities := []
    markup := none
    type := if id.id = 1 then 1 else 3
    out := false
    filterBlocked := false
    groupId := if id.peer = 7 then some ⟨7, false, 5⟩ else none }
  groups := fun group => if group = ⟨7, false, 5⟩ then [⟨7, 1⟩, ⟨7, 2⟩] else []
  registered := fun group id hmem => by
    split_ifs at hmem with hgroup
    · rcases List.mem_pair.1 hmem with rfl | rfl <;> exact congrArg some hgroup.symm
    · exact absurd hmem List.not_mem_nil
  peer := fun group id hgroup => by
    dsimp only at hgroup
    split_ifs at hgroup with hpeer
    rw [← Option.some.inj hgroup, hpeer]

/-- **The video is filtered once the photo was asked for**, and not before. -/
theorem video_filtered_after_photo :
    ((State.start photoFilter photoAndVideo).filtered findsOne everywhere ⟨7, 2⟩).1 = false
      ∧ ((((State.start photoFilter photoAndVideo).filtered findsOne everywhere
        ⟨7, 1⟩).2).filtered findsOne everywhere ⟨7, 2⟩).1 = true := by
  decide

end Yunogram.Yuno.Filters
