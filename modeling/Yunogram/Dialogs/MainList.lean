import Mathlib
import Yunogram.Machinery.Run

/-!
# Dialogs/MainList — the unread counters of a chat list, kept by what changes

A chat list keeps one sum over its entries for each unread counter, and changes it when an entry is
added, removed or changed.  `Chats` is such a list with its entries, their states and their links.

The result is `unread_counters_agree`: along every run in which no entry is passed over, each counter
is the sum over the entries of the list.  `polls_only_entry_lost` is an entry that is passed over.
-/

namespace Yunogram.Dialogs

open Machinery

/-! ## Unread states -/

/-- `UnreadState`. -/
structure UnreadState where
  messages : ℤ
  messagesMuted : ℤ
  chats : ℤ
  chatsMuted : ℤ
  marks : ℤ
  marksMuted : ℤ
  reactions : ℤ
  reactionsMuted : ℤ
  mentions : ℤ
  polls : ℤ
  pollsMuted : ℤ
  known : Bool
  deriving DecidableEq

/-- `UnreadState()`. -/
def UnreadState.empty : UnreadState := ⟨0, 0, 0, 0, 0, 0, 0, 0, 0, 0, 0, false⟩

/-- `UnreadState::operator+=`. -/
def UnreadState.add (s other : UnreadState) : UnreadState where
  messages := s.messages + other.messages
  messagesMuted := s.messagesMuted + other.messagesMuted
  chats := s.chats + other.chats
  chatsMuted := s.chatsMuted + other.chatsMuted
  marks := s.marks + other.marks
  marksMuted := s.marksMuted + other.marksMuted
  reactions := s.reactions + other.reactions
  reactionsMuted := s.reactionsMuted + other.reactionsMuted
  mentions := s.mentions + other.mentions
  polls := s.polls + other.polls
  pollsMuted := s.pollsMuted + other.pollsMuted
  known := s.known

/-- `UnreadState::operator-=`. -/
def UnreadState.sub (s other : UnreadState) : UnreadState where
  messages := s.messages - other.messages
  messagesMuted := s.messagesMuted - other.messagesMuted
  chats := s.chats - other.chats
  chatsMuted := s.chatsMuted - other.chatsMuted
  marks := s.marks - other.marks
  marksMuted := s.marksMuted - other.marksMuted
  reactions := s.reactions - other.reactions
  reactionsMuted := s.reactionsMuted - other.reactionsMuted
  mentions := s.mentions - other.mentions
  polls := s.polls - other.polls
  pollsMuted := s.pollsMuted - other.pollsMuted
  known := s.known

instance : Add UnreadState := ⟨UnreadState.add⟩
instance : Sub UnreadState := ⟨UnreadState.sub⟩

/-- The counters of a state. -/
inductive Counter
  | messages | messagesMuted | chats | chatsMuted | marks | marksMuted | reactions | reactionsMuted
  | mentions | polls | pollsMuted
  deriving DecidableEq

/-- A counter of a state. -/
def UnreadState.counter (s : UnreadState) : Counter → ℤ
  | .messages => s.messages
  | .messagesMuted => s.messagesMuted
  | .chats => s.chats
  | .chatsMuted => s.chatsMuted
  | .marks => s.marks
  | .marksMuted => s.marksMuted
  | .reactions => s.reactions
  | .reactionsMuted => s.reactionsMuted
  | .mentions => s.mentions
  | .polls => s.polls
  | .pollsMuted => s.pollsMuted

/-- The full counter a muted one is a part of. -/
def Counter.full : Counter → Counter
  | .messagesMuted => .messages
  | .chatsMuted => .chats
  | .marksMuted => .marks
  | .reactionsMuted => .reactions
  | .pollsMuted => .polls
  | c => c

section

variable {s other : UnreadState} {c : Counter}

@[simp] theorem counter_empty : UnreadState.empty.counter c = 0 := by cases c <;> rfl

@[simp] theorem counter_add : (s + other).counter c = s.counter c + other.counter c := by
  cases c <;> rfl

@[simp] theorem counter_sub : (s - other).counter c = s.counter c - other.counter c := by
  cases c <;> rfl

@[simp] theorem counter_setKnown (known : Bool) :
    { s with known := known }.counter c = s.counter c := by cases c <;> rfl

end

/-! ## The list -/

variable {Key : Type}

/-- `MainList`; of the rows it matters which there are, not their order. -/
structure MainList (Key : Type) where
  all : List Key
  unreadState : UnreadState
  cloudUnreadState : UnreadState
  fullListSize : ℕ
  cloudListSize : ℕ
  loaded : Bool
  allAreMuted : Bool

/-- The constructor of `MainList`. -/
def MainList.new : MainList Key where
  all := []
  unreadState := { UnreadState.empty with known := true }
  cloudUnreadState := UnreadState.empty
  fullListSize := 0
  cloudListSize := 0
  loaded := false
  allAreMuted := false

namespace MainList

variable (l : MainList Key)

/-- `MainList::unreadState`. -/
def shownUnreadState : UnreadState :=
  let useCloudState := l.cloudUnreadState.known && !l.loaded
  let result := if useCloudState then l.cloudUnreadState else l.unreadState
  let result := if useCloudState then
      { result with marks := l.unreadState.marks, marksMuted := l.unreadState.marksMuted }
    else result
  if l.allAreMuted then
    { result with
      messagesMuted := result.messages, chatsMuted := result.chats, marksMuted := result.marks }
  else result

/-- `MainList::unreadStateChangeNotifier`: what is fired when the change is done. -/
def unreadStateChangeNotifier (notify : Bool) : List UnreadState :=
  if notify then [l.shownUnreadState] else []

/-- `MainList::finalizeCloudUnread`. -/
def finalizeCloudUnread : MainList Key :=
  { l with cloudUnreadState := { l.cloudUnreadState with
      messagesMuted := l.cloudUnreadState.messages
      chatsMuted := l.cloudUnreadState.chats
      marksMuted := 0
      marks := 0 } }

/-- `MainList::recomputeFullListSize`. -/
def recomputeFullListSize : MainList Key :=
  { l with fullListSize := max l.all.length (if l.loaded then 0 else l.cloudListSize) }

/-- `MainList::setLoaded`. -/
def setLoaded (loaded : Bool) : MainList Key × List UnreadState :=
  if l.loaded = loaded then (l, [])
  else ({ l with loaded := loaded }.recomputeFullListSize, l.unreadStateChangeNotifier true)

/-- `MainList::setAllAreMuted`. -/
def setAllAreMuted (allAreMuted : Bool) : MainList Key × List UnreadState :=
  if l.allAreMuted = allAreMuted then (l, [])
  else ({ l with allAreMuted := allAreMuted }, l.unreadStateChangeNotifier true)

/-- `MainList::setCloudListSize`. -/
def setCloudListSize (size : ℕ) : MainList Key :=
  if l.cloudListSize = size then l else { l with cloudListSize := size }.recomputeFullListSize

/-- `MainList::updateCloudUnread`. -/
def updateCloudUnread (messages chats : ℤ) : MainList Key × List UnreadState :=
  let result := { l with cloudUnreadState := { l.cloudUnreadState with
      messages := messages
      chats := chats } }.finalizeCloudUnread
  ({ result with cloudUnreadState := { result.cloudUnreadState with known := true } },
    l.unreadStateChangeNotifier !l.loaded)

/-- `MainList::clear`. -/
def clear : MainList Key × List UnreadState :=
  ({ l with
      all := []
      unreadState := { UnreadState.empty with known := true }
      cloudUnreadState := { UnreadState.empty with known := true }
      cloudListSize := 0 }.recomputeFullListSize, l.unreadStateChangeNotifier true)

/-- `MainList::unreadEntryChanged`. -/
def unreadEntryChanged (state : UnreadState) (added : Bool) : MainList Key × List UnreadState :=
  if state.messages = 0 ∧ state.chats = 0 ∧ state.marks = 0 ∧ state.mentions = 0 ∧
      state.reactions = 0 then (l, [])
  else
    let updateCloudUnread := l.cloudUnreadState.known && state.known
    let notify := !l.cloudUnreadState.known || l.loaded || state.known
    let fired := l.unreadStateChangeNotifier notify
    let l := { l with
      unreadState := if added then l.unreadState + state else l.unreadState - state }
    if updateCloudUnread then
      ({ l with cloudUnreadState :=
          if added then l.cloudUnreadState + state
          else l.cloudUnreadState - state }.finalizeCloudUnread, fired)
    else (l, fired)

/-- `MainList::unreadStateChanged`. -/
def unreadStateChanged (wasState nowState : UnreadState) : MainList Key × List UnreadState :=
  let useClouded := l.cloudUnreadState.known && !l.loaded
  let updateCloudUnread := l.cloudUnreadState.known && wasState.known && nowState.known
  let notify := !useClouded || wasState.known
  let fired := l.unreadStateChangeNotifier notify
  let l := { l with unreadState := l.unreadState + (nowState - wasState) }
  if updateCloudUnread then
    ({ l with cloudUnreadState :=
        l.cloudUnreadState + (nowState - wasState) }.finalizeCloudUnread, fired)
  else (l, fired)

/-- `MainList::addEntry`, of an entry with a state. -/
def addEntry [DecidableEq Key] (key : Key) (unread : UnreadState) : MainList Key × List UnreadState :=
  let l := { l with all := if key ∈ l.all then l.all else l.all ++ [key] }
  let (l, fired) := l.unreadEntryChanged unread true
  (l.recomputeFullListSize, fired)

/-- `MainList::removeEntry`, of an entry with a state. -/
def removeEntry [DecidableEq Key] (key : Key) (unread : UnreadState) : MainList Key × List UnreadState :=
  let l := { l with all := l.all.erase key }
  let (l, fired) := l.unreadEntryChanged unread false
  (l.recomputeFullListSize, fired)

end MainList

/-! ## The entries of a list -/

/-- A list, the entries that have a link in it, and the unread state of each entry. -/
structure Chats (Key : Type) where
  list : MainList Key
  links : Key → Bool
  chatListUnreadState : Key → UnreadState

/-- A new list, and entries outside it. -/
def Chats.new (states : Key → UnreadState) : Chats Key where
  list := MainList.new
  links _ := false
  chatListUnreadState := states

/-- What happens to a list and its entries. -/
inductive Action (Key : Type)
  | addToChatList (key : Key)
  | removeFromChatList (key : Key)
  | notifyUnreadStateChange (key : Key) (nowState : UnreadState)
  | clear
  | setLoaded (loaded : Bool)
  | setAllAreMuted (allAreMuted : Bool)
  | setCloudListSize (size : ℕ)
  | updateCloudUnread (messages chats : ℤ)

namespace Chats

variable [DecidableEq Key] (w : Chats Key)

/-- `Entry::addToChatList`. -/
def addToChatList (key : Key) : Chats Key × List UnreadState :=
  if w.links key then (w, [])
  else
    let (list, fired) := w.list.addEntry key (w.chatListUnreadState key)
    ({ w with list := list, links := Function.update w.links key true }, fired)

/-- `Entry::removeFromChatList`. -/
def removeFromChatList (key : Key) : Chats Key × List UnreadState :=
  if w.links key then
    let (list, fired) := w.list.removeEntry key (w.chatListUnreadState key)
    ({ w with list := list, links := Function.update w.links key false }, fired)
  else (w, [])

/-- A change of the state of an entry, and `Entry::notifyUnreadStateChange` where it is in a chat
list. -/
def notifyUnreadStateChange (key : Key) (nowState : UnreadState) : Chats Key × List UnreadState :=
  let states := Function.update w.chatListUnreadState key nowState
  if w.links key then
    let (list, fired) := w.list.unreadStateChanged (w.chatListUnreadState key) nowState
    ({ w with list := list, chatListUnreadState := states }, fired)
  else ({ w with chatListUnreadState := states }, [])

/-- One step. -/
def step : Action Key → Chats Key × List UnreadState
  | .addToChatList key => w.addToChatList key
  | .removeFromChatList key => w.removeFromChatList key
  | .notifyUnreadStateChange key nowState => w.notifyUnreadStateChange key nowState
  | .clear => let (list, fired) := w.list.clear; ({ w with list := list }, fired)
  | .setLoaded loaded =>
    let (list, fired) := w.list.setLoaded loaded; ({ w with list := list }, fired)
  | .setAllAreMuted allAreMuted =>
    let (list, fired) := w.list.setAllAreMuted allAreMuted; ({ w with list := list }, fired)
  | .setCloudListSize size => ({ w with list := w.list.setCloudListSize size }, [])
  | .updateCloudUnread messages chats =>
    let (list, fired) := w.list.updateCloudUnread messages chats; ({ w with list := list }, fired)

/-- **What a counter should be**: its sum over the entries of the list. -/
def total {Key : Type} (w : Chats Key) (c : Counter) : ℤ := (w.list.all.map fun key => (w.chatListUnreadState key).counter c).sum

end Chats

/-! ## What is passed over -/

/-- The counters an entry is passed over without. -/
def UnreadState.PassedOver (s : UnreadState) : Prop :=
  s.messages = 0 ∧ s.chats = 0 ∧ s.marks = 0 ∧ s.mentions = 0 ∧ s.reactions = 0

/-- **A state that is counted**: it is passed over only if it has nothing to count. -/
def UnreadState.Counted (s : UnreadState) : Prop := s.PassedOver → ∀ c, s.counter c = 0

/-- **A step in which nothing is passed over**: an entry that is added or removed is counted, and an
entry that has kept its link to a list that was cleared has nothing to count. -/
def Action.Kept (w : Chats Key) : Action Key → Prop
  | .addToChatList key => w.links key = false → (w.chatListUnreadState key).Counted
  | .removeFromChatList key => w.links key = true →
    (key ∈ w.list.all ∧ (w.chatListUnreadState key).Counted) ∨
      (key ∉ w.list.all ∧ (w.chatListUnreadState key).PassedOver)
  | .notifyUnreadStateChange key nowState => w.links key = true →
    key ∈ w.list.all ∨ ∀ c, nowState.counter c = (w.chatListUnreadState key).counter c
  | _ => True

section

variable {l : MainList Key} {state wasState nowState : UnreadState} {c : Counter}

@[simp] theorem finalizeCloudUnread_all : l.finalizeCloudUnread.all = l.all := rfl

@[simp] theorem finalizeCloudUnread_unreadState :
    l.finalizeCloudUnread.unreadState = l.unreadState := rfl

@[simp] theorem recomputeFullListSize_all : l.recomputeFullListSize.all = l.all := rfl

@[simp] theorem recomputeFullListSize_unreadState :
    l.recomputeFullListSize.unreadState = l.unreadState := rfl

theorem setLoaded_keeps (loaded : Bool) :
    (l.setLoaded loaded).1.all = l.all ∧ (l.setLoaded loaded).1.unreadState = l.unreadState := by
  unfold MainList.setLoaded
  split <;> exact ⟨rfl, rfl⟩

theorem setAllAreMuted_keeps (allAreMuted : Bool) :
    (l.setAllAreMuted allAreMuted).1.all = l.all ∧
      (l.setAllAreMuted allAreMuted).1.unreadState = l.unreadState := by
  unfold MainList.setAllAreMuted
  split <;> exact ⟨rfl, rfl⟩

theorem setCloudListSize_keeps (size : ℕ) :
    (l.setCloudListSize size).all = l.all ∧
      (l.setCloudListSize size).unreadState = l.unreadState := by
  unfold MainList.setCloudListSize
  split <;> exact ⟨rfl, rfl⟩

@[simp] theorem unreadEntryChanged_all (added : Bool) :
    (l.unreadEntryChanged state added).1.all = l.all := by
  unfold MainList.unreadEntryChanged
  split
  · rfl
  · dsimp only
    split <;> rfl

theorem unreadEntryChanged_passedOver (h : state.PassedOver) (added : Bool) :
    l.unreadEntryChanged state added = (l, []) := if_pos h

/-- **An entry that is counted changes each counter by what it has of it.** -/
theorem unreadEntryChanged_counter (h : state.Counted) (added : Bool) :
    (l.unreadEntryChanged state added).1.unreadState.counter c
      = if added then l.unreadState.counter c + state.counter c
        else l.unreadState.counter c - state.counter c := by
  by_cases hpassed : state.PassedOver
  · rw [unreadEntryChanged_passedOver hpassed, h hpassed, add_zero, sub_zero, ite_self]
  · unfold MainList.unreadEntryChanged
    split
    · next hpassed' => exact absurd hpassed' hpassed
    · dsimp only
      cases added <;> split <;> simp

@[simp] theorem unreadStateChanged_all :
    (l.unreadStateChanged wasState nowState).1.all = l.all := by
  unfold MainList.unreadStateChanged
  dsimp only
  split <;> rfl

/-- **A change of a state changes each counter by the difference.** -/
theorem unreadStateChanged_counter :
    (l.unreadStateChanged wasState nowState).1.unreadState.counter c
      = l.unreadState.counter c + (nowState.counter c - wasState.counter c) := by
  unfold MainList.unreadStateChanged
  dsimp only
  split <;> simp

end

/-! ## The counters agree -/

namespace Chats

/-- **The counters agree with the entries**: an entry is in the list once and has a link there, and
each counter is the sum over the entries. -/
structure Agrees (w : Chats Key) : Prop where
  nodup : w.list.all.Nodup
  linked : ∀ key ∈ w.list.all, w.links key = true
  counters : ∀ c, w.list.unreadState.counter c = w.total c

variable [DecidableEq Key] {w : Chats Key} {key : Key} {nowState : UnreadState}

/-- The sum, with one entry set apart. -/
theorem total_eq_add_erase (h : key ∈ w.list.all) (c : Counter) :
    w.total c = (w.chatListUnreadState key).counter c
      + ((w.list.all.erase key).map fun key => (w.chatListUnreadState key).counter c).sum :=
  (List.sum_map_erase _ h).symm

omit [DecidableEq Key] in
theorem Agrees.new (states : Key → UnreadState) : (Chats.new states).Agrees where
  nodup := List.nodup_nil
  linked key h := absurd h List.not_mem_nil
  counters c := by
    show ({ UnreadState.empty with known := true } : UnreadState).counter c = 0
    simp

theorem Agrees.addToChatList (h : w.Agrees) (hkept : (Action.addToChatList key).Kept w) :
    (w.addToChatList key).1.Agrees := by
  unfold Chats.addToChatList
  split
  · exact h
  · next hlinks =>
    have hlinks : w.links key = false := Bool.eq_false_iff.mpr hlinks
    have hnew : key ∉ w.list.all := fun hmem => by simp [h.linked key hmem] at hlinks
    constructor
    · simp only [MainList.addEntry, hnew, if_false, recomputeFullListSize_all,
        unreadEntryChanged_all]
      exact List.nodup_append_comm.mpr (List.nodup_cons.mpr ⟨hnew, h.nodup⟩)
    · intro k hk
      simp only [MainList.addEntry, hnew, if_false, recomputeFullListSize_all,
        unreadEntryChanged_all, List.mem_append, List.mem_singleton] at hk
      show Function.update w.links key true k = true
      rcases eq_or_ne k key with rfl | hne
      · exact Function.update_self ..
      · rw [Function.update_of_ne hne]
        exact h.linked k (hk.resolve_right hne)
    · intro c
      simp only [MainList.addEntry, hnew, if_false, recomputeFullListSize_unreadState, total,
        recomputeFullListSize_all, unreadEntryChanged_all, List.map_append, List.sum_append,
        List.map_singleton, List.sum_singleton]
      rw [unreadEntryChanged_counter (hkept hlinks), if_pos rfl]
      exact congrArg (· + _) (h.counters c)

theorem Agrees.removeFromChatList (h : w.Agrees) (hkept : (Action.removeFromChatList key).Kept w) :
    (w.removeFromChatList key).1.Agrees := by
  unfold Chats.removeFromChatList
  split
  · next hlinks =>
    constructor
    · simp only [MainList.removeEntry, recomputeFullListSize_all, unreadEntryChanged_all]
      exact h.nodup.erase key
    · intro k hk
      simp only [MainList.removeEntry, recomputeFullListSize_all, unreadEntryChanged_all,
        h.nodup.mem_erase_iff] at hk
      show Function.update w.links key false k = true
      rw [Function.update_of_ne hk.1]
      exact h.linked k hk.2
    · intro c
      simp only [MainList.removeEntry, recomputeFullListSize_unreadState, total,
        recomputeFullListSize_all, unreadEntryChanged_all]
      rcases hkept hlinks with ⟨hmem, hcounted⟩ | ⟨hmem, hpassed⟩
      · rw [unreadEntryChanged_counter hcounted, if_neg Bool.false_ne_true]
        show w.list.unreadState.counter c - _ = _
        rw [h.counters c, total_eq_add_erase hmem, add_sub_cancel_left]
      · rw [unreadEntryChanged_passedOver hpassed, List.erase_of_not_mem hmem]
        exact h.counters c
  · exact h

theorem Agrees.notifyUnreadStateChange (h : w.Agrees)
    (hkept : (Action.notifyUnreadStateChange key nowState).Kept w) :
    (w.notifyUnreadStateChange key nowState).1.Agrees := by
  -- the entries other than `key` keep their states
  have hother : ∀ c, ((w.list.all.erase key).map fun k =>
      (Function.update w.chatListUnreadState key nowState k).counter c)
      = (w.list.all.erase key).map fun k => (w.chatListUnreadState k).counter c := fun c =>
    List.map_congr_left fun k hk => by
      rw [Function.update_of_ne (h.nodup.mem_erase_iff.mp hk).1]
  unfold Chats.notifyUnreadStateChange
  dsimp only
  split
  · next hlinks =>
    refine ⟨by simpa using h.nodup, by simpa using h.linked, fun c => ?_⟩
    simp only [unreadStateChanged_counter, total, unreadStateChanged_all]
    by_cases hmem : key ∈ w.list.all
    · rw [h.counters c, total_eq_add_erase hmem, ← List.sum_map_erase _ hmem, hother,
        Function.update_self]
      ring
    · have hsame := (hkept hlinks).resolve_left hmem
      rw [hsame c, sub_self, add_zero, h.counters c, total, ← List.erase_of_not_mem hmem, hother]
  · next hlinks =>
    have hmem : key ∉ w.list.all := fun hmem => hlinks (h.linked key hmem)
    refine ⟨h.nodup, h.linked, fun c => ?_⟩
    show w.list.unreadState.counter c = (w.list.all.map _).sum
    rw [h.counters c, total, ← List.erase_of_not_mem hmem, hother]

omit [DecidableEq Key] in
/-- What leaves the entries and the counters as they are. -/
theorem Agrees.congr {list : MainList Key} (h : w.Agrees) (hall : list.all = w.list.all)
    (hunread : list.unreadState = w.list.unreadState) : ({ w with list := list } : Chats Key).Agrees :=
  ⟨hall ▸ h.nodup, hall ▸ h.linked, fun c => by
    simpa only [total, hall, hunread] using h.counters c⟩

/-- **A step in which nothing is passed over keeps the counters right.** -/
theorem Agrees.step (h : w.Agrees) {a : Action Key} (hkept : a.Kept w) : (w.step a).1.Agrees := by
  cases a with
  | addToChatList key => exact h.addToChatList hkept
  | removeFromChatList key => exact h.removeFromChatList hkept
  | notifyUnreadStateChange key nowState => exact h.notifyUnreadStateChange hkept
  | clear => exact ⟨List.nodup_nil, fun key hmem => absurd hmem List.not_mem_nil,
      (Agrees.new w.chatListUnreadState).counters⟩
  | setLoaded loaded => exact h.congr (setLoaded_keeps loaded).1 (setLoaded_keeps loaded).2
  | setAllAreMuted allAreMuted =>
    exact h.congr (setAllAreMuted_keeps allAreMuted).1 (setAllAreMuted_keeps allAreMuted).2
  | setCloudListSize size =>
    exact h.congr (setCloudListSize_keeps size).1 (setCloudListSize_keeps size).2
  | updateCloudUnread messages chats => exact h.congr rfl rfl

end Chats

/-- **The unread counters of a chat list.**  Along every run in which nothing is passed over, each
counter is its sum over the entries of the list; it is not negative, and a muted one not above the
full one, where that holds of each entry. -/
theorem unread_counters_agree [DecidableEq Key] (states : Key → UnreadState) (actions : List (Action Key))
    (hkept : Guarded Chats.step (fun _ w a => a.Kept w) (Chats.new states) actions) :
    let w := (run Chats.step (Chats.new states) actions).1
    (∀ c, w.list.unreadState.counter c = w.total c) ∧
    ((∀ key ∈ w.list.all, ∀ c, 0 ≤ (w.chatListUnreadState key).counter c) →
      ∀ c, 0 ≤ w.list.unreadState.counter c) ∧
    ((∀ key ∈ w.list.all, ∀ c, (w.chatListUnreadState key).counter c
        ≤ (w.chatListUnreadState key).counter c.full) →
      ∀ c, w.list.unreadState.counter c ≤ w.list.unreadState.counter c.full) := by
  intro w
  have hagrees : w.Agrees := run_induction (fun _ w _ => w.Agrees) (Chats.Agrees.new states)
    (fun _ w _ a h hkept => h.step hkept) hkept
  refine ⟨hagrees.counters, fun hnonneg c => ?_, fun hmuted c => ?_⟩
  · rw [hagrees.counters c]
    refine List.sum_nonneg fun x hx => ?_
    obtain ⟨key, hkey, rfl⟩ := List.mem_map.mp hx
    exact hnonneg key hkey c
  · rw [hagrees.counters c, hagrees.counters c.full]
    exact List.sum_le_sum fun key hkey => hmuted key hkey c

/-- A chat with two unread messages and a vote in a poll; and the chat when they are read. -/
def sampleUnread : UnreadState :=
  { UnreadState.empty with messages := 2, chats := 1, polls := 1, known := true }

def sampleRead : UnreadState := { UnreadState.empty with known := true }

theorem unread_counters_agree_sample :
    Guarded Chats.step (fun _ w a => a.Kept w) (Chats.new fun _ : Bool => sampleUnread)
      [.addToChatList true, .notifyUnreadStateChange true sampleRead] ∧
    (run Chats.step (Chats.new fun _ : Bool => sampleUnread)
      [.addToChatList true, .notifyUnreadStateChange true sampleRead]).1.list.unreadState.counter
        .messages = 0 := by
  have hkept : Guarded Chats.step (fun _ w a => a.Kept w) (Chats.new fun _ : Bool => sampleUnread)
      [.addToChatList true, .notifyUnreadStateChange true sampleRead] := by
    have hadd : Guarded Chats.step (fun _ w a => a.Kept w) (Chats.new fun _ => sampleUnread)
        [Action.addToChatList true] := Guarded.concat Guarded.nil ?_
    refine Guarded.concat hadd ?_
    · exact fun _ => .inl (by decide)
    · exact fun _ hpassed => absurd hpassed.1 (by decide)
  refine ⟨hkept, ?_⟩
  rw [(unread_counters_agree _ _ hkept).1 .messages]
  decide

/-- **A chat whose only unread thing is a vote in a poll is lost** when it is added. -/
theorem polls_only_entry_lost :
    ¬ ∀ c, (run Chats.step (Chats.new fun _ : Bool => { UnreadState.empty with polls := 1 })
      [.addToChatList true]).1.list.unreadState.counter c
        = (run Chats.step (Chats.new fun _ : Bool => { UnreadState.empty with polls := 1 })
          [.addToChatList true]).1.total c :=
  fun h => absurd (h .polls) (by decide)

end Yunogram.Dialogs
