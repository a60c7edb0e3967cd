import Mathlib
import Yunogram.Machinery.LowerBound
import Yunogram.Machinery.Ranked

/-!
# Data/RepliesList — the window of a thread that is loaded, and the counters around it

`RepliesList` keeps a part of a thread's messages, newest first, and counts, where it can, how many
there are before and after them and how many there are in all.  Messages are loaded around an id,
before the oldest and after the newest one that is loaded; live updates add and remove messages.

A list is `none` where an assertion of the source fails.  What a request is asked for is kept in the
place of its id.  The unread counter, the comments of the original post and differences that are too
long are left out.
-/

open Machinery

namespace Yunogram.Data

/-- `MsgId`. -/
abbrev MsgId := ℤ

/-- A message of a page; `inThread` is false also of one that gives no item. -/
structure PageMessage where
  id : MsgId
  inThread : Bool
  deriving DecidableEq

/-- `messages.Messages`. -/
inductive MessagesResult
  | messagesNotModified
  | messages (vmessages : List PageMessage)
  | messagesSlice (vcount : ℤ) (vmessages : List PageMessage)
  | channelMessages (vcount : ℤ) (vmessages : List PageMessage)
  deriving DecidableEq

/-- The messages of a page. -/
def MessagesResult.list : MessagesResult → List PageMessage
  | messagesNotModified => []
  | messages vmessages => vmessages
  | messagesSlice _ vmessages => vmessages
  | channelMessages _ vmessages => vmessages

/-- How many messages there are, as the server says. -/
def MessagesResult.fullCount : MessagesResult → ℤ
  | messagesNotModified => 0
  | messages vmessages => vmessages.length
  | messagesSlice vcount _ => vcount
  | channelMessages vcount _ => vcount

/-- What a request is sent for. -/
inductive RepliesRequest
  | around (id : MsgId)
  | before (last : MsgId)
  | after (first : MsgId)
  deriving DecidableEq

/-- `RepliesList`. -/
structure RepliesList where
  list : List MsgId
  skippedBefore : Option ℤ
  skippedAfter : Option ℤ
  fullCount : Option ℤ
  loadingAround : Option MsgId
  beforeId : Option RepliesRequest
  afterId : Option RepliesRequest
  deriving DecidableEq

namespace RepliesList

/-- A list in which nothing is loaded. -/
def new : RepliesList := ⟨[], none, none, none, none, none, none⟩

/-! ## Live updates -/

/-- `_fullCount` where both of its neighbours are known. -/
def countAll (skippedBefore skippedAfter : Option ℤ) (list : List MsgId) : Option ℤ :=
  match skippedBefore, skippedAfter with
  | some before, some after => some (before + list.length + after)
  | _, _ => none

/-- `applyUpdate` of a destroyed message of the history. -/
def applyDestroyed (s : RepliesList) (id : MsgId) : RepliesList :=
  let i := lowerBound (fun x => decide (id < x)) s.list
  if s.list[i]? ≠ some id then s
  else
    let list := s.list.eraseIdx i
    { s with
      list
      fullCount :=
        match countAll s.skippedBefore s.skippedAfter list, s.fullCount with
        | some all, _ => some all
        | none, some known => if 0 < known then some (known - 1) else some known
        | none, none => none }

/-- `applyUpdate` of a new message of the thread. -/
def applyAdded (s : RepliesList) (id : MsgId) : RepliesList :=
  let i := lowerBound (fun x => decide (id < x)) s.list
  if s.skippedAfter ≠ some 0 ∨ s.list[i]? = some id then s
  else
    let list := s.list.insertIdx i id
    { s with
      list
      fullCount :=
        match countAll s.skippedBefore s.skippedAfter list, s.fullCount with
        | some all, _ => some all
        | none, some known => some (known + 1)
        | none, none => none }

/-! ## A page of messages -/

/-- The loop over the messages of a page: the list, what is put in front of it, and how many
messages are skipped. -/
def pushMessages (toFront : Bool) :
    List MsgId → List MsgId → ℤ → List PageMessage → List MsgId × List MsgId × ℤ
  | list, refreshed, skipped, [] => (list, refreshed, skipped)
  | list, refreshed, skipped, message :: messages =>
    if message.inThread then
      if toFront ∧ list.head?.any (· < message.id) then
        pushMessages toFront list (refreshed ++ [message.id]) skipped messages
      else if list.getLast?.all (message.id < ·) then
        pushMessages toFront (list ++ [message.id]) refreshed skipped messages
      else pushMessages toFront list refreshed skipped messages
    else pushMessages toFront list refreshed (skipped + 1) messages

/-- The counters that a page gives: `decrementFrom` is of the side the page is on, `correct` of the
other. -/
def settle (decrementFrom correct : Option ℤ) (added checkedCount nowSize : ℤ) :
    Option (Option ℤ × Option ℤ) :=
  match decrementFrom.map fun known => max (known - added) 0, correct with
  | some decrement, some _ =>
    let corrected := max (checkedCount - decrement - nowSize) 0
    let decremented := checkedCount - corrected - nowSize
    -- Assert(*decrementFrom >= 0)
    if decremented < 0 then none else some (some decremented, some corrected)
  | some decrement, none =>
    let decremented := min decrement (checkedCount - nowSize)
    some (some decremented, some (checkedCount - decremented - nowSize))
  | none, some known =>
    let corrected := min known (checkedCount - nowSize)
    some (some (checkedCount - corrected - nowSize), some corrected)
  | none, none => some (none, none)

/-- `processMessagesIsEmpty`. -/
def processMessagesIsEmpty (s : RepliesList) (result : MessagesResult) :
    Option (RepliesList × Bool) :=
  match result.list with
  | [] => some (s, true)
  | message :: messages =>
    let toFront : Bool := s.list.head?.any (· < message.id)
    let (pushed, refreshed, skipped) := pushMessages toFront s.list [] 0 (message :: messages)
    let list := refreshed ++ pushed
    let checkedCount := max (result.fullCount - skipped) list.length
    let added : ℤ := list.length - s.list.length
    let counters :=
      if toFront then
        (settle s.skippedAfter s.skippedBefore added checkedCount list.length).map Prod.swap
      else settle s.skippedBefore s.skippedAfter added checkedCount list.length
    counters.map fun (skippedBefore, skippedAfter) =>
      ({ s with list, skippedBefore, skippedAfter, fullCount := some checkedCount },
        (message :: messages).length = skipped)

/-! ## Requests -/

/-- `loadAround`. -/
def loadAround (s : RepliesList) (id : MsgId) : RepliesList :=
  if s.loadingAround = some id then s
  else { s with beforeId := some (.around id), afterId := none, loadingAround := some id }

/-- `loadBefore`. -/
def loadBefore (s : RepliesList) : Option RepliesList :=
  match s.list.getLast? with
  | none => none  -- Expects(!_list.empty())
  | some last =>
    if s.loadingAround = none ∧ s.beforeId.isSome then some s
    else some { s with beforeId := some (.before last) }

/-- `loadAfter`. -/
def loadAfter (s : RepliesList) : Option RepliesList :=
  match s.list.head? with
  | none => none  -- Expects(!_list.empty())
  | some first =>
    if s.afterId.isSome then some s else some { s with afterId := some (.after first) }

/-- A response to `loadAround`. -/
def aroundDone (s : RepliesList) (id : MsgId) (result : MessagesResult) : Option RepliesList :=
  let cleared := { s with
    beforeId := none
    loadingAround := none
    skippedAfter := if id = 0 then some 0 else none
    skippedBefore := none
    list := [] }
  match cleared.processMessagesIsEmpty result with
  | none => none
  | some (s, true) =>
    some { s with fullCount := some 0, skippedBefore := some 0, skippedAfter := some 0 }
  | some (s, false) =>
    if id = 0 then some s
    else
      match s.list.head?, s.list.getLast? with
      | some front, some back =>
        if front ≤ id then some { s with skippedAfter := some 0 }
        else if id ≤ back then some { s with skippedBefore := some 0 }
        else some s
      | _, _ => none  -- Assert(!_list.empty())

/-- A response to `loadBefore`. -/
def beforeDone (s : RepliesList) (last : MsgId) (result : MessagesResult) : Option RepliesList :=
  let s := { s with beforeId := none }
  match s.list.getLast? with
  | none => some s
  | some back =>
    if back ≠ last then s.loadBefore
    else
      match s.processMessagesIsEmpty result with
      | none => none
      | some (s, true) =>
        some { s with
          skippedBefore := some 0
          fullCount := if s.skippedAfter = some 0 then some s.list.length else s.fullCount }
      | some (s, false) => some s

/-- A response to `loadAfter`. -/
def afterDone (s : RepliesList) (first : MsgId) (result : MessagesResult) : Option RepliesList :=
  let s := { s with afterId := none }
  match s.list.head? with
  | none => some s
  | some front =>
    if front ≠ first then s.loadAfter
    else
      match s.processMessagesIsEmpty result with
      | none => none
      | some (s, true) =>
        some { s with
          skippedAfter := some 0
          fullCount := if s.skippedBefore = some 0 then some s.list.length else s.fullCount }
      | some (s, false) => some s

/-- A response to a request. -/
def done (s : RepliesList) (result : MessagesResult) : RepliesRequest → Option RepliesList
  | .around id => s.aroundDone id result
  | .before last => s.beforeDone last result
  | .after first => s.afterDone first result

/-- A request that failed. -/
def fail (s : RepliesList) : RepliesRequest → RepliesList
  | .around _ => { s with beforeId := none, loadingAround := none }
  | .before _ => { s with beforeId := none }
  | .after _ => { s with afterId := none }

end RepliesList

/-! ## The ids of a page -/

/-- The ids of the messages of the thread. -/
def threadIds (messages : List PageMessage) : List MsgId :=
  (messages.filter (·.inThread)).map (·.id)

/-- The ids of a page's messages of the thread. -/
def MessagesResult.ids (result : MessagesResult) : List MsgId := threadIds result.list

/-- How many messages of a page are not of the thread. -/
def MessagesResult.skipped (result : MessagesResult) : ℤ := result.list.countP (!·.inThread)

section

variable {message : PageMessage} {messages : List PageMessage} {list refreshed : List MsgId}
  {skipped : ℤ}

theorem threadIds_cons_of (h : message.inThread = true) :
    threadIds (message :: messages) = message.id :: threadIds messages := by
  rw [threadIds, List.filter_cons_of_pos h, List.map_cons, threadIds]

theorem threadIds_cons_of_not (h : message.inThread = false) :
    threadIds (message :: messages) = threadIds messages := by
  rw [threadIds, List.filter_cons_of_neg (by simp [h]), threadIds]

theorem mem_threadIds {id : MsgId} (h : id ∈ threadIds messages) : ∃ m ∈ messages, m.id = id := by
  obtain ⟨m, hm, rfl⟩ := List.mem_map.mp h
  exact ⟨m, List.mem_of_mem_filter hm, rfl⟩

theorem pairwise_threadIds (h : messages.Pairwise fun a b => b.id < a.id) :
    (threadIds messages).Pairwise fun a b => b < a :=
  List.pairwise_map.mpr (h.sublist List.filter_sublist)

/-- What a page has of the thread and what it has of others make up the page. -/
theorem length_threadIds :
    (messages.length : ℤ) = (threadIds messages).length + messages.countP (!·.inThread) := by
  have hsplit := messages.length_eq_countP_add_countP (p := PageMessage.inThread)
  rw [threadIds, List.length_map, ← List.countP_eq_length_filter, ← Nat.cast_add, hsplit]
  simp

namespace RepliesList

/-- **A page of older messages** is put behind the list. -/
theorem pushMessages_back (hdec : messages.Pairwise fun a b => b.id < a.id)
    (hback : ∀ back ∈ list.getLast?, ∀ m ∈ messages, m.id < back) :
    pushMessages false list refreshed skipped messages =
      (list ++ threadIds messages, refreshed, skipped + messages.countP (!·.inThread)) := by
  induction messages generalizing list skipped with
  | nil => simp [pushMessages, threadIds]
  | cons message messages ih =>
    obtain ⟨hlt, hdec⟩ := List.pairwise_cons.mp hdec
    rw [pushMessages]
    cases hin : message.inThread with
    | false =>
      have hback' := fun back hmem m hm =>
        hback back hmem m (List.mem_cons_of_mem message hm)
      rw [if_neg Bool.false_ne_true, ih hdec hback', threadIds_cons_of_not hin,
        List.countP_cons_of_pos (by simp [hin])]
      push_cast
      rw [add_assoc, add_comm 1]
    | true =>
      have hall : list.getLast?.all (message.id < ·) = true := by
        cases hlast : list.getLast? with
        | none => rfl
        | some back => exact decide_eq_true (hback back hlast message List.mem_cons_self)
      rw [if_pos rfl, if_neg (by simp), if_pos hall, ih hdec, threadIds_cons_of hin,
        List.countP_cons_of_neg (by simp [hin]), List.append_assoc, List.singleton_append]
      intro back hmem m hm
      rw [List.getLast?_concat] at hmem
      obtain rfl := Option.some.inj hmem
      exact hlt m hm

/-- **A page of newer messages** is put in front of it. -/
theorem pushMessages_front {front : MsgId} (hhead : list.head? = some front)
    (hfront : ∀ m ∈ messages, front < m.id) :
    pushMessages true list refreshed skipped messages =
      (list, refreshed ++ threadIds messages, skipped + messages.countP (!·.inThread)) := by
  induction messages generalizing refreshed skipped with
  | nil => simp [pushMessages, threadIds]
  | cons message messages ih =>
    have hfront' := fun m hm => hfront m (List.mem_cons_of_mem message hm)
    rw [pushMessages]
    cases hin : message.inThread with
    | false =>
      rw [if_neg Bool.false_ne_true, ih hfront', threadIds_cons_of_not hin,
        List.countP_cons_of_pos (by simp [hin])]
      push_cast
      rw [add_assoc, add_comm 1]
    | true =>
      have hany : list.head?.any (· < message.id) = true := by
        rw [hhead]
        exact decide_eq_true (hfront message List.mem_cons_self)
      rw [if_pos rfl, if_pos ⟨rfl, hany⟩, ih hfront', threadIds_cons_of hin,
        List.countP_cons_of_neg (by simp [hin]), List.append_assoc, List.singleton_append]

end RepliesList

end

end Yunogram.Data
