import Mathlib
import Yunogram.Machinery.FlatMap
import Yunogram.Machinery.GapCounter

/-!
# Data/PtsWaiter — the waiter that puts `pts`-numbered updates in order

`data/data_pts_waiter.cpp`.  An update carries `pts` and `count`: it moves the account from
`pts - count` to `pts`.  The waiter keeps three numbers — `good`, up to which everything was applied,
`last`, the greatest `pts` seen, and `count`, the start plus the sum of the counts seen — and a queue
of the updates that arrived early, keyed by `pts` and arrival number.

What the waiter does to its owner (`Api::Updates`) is an `Effect`.  An update taken from the queue is
handed over under its key, and filling the queue is an effect too: both are what the theorems about
runs speak of.  While the owner is handed a queued update it may call the waiter back; `reenter` lists
those calls.
-/

open Machinery

namespace Yunogram

/-! ## The data -/

/-- The values of `int32`. -/
def IsInt32 (n : ℤ) : Prop := -2 ^ 31 ≤ n ∧ n < 2 ^ 31

instance (n : ℤ) : Decidable (IsInt32 n) := inferInstanceAs (Decidable (_ ∧ _))

/-- `PtsSkippedQueue`: which of the two queues an entry lives in. -/
inductive PtsSkippedQueue
  | skippedUpdate
  | skippedUpdates
  deriving DecidableEq

/-- What the three overloads of `updated` and `updateAndApply` are given to keep or apply. -/
inductive Payload (U US : Type*)
  | none
  | update (update : U)
  | updates (updates : US)
  deriving DecidableEq

/-- The arguments of one call of `updated` or `updateAndApply`. -/
structure Call (U US : Type*) where
  pts : ℤ
  count : ℤ
  payload : Payload U US
  pts_int32 : IsInt32 pts := by decide
  count_int32 : IsInt32 count := by decide
  deriving DecidableEq

/-- The piece of the account an update moves over. -/
def Call.piece {U US : Type*} (c : Call U US) : Piece := ⟨c.pts, c.count⟩

/-- What the waiter asks of its owner, and the filling of its queue. -/
inductive Effect (U US : Type*)
  | ptsWaiterStartTimerFor (ms : ℤ)
  | skipped (key : ℕ) (call : Call U US)
  | applyUpdateNoPtsCheck (key : Option ℕ) (update : U)
  | applyUpdatesNoPtsCheck (key : Option ℕ) (updates : US)
  deriving DecidableEq

/-- `PtsWaiter`. -/
structure PtsWaiter (U US : Type*) where
  queue : FlatMap ℕ PtsSkippedQueue := .empty
  updateQueue : FlatMap ℕ U := .empty
  updatesQueue : FlatMap ℕ US := .empty
  good : ℤ := 0
  last : ℤ := 0
  count : ℤ := 0
  applySkippedLevel : ℕ := 0
  requesting : Bool := false
  waitingForSkipped : Bool := false
  waitingForShortPoll : Bool := false
  skippedKey : ℕ := 0

namespace PtsWaiter

/-- `kWaitForSkippedTimeout`. -/
def kWaitForSkippedTimeout : ℤ := 1000

variable {U US : Type*}

/-! ## The operations -/

/-- `clearSkippedUpdates`. -/
def clearSkippedUpdates (w : PtsWaiter U US) : PtsWaiter U US :=
  { w with queue := .empty, updateQueue := .empty, updatesQueue := .empty, applySkippedLevel := 0 }

/-- `init`. -/
def init (w : PtsWaiter U US) (pts : ℤ) : PtsWaiter U US :=
  { w with good := pts, last := pts, count := pts }.clearSkippedUpdates

/-- `inited`. -/
def inited (w : PtsWaiter U US) : Bool := 0 < w.good

/-- `current`. -/
def current (w : PtsWaiter U US) : ℤ := w.good

/-- `setRequesting`. -/
def setRequesting (w : PtsWaiter U US) (isRequesting : Bool) : PtsWaiter U US :=
  let w := { w with requesting := isRequesting }
  if isRequesting then w.clearSkippedUpdates else w

/-- `checkForWaiting`. -/
def checkForWaiting (w : PtsWaiter U US) : List (Effect U US) :=
  if !w.waitingForSkipped && !w.waitingForShortPoll then [.ptsWaiterStartTimerFor (-1)] else []

/-- `setWaitingForSkipped`. -/
def setWaitingForSkipped (w : PtsWaiter U US) (ms : ℤ) : PtsWaiter U US × List (Effect U US) :=
  if 0 ≤ ms then
    ({ w with waitingForSkipped := true }, [.ptsWaiterStartTimerFor ms])
  else
    let w := { w with waitingForSkipped := false }
    (w, w.checkForWaiting)

/-- The key of a queue entry: `pts` as `uint32` above, the arrival number below. -/
def queueKey (pts : ℤ) (skippedKey : ℕ) : ℕ := (pts % 2 ^ 32).toNat <<< 32 ||| skippedKey

/-- The `pts` a key was made of. -/
def keyPts (key : ℕ) : ℤ := (key >>> 32 : ℕ)

/-- `ptsKey`: enter the queue under a fresh key. -/
def ptsKey (w : PtsWaiter U US) (queue : PtsSkippedQueue) (pts : ℤ) : PtsWaiter U US × ℕ :=
  let skippedKey := (w.skippedKey + 1) % 2 ^ 32
  let key := queueKey pts skippedKey
  ({ w with skippedKey := skippedKey, queue := w.queue.emplace key queue }, key)

/-- Keep a payload in its queue: `_updateQueue.emplace(ptsKey(..), update)` and its twin. -/
def skip (w : PtsWaiter U US) (c : Call U US) : PtsWaiter U US × List (Effect U US) :=
  match c.payload with
  | .none => (w, [])
  | .update u =>
    let (w, key) := w.ptsKey .skippedUpdate c.pts
    ({ w with updateQueue := w.updateQueue.emplace key u }, [.skipped key c])
  | .updates us =>
    let (w, key) := w.ptsKey .skippedUpdates c.pts
    ({ w with updatesQueue := w.updatesQueue.emplace key us }, [.skipped key c])

/-- `check`: returns false if need to save that update and apply later. -/
def check (w : PtsWaiter U US) (pts count : ℤ) : PtsWaiter U US × List (Effect U US) × Bool :=
  if !w.inited then
    (w.init pts, [], true)
  else
    let w := { w with last := max w.last pts, count := w.count + count }
    if w.last = w.count then
      ({ w with good := w.last }, [], true)
    else
      let (w, es) := w.setWaitingForSkipped
        (if w.last < w.count then 1 else kWaitForSkippedTimeout)
      (w, es, count == 0)

/-- `updated`: whether the update can be applied now; if not, it is kept. -/
def updated (w : PtsWaiter U US) (c : Call U US) : PtsWaiter U US × List (Effect U US) × Bool :=
  if w.requesting || w.applySkippedLevel ≠ 0 then
    (w, [], true)
  else if c.pts ≤ w.good ∧ 0 < c.count then
    (w, [], false)
  else
    match w.check c.pts c.count with
    | (w, es, true) => (w, es, true)
    | (w, es, false) => ((w.skip c).1, es ++ (w.skip c).2, false)

/-- Hand a payload that did not wait to the owner. -/
def applyNow : Payload U US → List (Effect U US)
  | .none => []
  | .update u => [.applyUpdateNoPtsCheck none u]
  | .updates us => [.applyUpdatesNoPtsCheck none us]

variable [Inhabited U] [Inhabited US]

/-- Hand the queued entry under `key` to the owner; `operator[]` of the source makes a default value
where the key is missing. -/
def applySkipped (w : PtsWaiter U US) (key : ℕ) : PtsSkippedQueue → Effect U US
  | .skippedUpdate => .applyUpdateNoPtsCheck (some key) ((w.updateQueue.find? key).getD default)
  | .skippedUpdates => .applyUpdatesNoPtsCheck (some key) ((w.updatesQueue.find? key).getD default)

/-- The calls a list makes, one after the other. -/
def callAll (call : PtsWaiter U US → Call U US → PtsWaiter U US × List (Effect U US))
    (w : PtsWaiter U US) : List (Call U US) → PtsWaiter U US × List (Effect U US)
  | [] => (w, [])
  | c :: cs =>
    let (w, es) := call w c
    let (w, es') := callAll call w cs
    (w, es ++ es')

/-- The loop of `applySkippedUpdates` over the queue; `call` answers what the owner calls back with
while it is handed an entry. -/
def applySkippedLoop (call : PtsWaiter U US → Call U US → PtsWaiter U US × List (Effect U US))
    (reenter : ℕ → List (Call U US)) (w : PtsWaiter U US) :
    List (ℕ × PtsSkippedQueue) → PtsWaiter U US × List (Effect U US)
  | [] => (w, [])
  | (key, kind) :: rest =>
    let e := w.applySkipped key kind
    let (w, es) := callAll call w (reenter key)
    let (w, es') := applySkippedLoop call reenter w rest
    (w, e :: es ++ es')

/-- `applySkippedUpdates`. -/
def applySkippedUpdates (call : PtsWaiter U US → Call U US → PtsWaiter U US × List (Effect U US))
    (reenter : ℕ → List (Call U US)) (w : PtsWaiter U US) : PtsWaiter U US × List (Effect U US) :=
  if !w.waitingForSkipped then
    (w, [])
  else
    let (w, es) := w.setWaitingForSkipped (-1)
    if w.queue.isEmpty then
      (w, es)
    else
      let w := { w with applySkippedLevel := w.applySkippedLevel + 1 }
      let (w, es') := applySkippedLoop call reenter w w.queue.entries
      let w := { w with applySkippedLevel := w.applySkippedLevel - 1 }
      (w.clearSkippedUpdates, es ++ es')

/-- What `updateAndApply` does with an update that can be applied now. -/
def applyUpdated (call : PtsWaiter U US → Call U US → PtsWaiter U US × List (Effect U US))
    (reenter : ℕ → List (Call U US)) (w : PtsWaiter U US) (c : Call U US) :
    PtsWaiter U US × List (Effect U US) :=
  match c.payload with
  | .none => w.applySkippedUpdates call reenter
  | payload =>
    if !w.waitingForSkipped || w.queue.isEmpty then
      -- Optimization - no need to put in queue and back.
      (w, applyNow payload)
    else
      let (w, es) := w.skip c
      let (w, es') := w.applySkippedUpdates call reenter
      (w, es ++ es')

/-- `updateAndApply`, with `call` for the calls made back during it. -/
def updateAndApplyWith (call : PtsWaiter U US → Call U US → PtsWaiter U US × List (Effect U US))
    (reenter : ℕ → List (Call U US)) (w : PtsWaiter U US) (c : Call U US) :
    PtsWaiter U US × List (Effect U US) :=
  match w.updated c with
  | (w, es, false) => (w, es)
  | (w, es, true) =>
    let (w, es') := w.applyUpdated call reenter c
    (w, es ++ es')

/-- The nested calls, `depth` levels of them. -/
def updateAndApplyAt (reenter : ℕ → List (Call U US)) :
    ℕ → PtsWaiter U US → Call U US → PtsWaiter U US × List (Effect U US)
  | 0 => updateAndApplyWith (fun w _ => (w, [])) reenter
  | depth + 1 => updateAndApplyWith (updateAndApplyAt reenter depth) reenter

/-- `updateAndApply`.  One level of calls back is all there is: a call made during the hand-over hands
its own update over and returns (`updateAndApplyAt_nested`). -/
def updateAndApply (reenter : ℕ → List (Call U US)) (w : PtsWaiter U US) (c : Call U US) :
    PtsWaiter U US × List (Effect U US) :=
  updateAndApplyAt reenter 1 w c

/-! ## A call made back changes nothing -/

theorem updateAndApplyWith_nested
    (call : PtsWaiter U US → Call U US → PtsWaiter U US × List (Effect U US))
    (reenter : ℕ → List (Call U US)) {w : PtsWaiter U US} (hl : w.applySkippedLevel ≠ 0)
    (hw : w.waitingForSkipped = false) (c : Call U US) :
    updateAndApplyWith call reenter w c = (w, applyNow c.payload) := by
  obtain ⟨pts, count, payload, _, _⟩ := c
  cases payload <;>
    simp [updateAndApplyWith, applyUpdated, updated, hl, hw, applySkippedUpdates, applyNow]

/-- **While queued updates are handed over, a call leaves the waiter as it is**: its update is handed
over at once, at any depth. -/
theorem updateAndApplyAt_nested (reenter : ℕ → List (Call U US)) (depth : ℕ) {w : PtsWaiter U US}
    (hl : w.applySkippedLevel ≠ 0) (hw : w.waitingForSkipped = false) (c : Call U US) :
    updateAndApplyAt reenter depth w c = (w, applyNow c.payload) := by
  cases depth <;> exact updateAndApplyWith_nested _ _ hl hw c

omit [Inhabited U] [Inhabited US] in
theorem callAll_nested {call : PtsWaiter U US → Call U US → PtsWaiter U US × List (Effect U US)}
    {w : PtsWaiter U US} (h : ∀ c, call w c = (w, applyNow c.payload)) (cs : List (Call U US)) :
    callAll call w cs = (w, cs.flatMap fun c => applyNow c.payload) := by
  induction cs with
  | nil => rfl
  | cons c cs ih => simp only [callAll, h, ih, List.flatMap_cons]

/-- **The loop hands every entry over, in the order of the queue, and changes nothing.** -/
theorem applySkippedLoop_nested
    {call : PtsWaiter U US → Call U US → PtsWaiter U US × List (Effect U US)}
    (reenter : ℕ → List (Call U US)) {w : PtsWaiter U US}
    (h : ∀ c, call w c = (w, applyNow c.payload)) (l : List (ℕ × PtsSkippedQueue)) :
    applySkippedLoop call reenter w l
      = (w, l.flatMap fun e =>
          w.applySkipped e.1 e.2 :: (reenter e.1).flatMap fun c => applyNow c.payload) := by
  induction l with
  | nil => rfl
  | cons e l ih =>
    obtain ⟨key, kind⟩ := e
    simp only [applySkippedLoop, callAll_nested h, ih, List.flatMap_cons]

/-! ## The operations in terms of the counter -/

/-- The three numbers. -/
def counter (w : PtsWaiter U US) : GapCounter := ⟨w.good, w.last, w.count⟩

/-- The waiter with other numbers. -/
def withCounter (w : PtsWaiter U US) (t : GapCounter) : PtsWaiter U US :=
  { w with good := t.good, last := t.last, count := t.count }

/-- The waiter takes calls: no difference is being requested, no queue is being handed over, and a
start was set. -/
structure Ready (w : PtsWaiter U US) : Prop where
  requesting : w.requesting = false
  level : w.applySkippedLevel = 0
  inited : 0 < w.good

section

omit [Inhabited U] [Inhabited US]

@[simp] theorem counter_withCounter (w : PtsWaiter U US) (t : GapCounter) :
    (w.withCounter t).counter = t := rfl

@[simp] theorem counter_init (w : PtsWaiter U US) (pts : ℤ) :
    (w.init pts).counter = GapCounter.start pts := rfl

@[simp] theorem queue_init (w : PtsWaiter U US) (pts : ℤ) : (w.init pts).queue = .empty := rfl

theorem Ready.of_init {w : PtsWaiter U US} (h : w.requesting = false) {pts : ℤ} (hp : 0 < pts) :
    (w.init pts).Ready := ⟨h, rfl, hp⟩

/-- Filling the queue changes nothing else. -/
theorem skip_eq (w : PtsWaiter U US) (c : Call U US) :
    ∃ q uq usq k, (w.skip c).1
      = { w with queue := q, updateQueue := uq, updatesQueue := usq, skippedKey := k } := by
  obtain ⟨pts, count, payload, _, _⟩ := c
  cases payload <;> exact ⟨_, _, _, _, rfl⟩

@[simp] theorem counter_skip (w : PtsWaiter U US) (c : Call U US) :
    (w.skip c).1.counter = w.counter := by
  obtain ⟨q, uq, usq, k, h⟩ := w.skip_eq c
  rw [h]
  rfl

theorem Ready.skip {w : PtsWaiter U US} (h : w.Ready) (c : Call U US) : (w.skip c).1.Ready := by
  obtain ⟨q, uq, usq, k, he⟩ := w.skip_eq c
  rw [he]
  exact ⟨h.requesting, h.level, h.inited⟩

theorem Ready.receive {w : PtsWaiter U US} (h : w.Ready) (u : Piece)
    (hg : w.good ≤ (w.counter.receive u).good) :
    (w.withCounter (w.counter.receive u)).Ready :=
  ⟨h.requesting, h.level, lt_of_lt_of_le h.inited hg⟩

/-- How long to wait for what is missing. -/
def gapTimeout (t : GapCounter) : ℤ := if t.last < t.count then 1 else kWaitForSkippedTimeout

/-- An update of the past is dropped. -/
theorem updated_known {w : PtsWaiter U US} (h : w.Ready) {c : Call U US}
    (hk : c.pts ≤ w.good ∧ 0 < c.count) : w.updated c = (w, [], false) := by
  rw [updated, if_neg (by simp [h.requesting, h.level]), if_pos hk]

/-- **Any other update is counted**; it can be applied when the numbers agree or it moves nothing, and
is kept for later otherwise. -/
theorem updated_counted {w : PtsWaiter U US} (h : w.Ready) {c : Call U US}
    (hk : ¬ (c.pts ≤ w.good ∧ 0 < c.count)) :
    w.updated c =
      let t := w.counter.receive c.piece
      if t.last = t.count then (w.withCounter t, [], true)
      else
        let w' := { w.withCounter t with waitingForSkipped := true }
        let es := [.ptsWaiterStartTimerFor (gapTimeout t)]
        if c.count = 0 then (w', es, true)
        else ((w'.skip c).1, es ++ (w'.skip c).2, false) := by
  have hin : w.inited = true := by simpa [PtsWaiter.inited] using h.inited
  have ht : w.counter.receive c.piece =
      if max w.last c.pts = w.count + c.count then
        ⟨max w.last c.pts, max w.last c.pts, w.count + c.count⟩
      else ⟨w.good, max w.last c.pts, w.count + c.count⟩ := if_neg hk
  rw [updated, if_neg (by simp [h.requesting, h.level]), if_neg hk, ht]
  simp only [check, hin, Bool.not_true, Bool.false_eq_true, if_false]
  by_cases hfull : max w.last c.pts = w.count + c.count
  · simp only [hfull, if_true, withCounter]
  · have hms : (0 : ℤ) ≤ if max w.last c.pts < w.count + c.count then 1
        else kWaitForSkippedTimeout := by
      split_ifs <;> simp [kWaitForSkippedTimeout]
    simp only [hfull, if_false, setWaitingForSkipped, if_pos hms, withCounter, gapTimeout]
    by_cases hz : c.count = 0
    · simp only [hz, beq_self_eq_true, if_true]
    · simp only [beq_eq_false_iff_ne.mpr hz, if_neg hz]

end

/-- **The hand-over of the queue**: it happens when the waiter waits, it empties the queue, and every
entry is handed over in order. -/
theorem applySkippedUpdates_eq (reenter : ℕ → List (Call U US)) (depth : ℕ) {w : PtsWaiter U US}
    (h : w.waitingForSkipped = true) :
    w.applySkippedUpdates (updateAndApplyAt reenter depth) reenter =
      let w' := { w with waitingForSkipped := false }
      if w.queue.isEmpty then (w', w'.checkForWaiting)
      else (w'.clearSkippedUpdates, w'.checkForWaiting ++ w.queue.entries.flatMap fun e =>
        w.applySkipped e.1 e.2 :: (reenter e.1).flatMap fun c => applyNow c.payload) := by
  have hms : ¬ (0 : ℤ) ≤ -1 := by decide
  simp only [applySkippedUpdates, h, Bool.not_true, Bool.false_eq_true, if_false,
    setWaitingForSkipped, if_neg hms]
  split_ifs with hq
  · rfl
  · rw [applySkippedLoop_nested reenter
      (fun c => updateAndApplyAt_nested reenter depth (Nat.succ_ne_zero _) rfl c)]
    rfl

theorem applySkippedUpdates_idle (reenter : ℕ → List (Call U US)) (depth : ℕ) {w : PtsWaiter U US}
    (h : w.waitingForSkipped = false) :
    w.applySkippedUpdates (updateAndApplyAt reenter depth) reenter = (w, []) := by
  simp [applySkippedUpdates, h]

/-- The hand-over leaves the numbers and the readiness as they are. -/
theorem counter_applySkippedUpdates (reenter : ℕ → List (Call U US)) (depth : ℕ)
    (w : PtsWaiter U US) :
    (w.applySkippedUpdates (updateAndApplyAt reenter depth) reenter).1.counter = w.counter := by
  cases h : w.waitingForSkipped with
  | false => rw [applySkippedUpdates_idle reenter depth h]
  | true =>
    rw [applySkippedUpdates_eq reenter depth h]
    dsimp only
    split_ifs <;> rfl

theorem Ready.applySkippedUpdates {w : PtsWaiter U US} (hr : w.Ready)
    (reenter : ℕ → List (Call U US)) (depth : ℕ) :
    (w.applySkippedUpdates (updateAndApplyAt reenter depth) reenter).1.Ready := by
  cases h : w.waitingForSkipped with
  | false =>
    rw [applySkippedUpdates_idle reenter depth h]
    exact hr
  | true =>
    rw [applySkippedUpdates_eq reenter depth h]
    dsimp only
    split_ifs
    · exact ⟨hr.requesting, hr.level, hr.inited⟩
    · exact ⟨hr.requesting, rfl, hr.inited⟩

end PtsWaiter

end Yunogram
