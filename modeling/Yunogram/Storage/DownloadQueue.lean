import Mathlib
import Yunogram.Machinery.Rotate
import Yunogram.Machinery.Run

/-!
# Storage/DownloadQueue — the tasks of a download queue, in the order of their priorities

A task that is enqueued comes before all that have no higher priority, whether it was in the queue
or not; a task that was moves there by a rotation.  With the next generation the priority 0 of all
tasks becomes lower than that of tasks to come.  `currentPriority` is what the queue is for: which
tasks are in it, and of what priority.

`queue_in_order`: after any steps, none of which fails, the queue has just those tasks, each once,
the higher priorities first, and the task that was enqueued last first of its priority. -/

namespace Yunogram.Storage

open Machinery

/-- `Enqueued`. -/
structure Enqueued (Task : Type*) where
  task : Task
  priority : ℤ
  deriving DecidableEq

namespace DownloadQueue

variable {Task : Type*} [DecidableEq Task]

/-- What the end of `Queue::enqueue` does with the task at `i`, when the tasks that have no higher
priority start at `j`. -/
def place (j i : ℕ) (tasks : List (Enqueued Task)) : List (Enqueued Task) :=
  if j < i then rotate j i (i + 1) tasks
  else if i + 1 < j then rotate i (i + 1) j tasks
  else tasks

/-- `Queue::enqueue`. -/
def enqueue (tasks : List (Enqueued Task)) (task : Task) (priority : ℤ) : List (Enqueued Task) :=
  let position := tasks.findIdx (·.priority ≤ priority)
  let now := tasks.findIdx (·.task = task)
  if now < tasks.length then
    place position now (tasks.modify now fun enqueued => { enqueued with priority })
  else place position tasks.length (tasks ++ [⟨task, priority⟩])

/-- `Queue::remove`. -/
def remove (tasks : List (Enqueued Task)) (task : Task) : List (Enqueued Task) :=
  tasks.filter (·.task ≠ task)

/-- What may fail of a queue. -/
inductive Fault
  | assertion
  deriving DecidableEq

/-- The loop of `Queue::resetGeneration`. -/
def resetLoop : List (Enqueued Task) → Except Fault (List (Enqueued Task))
  | [] => .ok []
  | enqueued :: tasks =>
    if enqueued.priority ≠ 0 then
      if enqueued.priority = -1 then .ok (enqueued :: tasks) else .error .assertion
    else (resetLoop tasks).map ({ enqueued with priority := -1 } :: ·)

/-- `Queue::resetGeneration`. -/
def resetGeneration (tasks : List (Enqueued Task)) : Except Fault (List (Enqueued Task)) :=
  let start := tasks.findIdx (·.priority = 0)
  (resetLoop (tasks.drop start)).map (tasks.take start ++ ·)

/-- What is done with a queue; no priority that is given is negative. -/
inductive Step (Task : Type*)
  | enqueue (task : Task) (priority : ℕ)
  | remove (task : Task)
  | resetGeneration

/-- It is done. -/
def step (tasks : List (Enqueued Task)) :
    Step Task → Except Fault (List (Enqueued Task) × List Empty)
  | .enqueue task priority => .ok (enqueue tasks task priority, [])
  | .remove task => .ok (remove tasks task, [])
  | .resetGeneration => (resetGeneration tasks).map (·, [])

/-! ## What a queue is for -/

/-- **The priority of a task after some steps**, or none if it is not in the queue. -/
def currentPriority (task : Task) : List (Step Task) → Option ℤ :=
  List.foldl (fun current next =>
    match next with
    | .enqueue other priority => if other = task then some ↑priority else current
    | .remove other => if other = task then none else current
    | .resetGeneration => current.map fun priority => if priority = 0 then -1 else priority) none

/-- **A queue in order**: each task is there once, the higher priorities first, and none is lower
than those of the generations before. -/
structure InOrder (tasks : List (Enqueued Task)) : Prop where
  nodup : (tasks.map Enqueued.task).Nodup
  sorted : tasks.Pairwise fun a b => b.priority ≤ a.priority
  lowest : ∀ enqueued ∈ tasks, -1 ≤ enqueued.priority

/-- A task stands first of its priority. -/
def StandsFirst (tasks : List (Enqueued Task)) (task : Task) (priority : ℤ) : Prop :=
  ∃ front back, tasks = front ++ ⟨task, priority⟩ :: back ∧
    ∀ other ∈ front, priority < other.priority

variable {tasks front back high low : List (Enqueued Task)} {task : Task} {priority : ℤ}
  {x : Enqueued Task}

omit [DecidableEq Task] in
/-- **The task comes between those of a higher priority and the others**, when `j` is where these
start with it counted or not. -/
theorem place_eq {j : ℕ} (hsplit : front ++ back = high ++ low)
    (hj : j = high.length ∧ high.length ≤ front.length ∨
      j = high.length + 1 ∧ front.length ≤ high.length) :
    place j front.length (front ++ x :: back) = high ++ x :: low := by
  rcases lt_trichotomy high.length front.length with hlt | heq | hgt
  · obtain ⟨past, rfl, rfl⟩ := (List.append_eq_append_iff.mp hsplit).resolve_left (by
      rintro ⟨past, rfl, -⟩
      rw [List.length_append] at hlt
      omega)
    obtain rfl : j = high.length := by omega
    rw [place, if_pos hlt, List.length_append]
    exact rotate_back
  · obtain ⟨rfl, rfl⟩ := List.append_inj hsplit heq.symm
    rw [place, if_neg (by omega), if_neg (by omega)]
  · obtain ⟨past, rfl, rfl⟩ := (List.append_eq_append_iff.mp hsplit).resolve_right (by
      rintro ⟨past, rfl, -⟩
      rw [List.length_append] at hgt
      omega)
    rw [List.length_append] at hgt hj
    have hj' : j = front.length + 1 + past.length := by omega
    rw [place, if_neg (by omega), if_pos (by omega), hj']
    exact rotate_on

omit [DecidableEq Task] in
/-- Where the tasks that have no higher priority start. -/
theorem findIdx_priority (priority : ℤ) (tasks : List (Enqueued Task)) :
    tasks.findIdx (·.priority ≤ priority) = (tasks.takeWhile (priority < ·.priority)).length := by
  induction tasks with
  | nil => rfl
  | cons enqueued tasks ih =>
    rw [List.findIdx_cons, List.takeWhile_cons]
    by_cases hle : enqueued.priority ≤ priority
    · simp [hle, Int.not_lt.mpr hle]
    · simp [hle, Int.not_le.mp hle, ih]

theorem remove_eq_self (h : task ∉ tasks.map Enqueued.task) : remove tasks task = tasks := by
  refine List.filter_eq_self.mpr fun enqueued hin => decide_eq_true fun heq => h ?_
  exact List.mem_map.mpr ⟨enqueued, hin, heq⟩

/-- Where a task is found. -/
theorem findIdx_task (h : task ∉ front.map Enqueued.task) {old : ℤ} :
    (front ++ ⟨task, old⟩ :: back).findIdx (·.task = task) = front.length := by
  have hfront : front.findIdx (·.task = task) = front.length :=
    List.findIdx_eq_length_of_false fun enqueued hin => decide_eq_false fun heq =>
      h (List.mem_map.mpr ⟨enqueued, hin, heq⟩)
  rw [List.findIdx_append, hfront, if_neg (Nat.lt_irrefl _), List.findIdx_cons]
  simp

omit [DecidableEq Task] in
theorem modify_append (f : Enqueued Task → Enqueued Task) :
    (front ++ x :: back).modify front.length f = front ++ f x :: back := by
  induction front with
  | nil => rfl
  | cons a front ih => rw [List.cons_append, List.length_cons, List.modify_succ_cons, ih]; rfl

omit [DecidableEq Task] in
/-- Where the tasks of no higher priority start, with a task counted and without it. -/
theorem position_cases {old : ℤ} (hback : ∀ other ∈ back, other.priority ≤ old) :
    let j := (front ++ ⟨task, old⟩ :: back).findIdx (·.priority ≤ priority)
    let high := (front ++ back).takeWhile (priority < ·.priority)
    j = high.length ∧ high.length ≤ front.length ∨
      j = high.length + 1 ∧ front.length ≤ high.length := by
  intro j high
  have hj : j = _ := findIdx_priority priority (front ++ ⟨task, old⟩ :: back)
  rw [List.takeWhile_append] at hj
  have hhigh : high = _ := List.takeWhile_append
  rw [hj, hhigh]
  split_ifs with hfront
  · rw [List.length_append, List.length_append, List.takeWhile_cons]
    split_ifs with hold
    · rw [List.length_cons]
      omega
    · -- None of those behind the task is of a higher priority than it was.
      have hnone : back.takeWhile (priority < ·.priority) = [] := by
        rw [List.takeWhile_eq_nil_iff]
        intro hpos hlt
        have hle := hback _ (List.get_mem back ⟨0, hpos⟩)
        have hlt := of_decide_eq_true hlt
        have hold : ¬ priority < old := fun hnot => hold (decide_eq_true hnot)
        omega
      rw [hnone]
      exact Or.inl ⟨rfl, Nat.le_refl _⟩
  · exact Or.inl ⟨rfl, (List.takeWhile_prefix _).length_le⟩

/-- **A task that is enqueued comes right after those of a higher priority**, in what the queue has
without it. -/
theorem enqueue_eq (h : InOrder tasks) (task : Task) (priority : ℤ) :
    enqueue tasks task priority
      = (remove tasks task).takeWhile (priority < ·.priority) ++
        ⟨task, priority⟩ :: (remove tasks task).dropWhile (priority < ·.priority) := by
  by_cases hmem : task ∈ tasks.map Enqueued.task
  · obtain ⟨⟨task, old⟩, henqueued, rfl⟩ := List.mem_map.mp hmem
    obtain ⟨front, back, rfl⟩ := List.append_of_mem henqueued
    dsimp only at *
    have hnodup := h.nodup
    rw [List.map_append, List.map_cons, List.nodup_middle, List.nodup_cons, List.mem_append,
      not_or] at hnodup
    obtain ⟨⟨hfront, hbehind⟩, -⟩ := hnodup
    have hremove : remove (front ++ ⟨task, old⟩ :: back) task = front ++ back := by
      rw [remove, List.filter_append, List.filter_cons_of_neg (by simp)]
      exact congrArg₂ _ (remove_eq_self hfront) (remove_eq_self hbehind)
    have hback : ∀ other ∈ back, other.priority ≤ old :=
      (List.pairwise_cons.mp (List.pairwise_append.mp h.sorted).2.1).1
    rw [hremove, enqueue, findIdx_task hfront, if_pos (by simp), modify_append]
    exact place_eq (List.takeWhile_append_dropWhile).symm (position_cases hback)
  · have hlength : tasks.findIdx (·.task = task) = tasks.length :=
      List.findIdx_eq_length_of_false fun enqueued hin => decide_eq_false fun heq =>
        hmem (List.mem_map.mpr ⟨enqueued, hin, heq⟩)
    rw [remove_eq_self hmem, enqueue, hlength, if_neg (Nat.lt_irrefl _)]
    refine place_eq (by rw [List.append_nil, List.takeWhile_append_dropWhile]) (Or.inl ?_)
    exact ⟨findIdx_priority priority tasks, (List.takeWhile_prefix _).length_le⟩

/-! ## What the steps keep -/

/-- What the queue has once a task was enqueued. -/
theorem perm_enqueue (h : InOrder tasks) (task : Task) (priority : ℤ) :
    (enqueue tasks task priority).Perm (⟨task, priority⟩ :: remove tasks task) := by
  rw [enqueue_eq h]
  refine List.perm_middle.trans (List.Perm.cons _ ?_)
  rw [List.takeWhile_append_dropWhile]

theorem InOrder.remove (h : InOrder tasks) (task : Task) : InOrder (remove tasks task) where
  nodup := h.nodup.sublist (List.filter_sublist.map _)
  sorted := h.sorted.sublist List.filter_sublist
  lowest _ hmem := h.lowest _ (List.mem_filter.mp hmem).1

omit [DecidableEq Task] in
/-- In tasks in order, the first that has no higher priority is followed by no other that has. -/
theorem le_of_mem_dropWhile (priority : ℤ) (h : tasks.Pairwise fun a b => b.priority ≤ a.priority) :
    ∀ other ∈ tasks.dropWhile (priority < ·.priority), other.priority ≤ priority := by
  induction tasks with
  | nil => exact fun _ hmem => absurd hmem List.not_mem_nil
  | cons enqueued tasks ih =>
    obtain ⟨hhead, htail⟩ := List.pairwise_cons.mp h
    intro other hother
    rw [List.dropWhile_cons] at hother
    split_ifs at hother with hlt
    · exact ih htail other hother
    · have hle : enqueued.priority ≤ priority := Int.not_lt.mp fun hnot => hlt (decide_eq_true hnot)
      rcases List.mem_cons.mp hother with rfl | hother
      · exact hle
      · exact (hhead other hother).trans hle

/-- **Enqueueing keeps the order**, and the task stands first of its priority. -/
theorem InOrder.enqueue (h : InOrder tasks) (task : Task) (priority : ℤ)
    (hpriority : -1 ≤ priority) :
    InOrder (enqueue tasks task priority) ∧
      StandsFirst (DownloadQueue.enqueue tasks task priority) task priority := by
  have hremove := h.remove task
  have hperm := perm_enqueue h task priority
  have hhigh : ∀ other ∈ (DownloadQueue.remove tasks task).takeWhile (priority < ·.priority),
      priority < other.priority := fun other hother =>
    of_decide_eq_true (List.mem_takeWhile_imp (p := fun (other : Enqueued Task) =>
      decide (priority < other.priority)) hother)
  refine ⟨⟨?_, ?_, ?_⟩, _, _, enqueue_eq h task priority, hhigh⟩
  · refine (hperm.map _).nodup_iff.mpr (List.nodup_cons.mpr ⟨?_, hremove.nodup⟩)
    rintro hmem
    obtain ⟨other, hother, heq⟩ := List.mem_map.mp hmem
    exact of_decide_eq_true (List.mem_filter.mp hother).2 heq
  · have hlow := le_of_mem_dropWhile priority hremove.sorted
    rw [enqueue_eq h, List.pairwise_append, List.pairwise_cons]
    refine ⟨hremove.sorted.sublist (List.takeWhile_sublist _),
      ⟨hlow, hremove.sorted.sublist (List.dropWhile_sublist _)⟩, ?_⟩
    intro other hother next hnext
    rcases List.mem_cons.mp hnext with rfl | hnext
    · exact (hhigh other hother).le
    · exact (hlow next hnext).trans (hhigh other hother).le
  · intro other hother
    rcases List.mem_cons.mp (hperm.mem_iff.mp hother) with rfl | hother
    · exact hpriority
    · exact hremove.lowest other hother

/-- A task of the priority 0 gets a lower one. -/
def lowered (enqueued : Enqueued Task) : Enqueued Task :=
  if enqueued.priority = 0 then { enqueued with priority := -1 } else enqueued

omit [DecidableEq Task] in
@[simp] theorem lowered_task (enqueued : Enqueued Task) :
    (lowered enqueued).task = enqueued.task := by
  rw [lowered]
  split_ifs <;> rfl

omit [DecidableEq Task] in
@[simp] theorem lowered_priority (enqueued : Enqueued Task) :
    (lowered enqueued).priority = if enqueued.priority = 0 then -1 else enqueued.priority := by
  rw [lowered]
  split_ifs <;> rfl

omit [DecidableEq Task] in
theorem map_lowered (h : ∀ enqueued ∈ tasks, enqueued.priority ≠ 0) :
    tasks.map lowered = tasks := by
  refine (List.map_congr_left fun enqueued hmem => ?_).trans (List.map_id tasks)
  rw [lowered, if_neg (h enqueued hmem), id]

omit [DecidableEq Task] in
/-- **The assertion of the loop holds of tasks in order** that have no priority above 0. -/
theorem resetLoop_eq (hsorted : tasks.Pairwise fun a b => b.priority ≤ a.priority)
    (hrange : ∀ enqueued ∈ tasks, -1 ≤ enqueued.priority ∧ enqueued.priority ≤ 0) :
    resetLoop tasks = .ok (tasks.map lowered) := by
  induction tasks with
  | nil => rfl
  | cons enqueued tasks ih =>
    obtain ⟨hhead, htail⟩ := List.pairwise_cons.mp hsorted
    obtain ⟨hlow, hhigh⟩ := hrange enqueued List.mem_cons_self
    rw [resetLoop]
    split_ifs with hne hlowest
    · rw [map_lowered]
      intro other hother
      rcases List.mem_cons.mp hother with rfl | hother
      · exact hne
      · have hle := hhead other hother
        omega
    · omega
    · rw [ih htail fun other hother => hrange other (List.mem_cons_of_mem _ hother)]
      rw [List.map_cons, lowered, if_pos (not_not.mp hne)]
      rfl

omit [DecidableEq Task] in
/-- **The assertion of `resetGeneration` holds of a queue in order.** -/
theorem resetGeneration_eq (h : InOrder tasks) :
    resetGeneration tasks = .ok (tasks.map lowered) := by
  have hstart : ∀ enqueued ∈ tasks.take (tasks.findIdx (·.priority = 0)),
      enqueued.priority ≠ 0 := by
    intro enqueued hmem hzero
    obtain ⟨i, hi, rfl⟩ := List.getElem_of_mem hmem
    rw [List.length_take] at hi
    rw [List.getElem_take] at hzero
    have hnot := List.not_of_lt_findIdx (lt_of_lt_of_le hi (min_le_left _ _))
    exact absurd hzero (by simpa using hnot)
  have hsorted : (tasks.drop (tasks.findIdx (·.priority = 0))).Pairwise
      fun a b => b.priority ≤ a.priority := h.sorted.sublist (List.drop_sublist _ _)
  have hrange : ∀ enqueued ∈ tasks.drop (tasks.findIdx (·.priority = 0)),
      -1 ≤ enqueued.priority ∧ enqueued.priority ≤ 0 := by
    intro enqueued hmem
    refine ⟨h.lowest _ (List.mem_of_mem_drop hmem), ?_⟩
    have hlt : tasks.findIdx (·.priority = 0) < tasks.length := by
      refine Nat.lt_of_not_le fun hle => ?_
      rw [List.drop_of_length_le hle] at hmem
      exact absurd hmem List.not_mem_nil
    have hzero : tasks[tasks.findIdx (·.priority = 0)].priority = 0 :=
      of_decide_eq_true (List.findIdx_getElem (w := hlt))
    rw [List.drop_eq_getElem_cons hlt] at hmem hsorted
    rcases List.mem_cons.mp hmem with rfl | hmem
    · exact hzero.le
    · exact ((List.pairwise_cons.mp hsorted).1 enqueued hmem).trans hzero.le
  rw [resetGeneration, resetLoop_eq hsorted hrange]
  refine congrArg Except.ok ?_
  conv_rhs => rw [← List.take_append_drop (tasks.findIdx (·.priority = 0)) tasks]
  rw [List.map_append, map_lowered hstart]

omit [DecidableEq Task] in
/-- **The next generation keeps the order.** -/
theorem InOrder.lowered (h : InOrder tasks) : InOrder (tasks.map lowered) where
  nodup := by
    rw [List.map_map]
    exact (List.map_congr_left (fun enqueued _ => lowered_task enqueued)).symm ▸ h.nodup
  sorted := by
    refine List.pairwise_map.mpr (h.sorted.imp_of_mem fun {a b} ha hb hle => ?_)
    have hlow := h.lowest b hb
    rw [lowered_priority, lowered_priority]
    split_ifs <;> omega
  lowest := by
    intro enqueued hmem
    obtain ⟨other, hother, rfl⟩ := List.mem_map.mp hmem
    have hlow := h.lowest other hother
    rw [lowered_priority]
    split_ifs <;> omega

/-! ## Runs -/

theorem currentPriority_concat (task : Task) (steps : List (Step Task)) (next : Step Task) :
    currentPriority task (steps ++ [next]) = match next with
      | .enqueue other priority =>
        if other = task then some ↑priority else currentPriority task steps
      | .remove other => if other = task then none else currentPriority task steps
      | .resetGeneration => (currentPriority task steps).map fun priority =>
          if priority = 0 then -1 else priority := by
  rw [currentPriority, List.foldl_append]
  rfl

/-- The queue has the tasks that it is for, in order. -/
def Holds (steps : List (Step Task)) (tasks : List (Enqueued Task)) : Prop :=
  InOrder tasks ∧
    (∀ task priority, ⟨task, priority⟩ ∈ tasks ↔ currentPriority task steps = some priority) ∧
    ∀ before task (priority : ℕ), steps = before ++ [.enqueue task priority] →
      StandsFirst tasks task priority

theorem Holds.nil : Holds ([] : List (Step Task)) [] where
  left := ⟨List.nodup_nil, .nil, fun _ hmem => absurd hmem List.not_mem_nil⟩
  right := ⟨fun _ _ => iff_of_false List.not_mem_nil (Option.some_ne_none _).symm,
    fun _ _ _ heq => absurd heq (by simp)⟩

/-- **A step does not fail, and the queue stays what it is for.** -/
theorem Holds.step {steps : List (Step Task)} (h : Holds steps tasks) (next : Step Task) :
    ∃ tasks', step tasks next = .ok (tasks', []) ∧ Holds (steps ++ [next]) tasks' := by
  obtain ⟨horder, hmem, -⟩ := h
  have hlast : ∀ {before : List (Step Task)} {other : Step Task},
      steps ++ [next] = before ++ [other] → next = other := fun heq =>
    List.singleton_inj.mp (List.append_inj' heq rfl).2
  cases next with
  | enqueue task priority =>
    obtain ⟨horder', hfirst⟩ := horder.enqueue task priority (by omega)
    refine ⟨_, rfl, horder', fun other p => ?_, fun before other p heq => ?_⟩
    · rw [currentPriority_concat, (perm_enqueue horder task priority).mem_iff, List.mem_cons,
        remove, List.mem_filter, hmem, Enqueued.mk.injEq]
      by_cases heq : task = other
      · simp [heq, eq_comm]
      · simp [heq, Ne.symm heq]
    · obtain ⟨rfl, rfl⟩ := Step.enqueue.inj (hlast heq)
      exact hfirst
  | remove task =>
    refine ⟨_, rfl, horder.remove task, fun other p => ?_, fun before other p heq => ?_⟩
    · rw [currentPriority_concat, remove, List.mem_filter, hmem]
      by_cases heq : task = other
      · simp [heq]
      · simp [heq, Ne.symm heq]
    · exact nomatch hlast heq
  | resetGeneration =>
    refine ⟨tasks.map DownloadQueue.lowered, ?_, horder.lowered, fun other p => ?_,
      fun before other p heq => ?_⟩
    · rw [DownloadQueue.step, resetGeneration_eq horder]
      rfl
    · rw [currentPriority_concat, List.mem_map, Option.map_eq_some_iff]
      constructor
      · rintro ⟨⟨task, old⟩, hold, heq⟩
        have htask : task = other :=
          (lowered_task ⟨task, old⟩).symm.trans (congrArg Enqueued.task heq)
        have hpriority := (lowered_priority ⟨task, old⟩).symm.trans (congrArg Enqueued.priority heq)
        exact ⟨old, (hmem _ _).mp (htask ▸ hold), hpriority⟩
      · rintro ⟨old, hold, rfl⟩
        refine ⟨⟨other, old⟩, (hmem _ _).mpr hold, ?_⟩
        rw [DownloadQueue.lowered]
        split_ifs <;> rfl
    · exact nomatch hlast heq

/-- **Whatever is enqueued, removed and aged, no assertion fails, and the queue is in order**: it
has every task that was enqueued and not removed since, once, with its priority; the priorities do
not rise along it; and the task that was enqueued last stands first of its priority. -/
theorem queue_in_order (steps : List (Step Task)) :
    ∃ tasks, runChecked step [] steps = .ok (tasks, []) ∧
      (tasks.map Enqueued.task).Nodup ∧
      (∀ task priority, ⟨task, priority⟩ ∈ tasks ↔ currentPriority task steps = some priority) ∧
      (tasks.Pairwise fun a b => b.priority ≤ a.priority) ∧
      ∀ before task (priority : ℕ), steps = before ++ [.enqueue task priority] →
        StandsFirst tasks task priority := by
  obtain ⟨tasks, out, hrun, hout, horder, hmem, hfirst⟩ := runChecked_induction
    (fun steps tasks out => out = [] ∧ Holds steps tasks)
    ⟨rfl, Holds.nil⟩
    (fun steps tasks out next h => by
      obtain ⟨rfl, h⟩ := h
      obtain ⟨tasks', hstep, h'⟩ := h.step next
      exact ⟨tasks', [], hstep, rfl, h'⟩) steps
  subst hout
  exact ⟨tasks, hrun, horder.nodup, hmem, horder.sorted, hfirst⟩

end DownloadQueue

end Yunogram.Storage
