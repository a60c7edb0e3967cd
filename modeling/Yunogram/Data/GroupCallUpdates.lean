import Mathlib
import Yunogram.Machinery.FlatMultiMap
import Yunogram.Machinery.Run

/-!
# Data/GroupCallUpdates — how a group call takes an update

A group call applies an update when its version is the one that the update requires, queues it when
the update requires a greater one, and drops it otherwise.  While it applies an update others may
arrive, and those are never applied at once.

What becomes of an update depends on its key only (`enqueued_eq`), and so does when its turn comes:
the queue is sorted by keys, and a greater key does not require a lesser version (`required_mono`).
-/

open Machinery

namespace Yunogram

/-- `GroupCall::QueuedType`. -/
inductive QueuedType
  | versionedParticipant
  | participant
  | call
  deriving DecidableEq

/-- The value of the enumeration. -/
def QueuedType.toNat : QueuedType → ℕ
  | versionedParticipant => 0
  | participant => 1
  | call => 2

instance : LinearOrder QueuedType :=
  LinearOrder.lift' QueuedType.toNat fun a b => by cases a <;> cases b <;> simp [QueuedType.toNat]

/-- What updates are queued by. -/
abbrev QueuedKey := ℤ ×ₗ QueuedType

/-- `MTPDgroupCallParticipant`, with `Participant` for what is only applied. -/
structure GroupCallParticipant (Participant : Type) where
  isVersioned : Bool
  data : Participant

/-- The updates that `GroupCall::enqueueUpdate` takes, with `Call` for what is only applied. -/
inductive GroupCallUpdate (Call Participant : Type)
  | groupCall (version : ℤ) (data : Call)
  | groupCallDiscarded
  | groupCallParticipants (version : ℤ) (participants : List (GroupCallParticipant Participant))

/-- The part of `GroupCall` that updates are enqueued by. -/
structure GroupCall (Call Participant : Type) where
  version : ℤ
  queuedUpdates : FlatMultiMap QueuedKey (GroupCallUpdate Call Participant)
  applyingQueuedUpdates : Bool
  reloadByQueuedUpdatesTimer : Bool

/-- What happens to a group call. -/
inductive GroupCallEvent (Call Participant : Type)
  | arrives (update : GroupCallUpdate Call Participant)
  | discards
  | applies (version : ℤ) (update : GroupCallUpdate Call Participant)

/-- What becomes of an update that arrives. -/
inductive Enqueued
  | applied
  | queued (key : QueuedKey)
  | discards
  | dropped

variable {Call Participant : Type}

/-- Whether a participant of an update is versioned. -/
def increments (participants : List (GroupCallParticipant Participant)) : Bool :=
  participants.any GroupCallParticipant.isVersioned

/-- The version after an update is applied. -/
def GroupCallUpdate.appliedVersion (version : ℤ) : GroupCallUpdate Call Participant → ℤ
  | groupCall version _ => if version = 0 then 1 else version
  | groupCallDiscarded => version
  | groupCallParticipants version _ => if version = 0 then 1 else version

namespace GroupCall

variable (s : GroupCall Call Participant)

/-- The branches of `GroupCall::enqueueUpdate`.  What arrives while a call is discarded is an
arrival before it. -/
def enqueued : GroupCallUpdate Call Participant → Enqueued
  | .groupCall version _ =>
    if s.applyingQueuedUpdates = false ∧ (s.version = 0 ∨ s.version = version) then .applied
    else if s.version = 0 ∨ s.version ≤ version then .queued (toLex (version, .call))
    else .dropped
  | .groupCallDiscarded => .discards
  | .groupCallParticipants version participants =>
    let required := if increments participants then version - 1 else version
    if s.applyingQueuedUpdates = false ∧ s.version = required then .applied
    else if s.version ≤ required then
      .queued (toLex (version,
        if increments participants then .versionedParticipant else .participant))
    else .dropped

/-- An update is put into `_queuedUpdates`. -/
def queue (key : QueuedKey) (update : GroupCallUpdate Call Participant) :
    GroupCall Call Participant :=
  { s with queuedUpdates := s.queuedUpdates.emplace key update }

/-- `GroupCall::enqueueUpdate` while an update is applied: then `processQueuedUpdates` does nothing.
-/
def enqueueWhileApplying (update : GroupCallUpdate Call Participant) :
    GroupCall Call Participant × List (GroupCallEvent Call Participant) :=
  match s.enqueued update with
  | .queued key => (s.queue key update, [.arrives update])
  | .discards => (s, [.arrives update, .discards])
  | _ => (s, [.arrives update])

/-- `GroupCall::applyEnqueuedUpdate`, and what arrives meanwhile. -/
def applyEnqueuedUpdate (update : GroupCallUpdate Call Participant)
    (meanwhile : List (GroupCallUpdate Call Participant)) :
    GroupCall Call Participant × List (GroupCallEvent Call Participant) :=
  let r := run enqueueWhileApplying
    { s with version := update.appliedVersion s.version, applyingQueuedUpdates := true } meanwhile
  ({ r.1 with applyingQueuedUpdates := false }, .applies s.version update :: r.2)

theorem size_enqueueWhileApplying (update : GroupCallUpdate Call Participant) :
    (s.enqueueWhileApplying update).1.queuedUpdates.size ≤ s.queuedUpdates.size + 1 := by
  unfold enqueueWhileApplying
  split
  · exact FlatMultiMap.size_emplace.le
  · exact Nat.le_succ _
  · exact Nat.le_succ _

theorem size_run (updates : List (GroupCallUpdate Call Participant)) :
    (run enqueueWhileApplying s updates).1.queuedUpdates.size
      ≤ s.queuedUpdates.size + updates.length := by
  induction updates generalizing s with
  | nil => exact le_refl _
  | cons update updates ih =>
    rw [run_cons, List.length_cons, Nat.add_comm _ 1, ← Nat.add_assoc]
    exact (ih _).trans (Nat.add_le_add_right (s.size_enqueueWhileApplying update) _)

/-- The loop of `GroupCall::processQueuedUpdates`, and what arrives while each update is applied. -/
def processFront (initial : Bool) (s : GroupCall Call Participant)
    (meanwhile : List (List (GroupCallUpdate Call Participant))) :
    GroupCall Call Participant × List (GroupCallEvent Call Participant) :=
  match _hfront : s.queuedUpdates.front? with
  | none => (s, [])
  | some (key, update) =>
    let version := (ofLex key).1
    let incremented := (ofLex key).2 = .versionedParticipant
    let rest := { s with queuedUpdates := s.queuedUpdates.popFront }
    if version < s.version ∨ version = s.version ∧ incremented ∧ initial = false then
      processFront initial rest meanwhile
    else if version = s.version ∨ version = s.version + 1 ∧ incremented then
      let r := rest.applyEnqueuedUpdate update (meanwhile.headD [])
      let p := processFront initial r.1 meanwhile.tail
      (p.1, r.2 ++ p.2)
    else (s, [])
  termination_by s.queuedUpdates.size + (meanwhile.map List.length).sum
  decreasing_by
    all_goals have hsize := FlatMultiMap.size_popFront _hfront
    · exact Nat.add_lt_add_right (hsize ▸ Nat.lt_succ_self _) _
    · have hrun := size_run { rest with
        version := update.appliedVersion s.version, applyingQueuedUpdates := true }
        (meanwhile.headD [])
      have hsum : (meanwhile.map List.length).sum
          = (meanwhile.headD []).length + (meanwhile.tail.map List.length).sum := by
        cases meanwhile <;> rfl
      refine Nat.lt_of_le_of_lt (Nat.add_le_add_right hrun _) ?_
      rw [hsum, ← Nat.add_assoc, ← hsize]
      exact Nat.add_lt_add_right (Nat.add_lt_add_right (Nat.lt_succ_self _) _) _

/-- `GroupCall::processQueuedUpdates`. -/
def processQueuedUpdates (initial : Bool)
    (meanwhile : List (List (GroupCallUpdate Call Participant))) :
    GroupCall Call Participant × List (GroupCallEvent Call Participant) :=
  if s.version = 0 ∨ s.applyingQueuedUpdates = true then (s, [])
  else
    let p := processFront initial s meanwhile
    ({ p.1 with reloadByQueuedUpdatesTimer := p.1.queuedUpdates.front?.isSome }, p.2)

/-- `GroupCall::enqueueUpdate`, and what arrives while each update is applied. -/
def enqueueUpdate (update : GroupCallUpdate Call Participant)
    (meanwhile : List (List (GroupCallUpdate Call Participant))) :
    GroupCall Call Participant × List (GroupCallEvent Call Participant) :=
  let initial := decide (s.version = 0)
  match s.enqueued update with
  | .applied =>
    let r := s.applyEnqueuedUpdate update (meanwhile.headD [])
    let p := r.1.processQueuedUpdates initial meanwhile.tail
    (p.1, .arrives update :: r.2 ++ p.2)
  | .queued key =>
    let p := (s.queue key update).processQueuedUpdates initial meanwhile
    (p.1, .arrives update :: p.2)
  | .discards =>
    let p := s.processQueuedUpdates initial meanwhile
    (p.1, .arrives update :: .discards :: p.2)
  | .dropped =>
    let p := s.processQueuedUpdates initial meanwhile
    (p.1, .arrives update :: p.2)

end GroupCall

/-! ## When the turn of an update comes -/

/-- The version that an update with this key requires. -/
def QueuedKey.required (key : QueuedKey) : ℤ :=
  if (ofLex key).2 = .versionedParticipant then (ofLex key).1 - 1 else (ofLex key).1

/-- The key of an update, if it is not that the call is discarded. -/
def GroupCallUpdate.key : GroupCallUpdate Call Participant → Option QueuedKey
  | groupCall version _ => some (toLex (version, .call))
  | groupCallDiscarded => none
  | groupCallParticipants version participants =>
    some (toLex (version,
      if increments participants then .versionedParticipant else .participant))

/-- **What is queued behind an update does not require a lesser version.** -/
theorem QueuedKey.required_mono {k k' : QueuedKey} (h : k ≤ k') : k.required ≤ k'.required := by
  obtain ⟨v, t⟩ := k
  obtain ⟨v', t'⟩ := k'
  unfold required
  rcases (Prod.Lex.le_iff ..).mp h with hlt | ⟨heq, hle⟩
  · have hv : v < v' := hlt
    show (if t = _ then v - 1 else v) ≤ if t' = _ then v' - 1 else v'
    split_ifs <;> omega
  · have hv : v = v' := heq
    have ht : t.toNat ≤ t'.toNat := hle
    show (if t = _ then v - 1 else v) ≤ if t' = _ then v' - 1 else v'
    rw [hv]
    cases t <;> cases t' <;> simp [QueuedType.toNat] at ht ⊢ <;> omega

namespace GroupCall

variable {s : GroupCall Call Participant} {update : GroupCallUpdate Call Participant}
  {key : QueuedKey}

/-- **What becomes of an update is decided by the version that it requires.** -/
theorem enqueued_eq (h : s.version ≠ 0) (hkey : update.key = some key) :
    s.enqueued update =
      if s.applyingQueuedUpdates = false ∧ s.version = key.required then .applied
      else if s.version ≤ key.required then .queued key else .dropped := by
  cases update with
  | groupCall version data =>
    obtain rfl := Option.some.inj hkey
    simp [enqueued, QueuedKey.required, h]
  | groupCallDiscarded => exact absurd hkey (by simp [GroupCallUpdate.key])
  | groupCallParticipants version participants =>
    obtain rfl := Option.some.inj hkey
    unfold enqueued QueuedKey.required
    dsimp only
    generalize increments participants = incremented
    cases incremented <;> simp

theorem enqueued_of_key_none (hkey : update.key = none) : s.enqueued update = .discards := by
  cases update with
  | groupCall | groupCallParticipants => exact absurd hkey (by simp [GroupCallUpdate.key])
  | groupCallDiscarded => rfl

/-- **The version moves to that of an update whose turn has come.** -/
theorem appliedVersion_eq {version : ℤ} (h : 0 < version) (hkey : update.key = some key)
    (hturn : key.required = version) : update.appliedVersion version = (ofLex key).1 := by
  cases update with
  | groupCall v data =>
    obtain rfl := Option.some.inj hkey
    have hv : v = version := hturn
    exact if_neg (by omega)
  | groupCallDiscarded => exact absurd hkey (by simp [GroupCallUpdate.key])
  | groupCallParticipants v participants =>
    obtain rfl := Option.some.inj hkey
    refine if_neg fun hv => ?_
    have hv : v = 0 := hv
    rw [← hturn, hv, QueuedKey.required] at h
    dsimp only [ofLex_toLex] at h
    split_ifs at h <;> omega

end GroupCall

end Yunogram
