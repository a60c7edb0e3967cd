import Mathlib
import Yunogram.Machinery.FlatMap
import Yunogram.Machinery.Run

/-!
# Mtproto/ReceivedIds — which received messages are new

`ReceivedIdsManager` of `mtproto/details/mtproto_received_ids_manager.cpp` remembers the ids of the
messages that were received, and whether each needs an acknowledgement.  `shrink` forgets the
smallest ids beyond `kIdsBufferSize`.  A forgotten id is not found any more; it is refused because
it is below all that are remembered, and because as many are remembered as fit.

`accepted_once`: over any calls an id is accepted at most once, and never after it was forgotten.
-/

open Machinery

namespace Yunogram

namespace Mtproto

/-- `kIdsBufferSize`. -/
def kIdsBufferSize : ℕ := 400

/-- `ReceivedIdsManager`: each id received, and whether it needs an acknowledgement. -/
structure ReceivedIdsManager where
  idsNeedAck : FlatMap ℕ Bool

namespace ReceivedIdsManager

/-- `Result`. -/
inductive Result
  | success
  | duplicate
  | tooOld
  deriving DecidableEq

/-- `State`. -/
inductive State
  | notFound
  | needsAck
  | noAckNeeded
  deriving DecidableEq

/-- A manager to which nothing was registered. -/
def init : ReceivedIdsManager := ⟨.empty⟩

/-- `min`. -/
def min (manager : ReceivedIdsManager) : ℕ := (manager.idsNeedAck.keys.head?).getD 0

/-- `max`. -/
def max (manager : ReceivedIdsManager) : ℕ := (manager.idsNeedAck.keys.getLast?).getD 0

/-- `lookup`. -/
def lookup (manager : ReceivedIdsManager) (msgId : ℕ) : State :=
  match manager.idsNeedAck.find? msgId with
  | none => .notFound
  | some needAck => if needAck then .needsAck else .noAckNeeded

/-- `registerMsgId`. -/
def registerMsgId (manager : ReceivedIdsManager) (msgId : ℕ) (needAck : Bool) :
    ReceivedIdsManager × Result :=
  if (manager.idsNeedAck.find? msgId).isSome then (manager, .duplicate)
  else if manager.idsNeedAck.size < kIdsBufferSize ∨ manager.min < msgId then
    (⟨manager.idsNeedAck.emplace msgId needAck⟩, .success)
  else (manager, .tooOld)

/-- The loop of `shrink`, and the ids it erased. -/
def shrinkLoop : ℕ → FlatMap ℕ Bool → FlatMap ℕ Bool × List ℕ
  | 0, ids => (ids, [])
  | size + 1, ids =>
    if kIdsBufferSize < size + 1 then
      let erased := shrinkLoop size (ids.dropFront 1)
      (erased.1, ids.keys.take 1 ++ erased.2)
    else (ids, [])

/-- `shrink`. -/
def shrink (manager : ReceivedIdsManager) : ReceivedIdsManager × List ℕ :=
  let erased := shrinkLoop manager.idsNeedAck.size manager.idsNeedAck
  (⟨erased.1⟩, erased.2)

/-! ## Calls -/

/-- What is asked of a manager. -/
inductive Call
  | registerMsgId (msgId : ℕ) (needAck : Bool)
  | shrink

/-- What is seen of the calls: each answer, and each id that was forgotten. -/
inductive Event
  | answer (msgId : ℕ) (result : Result)
  | evicted (msgId : ℕ)
  deriving DecidableEq

/-- One call. -/
def step (manager : ReceivedIdsManager) : Call → ReceivedIdsManager × List Event
  | .registerMsgId msgId needAck =>
    let registered := manager.registerMsgId msgId needAck
    (registered.1, [.answer msgId registered.2])
  | .shrink => (manager.shrink.1, manager.shrink.2.map .evicted)

variable {manager : ReceivedIdsManager} {msgId : ℕ} {t : List Event}

/-- The loop erases what is beyond the size of the buffer. -/
theorem shrinkLoop_eq (size : ℕ) (ids : FlatMap ℕ Bool) :
    shrinkLoop size ids =
      (ids.dropFront (size - kIdsBufferSize), ids.keys.take (size - kIdsBufferSize)) := by
  induction size generalizing ids with
  | zero => rfl
  | succ size ih =>
    rw [shrinkLoop]
    split_ifs with h
    · have hsub : size + 1 - kIdsBufferSize = 1 + (size - kIdsBufferSize) := by omega
      rw [ih, hsub, List.take_add, FlatMap.keys_dropFront, FlatMap.dropFront_dropFront]
    · rw [Nat.sub_eq_zero_of_le (not_lt.mp h)]
      rfl

/-- **What `shrink` forgets is below what it keeps**, and it forgets only from a full buffer. -/
theorem mem_shrink {old : ℕ} (h : old ∈ manager.shrink.2) :
    kIdsBufferSize ≤ manager.shrink.1.idsNeedAck.size ∧ old ∈ manager.idsNeedAck.keys ∧
      ∀ kept ∈ manager.shrink.1.idsNeedAck.keys, old < kept := by
  rw [shrink, shrinkLoop_eq] at h ⊢
  dsimp only at h ⊢
  rw [FlatMap.size_dropFront, FlatMap.keys_dropFront]
  generalize hextra : manager.idsNeedAck.size - kIdsBufferSize = extra at h ⊢
  have hsorted := manager.idsNeedAck.sorted_keys
  rw [← List.take_append_drop extra manager.idsNeedAck.keys] at hsorted
  refine ⟨?_, List.mem_of_mem_take h, fun kept hkept => ?_⟩
  · have hpos : extra ≠ 0 := by
      rintro rfl
      exact nomatch h
    omega
  · exact (List.pairwise_append.mp hsorted).2.2 old h kept hkept

/-- What `shrink` keeps was stored, and what was stored is kept or forgotten. -/
theorem mem_keys_shrink :
    msgId ∈ manager.idsNeedAck.keys ↔
      msgId ∈ manager.shrink.2 ∨ msgId ∈ manager.shrink.1.idsNeedAck.keys := by
  rw [shrink, shrinkLoop_eq]
  dsimp only
  rw [← List.mem_append, FlatMap.keys_dropFront, List.take_append_drop]

theorem min_mem (h : 0 < manager.idsNeedAck.size) : manager.min ∈ manager.idsNeedAck.keys := by
  rw [min]
  have hlength : manager.idsNeedAck.keys.length = manager.idsNeedAck.size := List.length_map _
  cases hkeys : manager.idsNeedAck.keys with
  | nil =>
    rw [hkeys] at hlength
    exact absurd hlength.symm h.ne'
  | cons first rest => exact List.mem_cons_self

/-! ## The invariant -/

/-- Before `b` nothing was seen that forbids it: an id accepted or forgotten is not accepted again.
-/
def Allows (a b : Event) : Prop :=
  ∀ msgId, a = .answer msgId .success ∨ a = .evicted msgId → b ≠ .answer msgId .success

/-- **What any calls keep.**  An id accepted is stored or forgotten; where one was forgotten the
buffer is full, and only greater ids are in it. -/
structure Remembers (manager : ReceivedIdsManager) (t : List Event) : Prop where
  allows : t.Pairwise Allows
  stored : ∀ msgId, .answer msgId .success ∈ t →
    msgId ∈ manager.idsNeedAck.keys ∨ .evicted msgId ∈ t
  evicted : ∀ msgId, .evicted msgId ∈ t →
    kIdsBufferSize ≤ manager.idsNeedAck.size ∧ ∀ kept ∈ manager.idsNeedAck.keys, msgId < kept

/-- What was forgotten stays below a full buffer. -/
theorem Remembers.lt_min (h : Remembers manager t) (hevicted : .evicted msgId ∈ t) :
    ¬ (manager.idsNeedAck.size < kIdsBufferSize ∨ manager.min < msgId) := by
  obtain ⟨hsize, hbelow⟩ := h.evicted msgId hevicted
  have hpos : 0 < manager.idsNeedAck.size := by
    rw [kIdsBufferSize] at hsize
    omega
  have hmin := hbelow _ (min_mem hpos)
  omega

/-- **An id that was seen is refused.** -/
theorem Remembers.refused (h : Remembers manager t) (needAck : Bool)
    (hseen : .answer msgId .success ∈ t ∨ .evicted msgId ∈ t) :
    (manager.registerMsgId msgId needAck).2 ≠ .success := by
  rw [registerMsgId]
  split_ifs with hfound hnew
  · exact Result.noConfusion
  · have hevicted : .evicted msgId ∈ t := by
      rcases hseen with haccepted | hevicted
      · refine (h.stored msgId haccepted).resolve_left fun hkey => hfound ?_
        obtain ⟨_, hvalue⟩ := FlatMap.mem_keys.mp hkey
        rw [hvalue, Option.isSome_some]
      · exact hevicted
    exact absurd hnew (h.lt_min hevicted)
  · exact Result.noConfusion

/-- Registering an id keeps what was remembered. -/
theorem Remembers.registerMsgId (h : Remembers manager t) (msgId : ℕ) (needAck : Bool) :
    Remembers (manager.registerMsgId msgId needAck).1
      (t ++ [.answer msgId (manager.registerMsgId msgId needAck).2]) := by
  have hmem : ∀ id, id ∈ (manager.registerMsgId msgId needAck).1.idsNeedAck.keys ↔
      id ∈ manager.idsNeedAck.keys ∨
        id = msgId ∧ (manager.registerMsgId msgId needAck).2 = .success := by
    intro id
    rw [ReceivedIdsManager.registerMsgId]
    split_ifs with hfound hnew
    · simp
    · have hnone : manager.idsNeedAck.find? msgId = none := by simpa using hfound
      rw [FlatMap.mem_keys, FlatMap.mem_keys, FlatMap.find?_emplace_of_none hnone]
      by_cases hid : id = msgId <;> simp [hid]
    · simp
  refine ⟨List.pairwise_append.mpr ⟨h.allows, List.pairwise_singleton _ _, ?_⟩, ?_, ?_⟩
  · rintro a ha b hb id hid rfl
    obtain ⟨rfl, hresult⟩ := Event.answer.inj (List.mem_singleton.mp hb)
    exact h.refused needAck (hid.imp (· ▸ ha) (· ▸ ha)) hresult.symm
  · intro id hid
    rcases List.mem_append.mp hid with hid | hid
    · exact (h.stored id hid).imp (fun hkey => (hmem id).mpr (.inl hkey)) (List.mem_append_left _)
    · obtain ⟨rfl, hresult⟩ := Event.answer.inj (List.mem_singleton.mp hid)
      exact .inl ((hmem id).mpr (.inr ⟨rfl, hresult.symm⟩))
  · intro id hid
    have hid : .evicted id ∈ t := by simpa using hid
    obtain ⟨hsize, hbelow⟩ := h.evicted id hid
    have hrefused := h.lt_min hid
    rw [ReceivedIdsManager.registerMsgId]
    split_ifs with hfound hnew
    · exact ⟨hsize, hbelow⟩
    · have hnone : manager.idsNeedAck.find? msgId = none := by simpa using hfound
      refine ⟨hsize.trans ?_, fun kept hkept => ?_⟩
      · show _ ≤ (manager.idsNeedAck.emplace msgId needAck).size
        rw [FlatMap.size_emplace hnone]
        exact Nat.le_succ _
      · have hkept' := (hmem kept).mp ?_
        · rcases hkept' with hkept' | ⟨rfl, -⟩
          · exact hbelow kept hkept'
          · rcases hnew with hnew | hnew <;> omega
        · rwa [ReceivedIdsManager.registerMsgId, if_neg hfound, if_pos hnew]
    · exact ⟨hsize, hbelow⟩

/-- Forgetting the smallest ids keeps what was remembered. -/
theorem Remembers.shrink (h : Remembers manager t) :
    Remembers manager.shrink.1 (t ++ manager.shrink.2.map .evicted) := by
  refine ⟨List.pairwise_append.mpr ⟨h.allows, List.pairwise_map.mpr ?_, ?_⟩, ?_, ?_⟩
  · exact List.pairwise_of_forall fun _ _ _ _ => Event.noConfusion
  · rintro a - b hb id - rfl
    obtain ⟨_, -, hevent⟩ := List.mem_map.mp hb
    exact Event.noConfusion hevent
  · intro id hid
    have hid : .answer id .success ∈ t := by simpa using hid
    rcases h.stored id hid with hkey | hevicted
    · rcases mem_keys_shrink.mp hkey with hold | hkept
      · exact .inr (List.mem_append_right _ (List.mem_map_of_mem hold))
      · exact .inl hkept
    · exact .inr (List.mem_append_left _ hevicted)
  · intro id hid
    rcases List.mem_append.mp hid with hid | hid
    · obtain ⟨hsize, hbelow⟩ := h.evicted id hid
      refine ⟨?_, fun kept hkept => hbelow kept (mem_keys_shrink.mpr (.inr hkept))⟩
      rw [ReceivedIdsManager.shrink, shrinkLoop_eq, FlatMap.size_dropFront]
      omega
    · obtain ⟨old, hold, hevent⟩ := List.mem_map.mp hid
      obtain rfl := Event.evicted.inj hevent
      obtain ⟨hsize, -, hbelow⟩ := mem_shrink hold
      exact ⟨hsize, hbelow⟩

/-- One call keeps what was remembered. -/
theorem Remembers.step (h : Remembers manager t) (call : Call) :
    Remembers (step manager call).1 (t ++ (step manager call).2) := by
  cases call with
  | registerMsgId msgId needAck => exact h.registerMsgId msgId needAck
  | shrink => exact h.shrink

/-- Any calls keep what was remembered. -/
theorem remembers_run (calls : List Call) :
    Remembers (run step init calls).1 (run step init calls).2 := by
  have hany : Guarded step (fun _ _ _ => True) init calls := fun _ _ _ _ => trivial
  exact run_induction (fun _ manager t => Remembers manager t)
    ⟨List.Pairwise.nil, (fun _ h => nomatch h), (fun _ h => nomatch h)⟩
    (fun _ manager t call h _ => h.step call) hany

/-- **Each id is accepted once.**  Whatever is registered and however often the manager shrinks, an
id is answered `success` at most once, and what is asked of a forgotten id is answered `tooOld` or
`duplicate`. -/
theorem accepted_once (calls : List Call) :
    (∀ msgId, (run step init calls).2.count (.answer msgId .success) ≤ 1) ∧
      ∀ msgId before after, (run step init calls).2 = before ++ .evicted msgId :: after →
        ∀ result, .answer msgId result ∈ after → result = .tooOld ∨ result = .duplicate := by
  have h := remembers_run calls
  refine ⟨fun msgId => ?_, fun msgId before after heq result hresult => ?_⟩
  · by_contra htwo
    have hsub := List.replicate_sublist_iff.mpr (not_le.mp htwo)
    have htwice : (List.replicate 2 (Event.answer msgId .success)).Pairwise Allows :=
      h.allows.sublist hsub
    exact (List.pairwise_cons.mp htwice).1 _ List.mem_cons_self msgId (.inl rfl) rfl
  · have hallows := h.allows
    rw [heq] at hallows
    have hafter := (List.pairwise_cons.mp (List.pairwise_append.mp hallows).2.1).1 _ hresult msgId
      (.inr rfl)
    cases result with
    | success => exact absurd rfl hafter
    | duplicate => exact .inr rfl
    | tooOld => exact .inl rfl

end ReceivedIdsManager

end Mtproto

end Yunogram
