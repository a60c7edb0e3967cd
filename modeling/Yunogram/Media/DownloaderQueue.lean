import Yunogram.Machinery.Ascending
import Yunogram.Media.CacheEntry

/-!
# Media/DownloaderQueue — the offsets a downloader waits for

What a downloader asks a `Reader` for comes in batches and is kept in `_offsetsForDownloader`, from
which the offsets that are available or done are taken.  An offset that is not above the one before
it means that the downloader was changed, and what was asked for before is forgotten.  But this is
looked for only behind the end of what was kept, and only once; in a batch that comes when nothing
is kept it is not looked for at all, since the batch was moved away before its size was taken.

`offsets_ascend`: the offsets ascend in all states, with all of the batch that came last, exactly
when each batch ascends, or joins what is kept. -/

namespace Yunogram.Media.Streaming

open Machinery

/-- The part of a `Reader` that works for a downloader. -/
structure DownloaderQueue where
  offsets : List ℕ
  readCache : FlatMap ℕ (Option PartsMap)
  acks : List ℕ

namespace DownloaderQueue

/-- Nothing was asked for. -/
def empty : DownloaderQueue := ⟨[], .empty, []⟩

variable (queue : DownloaderQueue)

/-- `Reader::checkForDownloaderChange`. -/
def checkForDownloaderChange (checkItemsCount : ℕ) : DownloaderQueue :=
  match afterDescent (queue.offsets.drop (queue.offsets.length - checkItemsCount)) with
  | none => queue
  | some offsets => ⟨offsets, .empty, []⟩

/-- `Reader::enqueueDownloaderOffsets`, with what it takes.  No items are checked of a batch that
was moved away. -/
def enqueueDownloaderOffsets (offsets : List ℕ) : DownloaderQueue :=
  if offsets = [] then queue
  else if queue.offsets ≠ [] then
    { queue with offsets := queue.offsets ++ offsets }.checkForDownloaderChange (offsets.length + 1)
  else { queue with offsets }.checkForDownloaderChange 0

/-- `Reader::checkForDownloaderReadyOffsets`, of the offsets that are available. -/
def checkForDownloaderReadyOffsets (available : ℕ → Bool) : DownloaderQueue :=
  { queue with offsets := queue.offsets.dropWhile available }

/-- `Reader::doneForDownloader`. -/
def doneForDownloader (offset : ℕ) : DownloaderQueue :=
  { queue with acks := queue.acks ++ [offset] }

/-- `Reader::pruneDoneDownloaderRequests`. -/
def pruneDoneDownloaderRequests : DownloaderQueue :=
  { queue with offsets := queue.acks.foldl List.erase queue.offsets, acks := [] }

/-- What happens to the offsets. -/
inductive Step
  | enqueue (offsets : List ℕ)
  | ready (available : ℕ → Bool)
  | done (offset : ℕ)
  | prune

/-- It happens. -/
def step (queue : DownloaderQueue) : Step → DownloaderQueue
  | .enqueue offsets => queue.enqueueDownloaderOffsets offsets
  | .ready available => queue.checkForDownloaderReadyOffsets available
  | .done offset => queue.doneForDownloader offset
  | .prune => queue.pruneDoneDownloaderRequests

/-- What is kept after some steps. -/
def after (steps : List Step) : DownloaderQueue := steps.foldl step empty

/-! ## One batch -/

/-- **A batch was put to the offsets**: they ascend, and all of the batch is there. -/
def Kept (batch : List ℕ) : Prop := Ascending queue.offsets ∧ batch ⊆ queue.offsets

/-- **A batch joins what is kept**: where nothing is kept it ascends, else what of it continues the
offsets comes once more in what follows, and that ascends. -/
def Joins (offsets batch : List ℕ) : Prop :=
  if offsets = [] then Ascending batch
  else ∃ front back, batch = front ++ back ∧ Ascending (offsets ++ front) ∧ Ascending back ∧
    front ⊆ back

variable {queue}

theorem checkForDownloaderChange_offsets (n : ℕ) :
    (queue.checkForDownloaderChange n).offsets =
      (afterDescent (queue.offsets.drop (queue.offsets.length - n))).getD queue.offsets := by
  rw [checkForDownloaderChange]
  split <;> rename_i heq <;> rw [heq] <;> rfl

/-- What is kept of a batch that comes when there are offsets. -/
theorem enqueue_offsets {front batch : List ℕ} {last : ℕ}
    (hoffsets : queue.offsets = front ++ [last]) (hbatch : batch ≠ []) :
    (queue.enqueueDownloaderOffsets batch).offsets =
      (afterDescent (last :: batch)).getD (queue.offsets ++ batch) := by
  have hne : queue.offsets ≠ [] := by simp [hoffsets]
  have hdrop : (queue.offsets ++ batch).drop
      ((queue.offsets ++ batch).length - (batch.length + 1)) = last :: batch := by
    rw [hoffsets, List.append_assoc, List.singleton_append]
    refine List.drop_left' ?_
    simp
  rw [enqueueDownloaderOffsets, if_neg hbatch, if_pos hne, checkForDownloaderChange_offsets, hdrop]

/-- **A batch is put to ascending offsets exactly when it joins them.** -/
theorem enqueue_kept (h : Ascending queue.offsets) (batch : List ℕ) :
    (queue.enqueueDownloaderOffsets batch).Kept batch ↔ Joins queue.offsets batch := by
  by_cases hbatch : batch = []
  · subst hbatch
    rw [enqueueDownloaderOffsets, if_pos rfl]
    refine iff_of_true ⟨h, List.nil_subset _⟩ ?_
    rw [Joins]
    split_ifs with hoffsets
    · exact .nil
    · exact ⟨[], [], rfl, by rwa [List.append_nil], .nil, List.nil_subset _⟩
  by_cases hoffsets : queue.offsets = []
  · rw [Joins, if_pos hoffsets, Kept, enqueueDownloaderOffsets, if_neg hbatch,
      if_neg (not_not.mpr hoffsets), checkForDownloaderChange_offsets]
    simp [afterDescent]
  · obtain ⟨kept, last, hconcat⟩ := (List.eq_nil_or_concat queue.offsets).resolve_left hoffsets
    have hlast : queue.offsets = kept ++ [last] := by rw [hconcat, List.concat_eq_append]
    have hjoin : ∀ more, Ascending (queue.offsets ++ more) ↔ Ascending (last :: more) := by
      intro more
      rw [hlast, List.append_assoc, List.singleton_append, Ascending, List.isChain_split]
      exact and_iff_right (hlast ▸ h)
    rw [Joins, if_neg hoffsets, Kept, enqueue_offsets hlast hbatch]
    cases hdescent : afterDescent (last :: batch) with
    | none =>
      have hascending := afterDescent_eq_none.mp hdescent
      exact iff_of_true ⟨(hjoin batch).mpr hascending, List.subset_append_right _ _⟩
        ⟨[], batch, rfl, by rwa [List.append_nil], hascending.tail, List.nil_subset _⟩
    | some rest =>
      obtain ⟨front, a, b, back, hsplit, rfl, hle, hfront⟩ := afterDescent_eq_some.mp hdescent
      rw [Option.getD_some]
      rcases front with _ | ⟨c, front⟩
      · -- The batch starts below what is kept, so it is all that is kept.
        obtain ⟨rfl, rfl⟩ := List.cons.inj hsplit
        constructor
        · rintro ⟨hascending, -⟩
          exact ⟨[], _, rfl, by rwa [List.append_nil], hascending, List.nil_subset _⟩
        · rintro ⟨front', back', hbatch', hfront', hback', -⟩
          rcases front' with _ | ⟨d, front'⟩
          · exact ⟨hbatch' ▸ hback', List.Subset.refl _⟩
          · obtain ⟨rfl, -⟩ := List.cons.inj hbatch'
            have hlt := (List.isChain_cons_cons.mp ((hjoin _).mp hfront')).1
            exact absurd hlt (not_lt.mpr hle)
      · -- It continues what is kept, and then starts again.
        rw [List.cons_append, List.cons.injEq] at hsplit
        obtain ⟨rfl, rfl⟩ := hsplit
        constructor
        · rintro ⟨hascending, hsubset⟩
          refine ⟨front ++ [a], b :: back, by simp, (hjoin _).mpr hfront, hascending, ?_⟩
          exact fun x hx => hsubset (by
            rcases List.mem_append.mp hx with hx | hx
            · exact List.mem_append_left _ hx
            · exact List.mem_append_right _ (List.mem_singleton.mp hx ▸ List.mem_cons_self))
        · rintro ⟨front', back', hbatch', hfront', hback', hsubset⟩
          obtain rfl := eq_of_descent hle hbatch' ((hjoin _).mp hfront').tail hback'
          rw [List.append_assoc, List.append_cancel_left_eq, List.singleton_append,
            List.cons.injEq] at hbatch'
          obtain rfl := hbatch'.2
          refine ⟨hback', fun x hx => ?_⟩
          rw [List.append_cons] at hx
          exact (List.mem_append.mp hx).elim (hsubset ·) id

/-! ## Runs -/

theorem after_concat (steps : List Step) (next : Step) :
    after (steps ++ [next]) = (after steps).step next := by
  rw [after, List.foldl_append]
  rfl

/-- Taking offsets leaves what ascends. -/
theorem taken_ascending (h : Ascending queue.offsets) (next : Step)
    (hnext : ∀ batch, next ≠ .enqueue batch) : Ascending (queue.step next).offsets := by
  cases next with
  | enqueue batch => exact absurd rfl (hnext batch)
  | ready available => exact h.sublist (List.dropWhile_sublist available)
  | done offset => exact h
  | prune =>
    have hsub : ∀ (acks offsets : List ℕ), (acks.foldl List.erase offsets).Sublist offsets := by
      intro acks
      induction acks with
      | nil => exact fun offsets => List.Sublist.refl _
      | cons ack acks ih => exact fun offsets => (ih _).trans List.erase_sublist
    exact h.sublist (hsub _ _)

/-- **The offsets ascend in every state exactly when each batch joins them.**  Then all of a batch
is there after it came. -/
theorem offsets_ascend (steps : List Step) :
    (∀ front, front <+: steps → Ascending (after front).offsets ∧
      ∀ before batch, front = before ++ [.enqueue batch] → batch ⊆ (after front).offsets) ↔
    ∀ before batch, before ++ [.enqueue batch] <+: steps → Joins (after before).offsets batch := by
  constructor
  · intro h before batch hprefix
    have hbefore := (h before ((List.prefix_append _ _).trans hprefix)).1
    obtain ⟨hascending, hsubset⟩ := h _ hprefix
    have hkept : ((after before).enqueueDownloaderOffsets batch).Kept batch := by
      rw [after_concat] at hascending hsubset
      exact ⟨hascending, hsubset before batch rfl⟩
    exact (enqueue_kept hbefore batch).mp hkept
  · intro h
    have hascending : ∀ front, front <+: steps → Ascending (after front).offsets := by
      intro front
      induction front using List.reverseRecOn with
      | nil => exact fun _ => .nil
      | append_singleton front next ih =>
        intro hprefix
        have hfront := ih ((List.prefix_append _ _).trans hprefix)
        rw [after_concat]
        cases next with
        | enqueue batch => exact ((enqueue_kept hfront batch).mpr (h front batch hprefix)).1
        | ready available => exact taken_ascending hfront _ fun batch => Step.noConfusion
        | done offset => exact taken_ascending hfront _ fun batch => Step.noConfusion
        | prune => exact taken_ascending hfront _ fun batch => Step.noConfusion
    refine fun front hprefix => ⟨hascending front hprefix, ?_⟩
    rintro before batch rfl
    have hbefore := hascending before ((List.prefix_append _ _).trans hprefix)
    rw [after_concat]
    exact ((enqueue_kept hbefore batch).mpr (h before batch hprefix)).2

/-- **The first batch may descend**: nothing is kept, so it is not looked at. -/
theorem first_batch_descends :
    ¬ Ascending (after [.enqueue [262144, 131072]]).offsets := by
  have hempty : ¬ (empty.offsets ≠ []) := not_not.mpr rfl
  have hoffsets : (after [.enqueue [262144, 131072]]).offsets = [262144, 131072] := by
    rw [after, List.foldl_cons, List.foldl_nil, step, enqueueDownloaderOffsets,
      if_neg (List.cons_ne_nil _ _), if_neg hempty, checkForDownloaderChange_offsets]
    rfl
  rw [hoffsets]
  decide

end DownloaderQueue

end Yunogram.Media.Streaming
