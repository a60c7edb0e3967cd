import Mathlib
import Yunogram.Data.PtsCurrent

/-!
# Data/PtsGap — when the queue of early updates is handed over

An update that arrives over a gap is queued.  The queue is handed over when `check` finds the sums
equal — and also when an update of count 0 arrives, for which `check` answers "apply now" whatever is
missing, or when an update counted twice makes the sums agree too soon.  `in_order` is the discipline
in the runs where neither happens: everything below a queued update was received before it is handed
over, each queued update is handed over once, and in the order of `pts`.

A call `accounts` (`Accounts`) for the queue: what it queues and what waited before is what it hands
over and what waits after.
-/

open Machinery

namespace Yunogram

/-! ## Queue keys -/

namespace PtsWaiter

theorem keyPts_queueKey {pts : ℤ} (h0 : 0 ≤ pts) (h : IsInt32 pts) {s : ℕ} (hs : s < 2 ^ 32) :
    keyPts (queueKey pts s) = pts := by
  have hmod : pts % 2 ^ 32 = pts := Int.emod_eq_of_lt h0 (by have := h.2; omega)
  rw [keyPts, queueKey, hmod, ← Nat.shiftLeft_add_eq_or_of_lt hs, Nat.shiftRight_eq_div_pow,
    Nat.shiftLeft_eq, Nat.mul_comm, Nat.mul_add_div (Nat.two_pow_pos 32), Nat.div_eq_of_lt hs,
    Nat.add_zero]
  exact Int.toNat_of_nonneg h0

theorem keyPts_le {k k' : ℕ} (h : k ≤ k') : keyPts k ≤ keyPts k' := by
  rw [keyPts, keyPts, Nat.shiftRight_eq_div_pow, Nat.shiftRight_eq_div_pow]
  exact_mod_cast Nat.div_le_div_right h

variable {U US : Type*}

/-- The key the next queued update gets. -/
def nextKey (w : PtsWaiter U US) (pts : ℤ) : ℕ := queueKey pts ((w.skippedKey + 1) % 2 ^ 32)

theorem keyPts_nextKey (w : PtsWaiter U US) {pts : ℤ} (h0 : 0 ≤ pts) (h : IsInt32 pts) :
    keyPts (w.nextKey pts) = pts :=
  keyPts_queueKey h0 h (Nat.mod_lt _ (Nat.two_pow_pos 32))

/-! ## What a call accounts for -/

end PtsWaiter

/-- The update an effect puts into the queue. -/
def Effect.queued? {U US : Type*} : Effect U US → Option (ℕ × Payload U US)
  | .skipped key c => some (key, c.payload)
  | _ => Option.none

/-- The queued update an effect hands over. -/
def Effect.handed? {U US : Type*} : Effect U US → Option (ℕ × Payload U US)
  | .applyUpdateNoPtsCheck (some key) u => some (key, .update u)
  | .applyUpdatesNoPtsCheck (some key) us => some (key, .updates us)
  | _ => Option.none

namespace PtsWaiter

variable {U US : Type*} [Inhabited U] [Inhabited US]

/-- The payload kept under a key of the queue. -/
def kept (w : PtsWaiter U US) (key : ℕ) : PtsSkippedQueue → Payload U US
  | .skippedUpdate => .update ((w.updateQueue.find? key).getD default)
  | .skippedUpdates => .updates ((w.updatesQueue.find? key).getD default)

/-- The updates that wait in the queue, with their keys. -/
def waiting (w : PtsWaiter U US) : List (ℕ × Payload U US) :=
  w.queue.entries.map fun e => (e.1, w.kept e.1 e.2)

/-- What is queued and what waited before is what is handed over and what waits after. -/
def Accounts (w : PtsWaiter U US) (es : List (Effect U US)) (w' : PtsWaiter U US) : Prop :=
  (es.filterMap Effect.queued? ++ w.waiting).Perm (es.filterMap Effect.handed? ++ w'.waiting)

theorem Accounts.of_quiet {w w' : PtsWaiter U US} {es : List (Effect U US)}
    (hq : es.filterMap Effect.queued? = []) (hh : es.filterMap Effect.handed? = [])
    (h : w'.waiting = w.waiting) : Accounts w es w' := by
  rw [Accounts, hq, hh, h]

/-- **Accounts add up.** -/
theorem Accounts.trans {w w' w'' : PtsWaiter U US} {es es' : List (Effect U US)}
    (h : Accounts w es w') (h' : Accounts w' es' w'') : Accounts w (es ++ es') w'' := by
  simp only [Accounts, List.filterMap_append, List.append_assoc]
  have swap : ∀ a b l : List (ℕ × Payload U US), (a ++ (b ++ l)).Perm (b ++ (a ++ l)) :=
    fun a b l => by
      rw [← List.append_assoc, ← List.append_assoc]
      exact List.perm_append_comm.append_right l
  exact (swap _ _ _).trans ((h.append_left _).trans ((swap _ _ _).trans (h'.append_left _)))

/-- The payload maps hold no key the queue does not. -/
structure Stored (w : PtsWaiter U US) : Prop where
  update : ∀ key u, w.updateQueue.find? key = some u → w.queue.find? key = some .skippedUpdate
  updates : ∀ key us, w.updatesQueue.find? key = some us → w.queue.find? key = some .skippedUpdates

/-- A fresh entry waits beside the others. -/
theorem perm_waiting_emplace {w w' : PtsWaiter U US} {key : ℕ} {kind : PtsSkippedQueue}
    (hq : w'.queue = w.queue.emplace key kind) (hk : w.queue.find? key = none)
    (hrest : ∀ k kind', k ≠ key → w'.kept k kind' = w.kept k kind') :
    w'.waiting.Perm ((key, w'.kept key kind) :: w.waiting) := by
  rw [waiting, hq]
  refine ((FlatMap.perm_emplace hk kind).map _).trans ?_
  rw [List.map_cons, waiting]
  refine List.Perm.of_eq (congrArg _ (List.map_congr_left fun e he => ?_))
  have hne : e.1 ≠ key := fun h => by
    rw [FlatMap.find?_eq_none, FlatMap.keys] at hk
    exact hk (h ▸ List.mem_map_of_mem he)
  rw [hrest _ _ hne]

omit [Inhabited U] [Inhabited US] in
theorem skip_none {w : PtsWaiter U US} {c : Call U US} (hc : c.payload = .none) :
    w.skip c = (w, []) := by
  rw [skip, hc]

omit [Inhabited U] [Inhabited US] in
theorem skip_update {w : PtsWaiter U US} {c : Call U US} {u : U} (hc : c.payload = .update u) :
    w.skip c = ({ w with
      skippedKey := (w.skippedKey + 1) % 2 ^ 32
      queue := w.queue.emplace (w.nextKey c.pts) .skippedUpdate
      updateQueue := w.updateQueue.emplace (w.nextKey c.pts) u },
      [.skipped (w.nextKey c.pts) c]) := by
  rw [skip, hc]
  rfl

omit [Inhabited U] [Inhabited US] in
theorem skip_updates {w : PtsWaiter U US} {c : Call U US} {us : US} (hc : c.payload = .updates us) :
    w.skip c = ({ w with
      skippedKey := (w.skippedKey + 1) % 2 ^ 32
      queue := w.queue.emplace (w.nextKey c.pts) .skippedUpdates
      updatesQueue := w.updatesQueue.emplace (w.nextKey c.pts) us },
      [.skipped (w.nextKey c.pts) c]) := by
  rw [skip, hc]
  rfl

/-- **Queueing an update under a fresh key accounts for it.** -/
theorem accounts_skip {w : PtsWaiter U US} (hs : Stored w) {c : Call U US}
    (hk : w.queue.find? (w.nextKey c.pts) = none) :
    Accounts w (w.skip c).2 (w.skip c).1 ∧ Stored (w.skip c).1 := by
  have hu : w.updateQueue.find? (w.nextKey c.pts) = none :=
    Option.eq_none_iff_forall_ne_some.mpr fun u h => by simp [hs.update _ _ h] at hk
  have hus : w.updatesQueue.find? (w.nextKey c.pts) = none :=
    Option.eq_none_iff_forall_ne_some.mpr fun us h => by simp [hs.updates _ _ h] at hk
  have hold : ∀ kind kind' key, w.queue.find? key = some kind →
      (w.queue.emplace (w.nextKey c.pts) kind').find? key = some kind := fun kind kind' key h => by
    rw [FlatMap.find?_emplace_of_none hk, if_neg, h]
    rintro rfl
    exact absurd (h.symm.trans hk) (by simp)
  cases hc : c.payload with
  | none =>
    rw [skip_none hc]
    exact ⟨Accounts.of_quiet rfl rfl rfl, hs⟩
  | update u =>
    rw [skip_update hc]
    refine ⟨?_, ⟨fun key u' h => ?_, fun key us h => hold _ _ key (hs.updates key us h)⟩⟩
    · refine (List.Perm.of_eq ?_).trans (perm_waiting_emplace rfl hk ?_).symm
      · simp [kept, FlatMap.find?_emplace_of_none hu, Effect.queued?, hc]
      · intro k kind hne
        cases kind <;> simp [kept, FlatMap.find?_emplace_of_none hu, hne]
    · rw [FlatMap.find?_emplace_of_none hu] at h
      split_ifs at h with hkey
      · rw [hkey]
        exact (FlatMap.find?_emplace_of_none hk _ _).trans (if_pos rfl)
      · exact hold _ _ key (hs.update key u' h)
  | updates us =>
    rw [skip_updates hc]
    refine ⟨?_, ⟨fun key u h => hold _ _ key (hs.update key u h), fun key us' h => ?_⟩⟩
    · refine (List.Perm.of_eq ?_).trans (perm_waiting_emplace rfl hk ?_).symm
      · simp [kept, FlatMap.find?_emplace_of_none hus, Effect.queued?, hc]
      · intro k kind hne
        cases kind <;> simp [kept, FlatMap.find?_emplace_of_none hus, hne]
    · rw [FlatMap.find?_emplace_of_none hus] at h
      split_ifs at h with hkey
      · rw [hkey]
        exact (FlatMap.find?_emplace_of_none hk _ _).trans (if_pos rfl)
      · exact hold _ _ key (hs.updates key us' h)

omit [Inhabited U] [Inhabited US] in
theorem handed_applyNow (payload : Payload U US) :
    (applyNow payload).filterMap Effect.handed? = [] ∧
      (applyNow payload).filterMap Effect.queued? = [] := by
  cases payload <;> exact ⟨rfl, rfl⟩

theorem handed_applySkipped (w : PtsWaiter U US) (key : ℕ) (kind : PtsSkippedQueue) :
    (w.applySkipped key kind).handed? = some (key, w.kept key kind) ∧
      (w.applySkipped key kind).queued? = none := by
  cases kind <;> exact ⟨rfl, rfl⟩

/-- Handing entries over hands over just them, whatever the owner calls back with. -/
theorem handed_flatMap (w : PtsWaiter U US) (reenter : ℕ → List (Call U US))
    (l : List (ℕ × PtsSkippedQueue)) :
    let es := l.flatMap fun e =>
      w.applySkipped e.1 e.2 :: (reenter e.1).flatMap fun c => applyNow c.payload
    es.filterMap Effect.handed? = l.map (fun e => (e.1, w.kept e.1 e.2)) ∧
      es.filterMap Effect.queued? = [] := by
  induction l with
  | nil => exact ⟨rfl, rfl⟩
  | cons e l ih =>
    have hn : ∀ cs : List (Call U US),
        (cs.flatMap fun c => applyNow c.payload).filterMap Effect.handed? = [] ∧
          (cs.flatMap fun c => applyNow c.payload).filterMap Effect.queued? = [] := fun cs => by
      simp [List.filterMap_flatMap, handed_applyNow]
    simp only [List.flatMap_cons, List.cons_append, List.filterMap_cons, List.filterMap_append,
      handed_applySkipped, hn, List.nil_append, ih, List.map_cons, and_self]

/-- The queue is only filled while the waiter waits. -/
def Waits (w : PtsWaiter U US) : Prop := w.queue.isEmpty = false → w.waitingForSkipped = true

/-- **The hand-over empties the queue and hands over all that waited, in order.** -/
theorem handed_applySkippedUpdates (reenter : ℕ → List (Call U US)) (depth : ℕ)
    {w : PtsWaiter U US} (hw : w.Waits) (hs : Stored w) :
    let r := w.applySkippedUpdates (updateAndApplyAt reenter depth) reenter
    r.1.queue = .empty ∧ Stored r.1 ∧ r.2.filterMap Effect.handed? = w.waiting ∧
      r.2.filterMap Effect.queued? = [] := by
  have hnil : w.queue.isEmpty = true → w.queue = .empty ∧ w.waiting = [] := fun h => by
    have he := FlatMap.isEmpty_iff.mp h
    exact ⟨FlatMap.ext he, by rw [waiting, he, List.map_nil]⟩
  cases hwait : w.waitingForSkipped with
  | false =>
    have he : w.queue.isEmpty = true := by
      by_contra hne
      exact absurd (hw (by simpa using hne)) (by simp [hwait])
    rw [applySkippedUpdates_idle reenter depth hwait]
    exact ⟨(hnil he).1, hs, (hnil he).2.symm, rfl⟩
  | true =>
    have hq : ∀ w' : PtsWaiter U US, w'.checkForWaiting.filterMap Effect.handed? = [] ∧
        w'.checkForWaiting.filterMap Effect.queued? = [] := fun w' => by
      rw [checkForWaiting]
      split_ifs <;> exact ⟨rfl, rfl⟩
    rw [applySkippedUpdates_eq reenter depth hwait]
    dsimp only
    split_ifs with he
    · exact ⟨(hnil he).1, ⟨hs.update, hs.updates⟩, by rw [(hq _).1, (hnil he).2], (hq _).2⟩
    · have hf := handed_flatMap w reenter w.queue.entries
      refine ⟨rfl, ⟨fun _ _ h => by simp [clearSkippedUpdates] at h,
        fun _ _ h => by simp [clearSkippedUpdates] at h⟩, ?_, ?_⟩
      · rw [List.filterMap_append, (hq _).1, List.nil_append]
        exact hf.1
      · rw [List.filterMap_append, (hq _).2, List.nil_append]
        exact hf.2

theorem mem_waiting {w : PtsWaiter U US} {e : ℕ × Payload U US} (h : e ∈ w.waiting) :
    e.1 ∈ w.queue.keys := by
  obtain ⟨e', he', rfl⟩ := List.mem_map.mp h
  exact List.mem_map_of_mem he'

/-- What waits is sorted by `pts`. -/
theorem sorted_waiting (w : PtsWaiter U US) :
    w.waiting.Pairwise fun e e' => keyPts e.1 ≤ keyPts e'.1 :=
  List.Pairwise.map _ (fun _ _ h => keyPts_le (le_of_lt h)) w.queue.sorted

omit [Inhabited U] [Inhabited US] in
theorem not_mem_skipped {es : List (Effect U US)} (h : es.filterMap Effect.queued? = [])
    {key : ℕ} {c : Call U US} : Effect.skipped key c ∉ es := fun hm => by
  have hmem : (key, c.payload) ∈ es.filterMap Effect.queued? :=
    List.mem_filterMap.mpr ⟨_, hm, rfl⟩
  rw [h] at hmem
  exact absurd hmem List.not_mem_nil

omit [Inhabited U] [Inhabited US] in
/-- The only update `skip` queues is the one it is given. -/
theorem skip_effects (w : PtsWaiter U US) (c : Call U US) :
    (w.skip c).2.filterMap Effect.handed? = [] ∧
      ∀ key c', Effect.skipped key c' ∈ (w.skip c).2 → key = w.nextKey c.pts ∧ c' = c := by
  cases hc : c.payload with
  | none => simp [skip_none hc]
  | update u => simp [skip_update hc, Effect.handed?]
  | updates us => simp [skip_updates hc, Effect.handed?]

omit [Inhabited U] [Inhabited US] in
/-- A queue that grew grew by the key of the update. -/
theorem mem_keys_skip {w : PtsWaiter U US} {c : Call U US} {key : ℕ}
    (h : key ∈ (w.skip c).1.queue.keys) : key ∈ w.queue.keys ∨ key = w.nextKey c.pts := by
  have hmem : ∀ kind, key ∈ (w.queue.emplace (w.nextKey c.pts) kind).keys →
      key ∈ w.queue.keys ∨ key = w.nextKey c.pts := fun kind hm => by
    obtain ⟨v, hv⟩ := FlatMap.mem_keys.mp hm
    rw [FlatMap.find?_emplace] at hv
    split_ifs at hv with hkey
    · exact Or.inr hkey
    · exact Or.inl (FlatMap.mem_keys.mpr ⟨v, hv⟩)
  cases hc : c.payload with
  | none => exact Or.inl (by simpa only [skip_none hc] using h)
  | update u => exact hmem _ (by simpa only [skip_update hc] using h)
  | updates us => exact hmem _ (by simpa only [skip_updates hc] using h)

/-- What an applied update does to the queue: it leaves it empty, and hands over in order what waited
and, when something waited, itself. -/
structure Releases (w : PtsWaiter U US) (c : Call U US) (r : PtsWaiter U US × List (Effect U US)) :
    Prop where
  queue : r.1.queue = .empty
  stored : Stored r.1
  accounts : Accounts w r.2 r.1
  sorted : (r.2.filterMap Effect.handed?).Pairwise fun e e' => keyPts e.1 ≤ keyPts e'.1
  handed : ∀ e ∈ r.2.filterMap Effect.handed?,
    e.1 ∈ w.queue.keys ∨ (w.queue.isEmpty = false ∧ e.1 = w.nextKey c.pts)
  queued : ∀ key c', Effect.skipped key c' ∈ r.2 →
    w.queue.isEmpty = false ∧ key = w.nextKey c.pts ∧ c' = c

theorem waiting_of_queue_empty {w : PtsWaiter U US} (h : w.queue = .empty) : w.waiting = [] := by
  rw [waiting, h]
  rfl

/-- **An applied update releases the queue.** -/
theorem releases_applyUpdated (reenter : ℕ → List (Call U US)) (depth : ℕ) {w : PtsWaiter U US}
    (hw : w.Waits) (hs : Stored w) {c : Call U US}
    (hk : w.queue.find? (w.nextKey c.pts) = none) :
    Releases w c (w.applyUpdated (updateAndApplyAt reenter depth) reenter c) := by
  rw [applyUpdated]
  split
  · obtain ⟨hq, hst, hh, hn⟩ := handed_applySkippedUpdates reenter depth hw hs
    exact
      { queue := hq
        stored := hst
        accounts := by rw [Accounts, hn, hh, waiting_of_queue_empty hq, List.append_nil]; rfl
        sorted := by rw [hh]; exact sorted_waiting w
        handed := fun e he => Or.inl (mem_waiting (hh ▸ he))
        queued := fun key c' hm => absurd hm (not_mem_skipped hn) }
  · split_ifs with ho
    · have he : w.queue.isEmpty = true := by
        by_contra hne
        simp [hw (by simpa using hne), hne] at ho
      have hemp : w.queue = .empty := FlatMap.ext (FlatMap.isEmpty_iff.mp he)
      exact
        { queue := hemp
          stored := hs
          accounts := Accounts.of_quiet (handed_applyNow _).2 (handed_applyNow _).1 rfl
          sorted := by rw [(handed_applyNow _).1]; exact List.Pairwise.nil
          handed := fun e hm => by simp [(handed_applyNow _).1] at hm
          queued := fun key c' hm => absurd hm (not_mem_skipped (handed_applyNow _).2) }
    · have hne : w.queue.isEmpty = false := by
        rw [Bool.or_eq_true, not_or, Bool.not_eq_true] at ho
        simpa using ho.2
      obtain ⟨hacc, hst⟩ := accounts_skip hs hk
      have hws : (w.skip c).1.Waits := fun _ => by
        obtain ⟨q, uq, usq, k, h⟩ := w.skip_eq c
        rw [h]
        exact hw hne
      obtain ⟨hq, hst', hh, hn⟩ := handed_applySkippedUpdates reenter depth hws hst
      have hhanded : (w.skip c).2.filterMap Effect.handed? = [] := (w.skip_effects c).1
      exact
        { queue := hq
          stored := hst'
          accounts := hacc.trans
            (by rw [Accounts, hn, hh, waiting_of_queue_empty hq, List.append_nil]; rfl)
          sorted := by
            rw [List.filterMap_append, hhanded, hh]
            exact sorted_waiting _
          handed := fun e he => by
            rw [List.filterMap_append, hhanded, hh] at he
            exact (mem_keys_skip (mem_waiting he)).imp_right fun h => ⟨hne, h⟩
          queued := fun key c' hm => by
            rcases List.mem_append.mp hm with hm | hm
            · exact ⟨hne, (w.skip_effects c).2 key c' hm⟩
            · exact absurd hm (not_mem_skipped hn) }

/-! ## Runs -/

/-- A call of `updateAndApply`, with what the owner calls back with during it. -/
structure Arrival (U US : Type*) where
  call : Call U US
  reenter : ℕ → List (Call U US) := fun _ => []

/-- The waiter takes an arrival. -/
def arrive (w : PtsWaiter U US) (x : Arrival U US) : PtsWaiter U US × List (Effect U US) :=
  w.updateAndApply x.reenter x.call

/-- The pieces of the account that arrivals carry. -/
def arrived (xs : List (Arrival U US)) : List Piece := xs.map fun x => x.call.piece

omit [Inhabited U] [Inhabited US] in
theorem arrived_concat (xs : List (Arrival U US)) (x : Arrival U US) :
    arrived (xs ++ [x]) = arrived xs ++ [x.call.piece] := by simp [arrived]

/-- What keeps the queue in order: the update is of the past, or it brings positions above the start
not one of which was received, or it moves nothing and nothing is queued. -/
def Fitting (p₀ : ℤ) (xs : List (Arrival U US)) (w : PtsWaiter U US) (x : Arrival U US) : Prop :=
  (x.call.pts ≤ w.good ∧ 0 < x.call.count) ∨
    (0 < x.call.count ∧ ∀ p ∈ x.call.piece.span, p₀ < p ∧ ¬ Covered (arrived xs) p) ∨
    (x.call.count = 0 ∧ w.queue.isEmpty = true)

instance (p₀ : ℤ) (xs : List (Arrival U US)) (w : PtsWaiter U US) (x : Arrival U US) :
    Decidable (Fitting p₀ xs w x) := inferInstanceAs (Decidable (_ ∨ _ ∨ _))

/-- The discipline of the queue: nothing below an update that was queued is missing when it is handed
over; what was queued was handed over once or still waits; the hand-overs are in the order of
`pts`. -/
structure InOrder (p₀ : ℤ) (xs : List (Arrival U US)) (r : PtsWaiter U US × List (Effect U US)) :
    Prop where
  nothing_missing : ∀ key c, Effect.skipped key c ∈ r.2 → 0 < c.count →
    (key, c.payload) ∈ r.2.filterMap Effect.handed? →
    ∀ p, p₀ < p → p ≤ c.pts → Covered (arrived xs) p
  once : (r.2.filterMap Effect.queued?).Perm (r.2.filterMap Effect.handed? ++ r.1.waiting)
  sorted : (r.2.filterMap Effect.handed?).Pairwise fun e e' => keyPts e.1 ≤ keyPts e'.1

/-- What holds along a run of fitting arrivals. -/
structure Gapped (p₀ : ℤ) (xs : List (Arrival U US)) (w : PtsWaiter U US)
    (es : List (Effect U US)) : Prop where
  counts : Counts p₀ (arrived xs) w
  waits : w.Waits
  stored : Stored w
  /-- What waits is above the gap and was received… -/
  queue : ∀ key ∈ w.queue.keys, w.good < keyPts key ∧
    ∃ x ∈ xs, 0 < x.call.count ∧ x.call.pts = keyPts key
  queued : ∀ key c, Effect.skipped key c ∈ es → keyPts key = c.pts
  accounts : Accounts {} es w
  sorted : (es.filterMap Effect.handed?).Pairwise fun e e' => keyPts e.1 ≤ keyPts e'.1
  /-- …and what was handed over is below it. -/
  handed_le : ∀ e ∈ es.filterMap Effect.handed?, keyPts e.1 ≤ w.good

variable {p₀ : ℤ} {xs : List (Arrival U US)} {w : PtsWaiter U US} {es : List (Effect U US)}
  {x : Arrival U US}

theorem Gapped.inOrder (h : Gapped p₀ xs w es) : InOrder p₀ xs (w, es) where
  nothing_missing := by
    intro key c hq _ hh p hp hle
    have hgood : keyPts key ≤ w.good := h.handed_le (key, c.payload) hh
    rw [h.queued key c hq] at hgood
    exact h.counts.sound.covered p hp (le_trans hle hgood)
  once := by
    have ha := h.accounts
    rw [Accounts, waiting_of_queue_empty rfl, List.append_nil] at ha
    exact ha
  sorted := h.sorted

omit [Inhabited U] [Inhabited US] in
theorem Fitting.admits (h : Fitting p₀ xs w x) :
    GapCounter.Admits p₀ (arrived xs) w.counter x.call.piece := by
  rcases h with hk | ⟨hpos, hnew⟩ | ⟨hz, -⟩
  · exact Or.inl hk
  · refine Or.inr (Or.inr ⟨hpos, ?_, fun p hp => (hnew p hp).2⟩)
    have hmem : x.call.piece.start + 1 ∈ x.call.piece.span := by
      rw [Piece.mem_span, Piece.start]
      have : 0 < x.call.piece.length := hpos
      omega
    have := (hnew _ hmem).1
    omega
  · exact Or.inr (Or.inl hz)

/-- The numbers after an arrival. -/
theorem Gapped.counts_arrive (h : Gapped p₀ xs w es) (hx : Fitting p₀ xs w x) :
    Counts p₀ (arrived (xs ++ [x])) (w.arrive x).1 := by
  have hd := counts_deliver (x := .updateAndApply x.reenter x.call) h.counts hx.admits
  rw [arrived_concat]
  exact hd

/-- A received position of a queue key. -/
theorem Gapped.key_covered (h : Gapped p₀ xs w es) {key : ℕ} (hk : key ∈ w.queue.keys) :
    p₀ < keyPts key ∧ Covered (arrived xs) (keyPts key) := by
  obtain ⟨hgood, y, hy, hpos, hpts⟩ := h.queue key hk
  refine ⟨lt_of_le_of_lt h.counts.sound.start_le hgood, y.call.piece, List.mem_map_of_mem hy, ?_⟩
  rw [Piece.mem_span, Piece.start, ← hpts, Call.piece]
  dsimp only
  omega

/-- The next key is fresh, and it is a key of the update's `pts`. -/
theorem Gapped.nextKey_fresh (h : Gapped p₀ xs w es) (hp₀ : 0 < p₀) (hx : Fitting p₀ xs w x)
    (hk : ¬ (x.call.pts ≤ w.good ∧ 0 < x.call.count)) :
    w.queue.find? (w.nextKey x.call.pts) = none ∧
      (w.queue.isEmpty = false ∨ 0 < x.call.count → 0 < x.call.count ∧
        keyPts (w.nextKey x.call.pts) = x.call.pts) := by
  rcases hx with hk' | ⟨hpos, hnew⟩ | ⟨hz, he⟩
  · exact absurd hk' hk
  · have hmem : x.call.pts ∈ x.call.piece.span := by
      rw [Piece.mem_span, Piece.start, Call.piece]
      dsimp only
      omega
    obtain ⟨hlow, hnot⟩ := hnew _ hmem
    have hkey : keyPts (w.nextKey x.call.pts) = x.call.pts :=
      w.keyPts_nextKey (by omega) x.call.pts_int32
    refine ⟨FlatMap.find?_eq_none.mpr fun hm => hnot ?_, fun _ => ⟨hpos, hkey⟩⟩
    exact hkey ▸ (h.key_covered hm).2
  · have hnil : w.queue = .empty := FlatMap.ext (FlatMap.isEmpty_iff.mp he)
    refine ⟨by rw [hnil]; rfl, ?_⟩
    rintro (hne | hpos)
    · exact absurd he (by simp [hne])
    · omega

/-- An update the counter counts is applied when the sums agree or it moves nothing, and queued
otherwise. -/
theorem arrive_counted {w : PtsWaiter U US} (h : w.Ready)
    (hk : ¬ (x.call.pts ≤ w.good ∧ 0 < x.call.count)) :
    w.arrive x =
      let t := w.counter.receive x.call.piece
      if t.last = t.count then
        (w.withCounter t).applyUpdated (updateAndApplyAt x.reenter 0) x.reenter x.call
      else
        let w' := { w.withCounter t with waitingForSkipped := true }
        let es := [.ptsWaiterStartTimerFor (gapTimeout t)]
        if x.call.count = 0 then
          let r := w'.applyUpdated (updateAndApplyAt x.reenter 0) x.reenter x.call
          (r.1, es ++ r.2)
        else ((w'.skip x.call).1, es ++ (w'.skip x.call).2) := by
  simp only [arrive, updateAndApply, updateAndApplyAt, updateAndApplyWith, updated_counted h hk]
  split_ifs <;> rfl

theorem arrive_known {w : PtsWaiter U US} (h : w.Ready)
    (hk : x.call.pts ≤ w.good ∧ 0 < x.call.count) : w.arrive x = (w, []) := by
  simp only [arrive, updateAndApply, updateAndApplyAt, updateAndApplyWith, updated_known h hk]

/-- The invariant after a step that released the queue of a waiter `w'` which differs from `w` in its
numbers and flags only. -/
theorem Gapped.release (h : Gapped p₀ xs w es) {w' : PtsWaiter U US}
    {r : PtsWaiter U US × List (Effect U US)} (hr : Releases w' x.call r)
    (hq : w'.queue = w.queue) (hwait : w'.waiting = w.waiting)
    (hkey : w'.queue.isEmpty = false → 0 < x.call.count ∧
      keyPts (w'.nextKey x.call.pts) = x.call.pts)
    (hk : ¬ (x.call.pts ≤ w.good ∧ 0 < x.call.count))
    (hc : Counts p₀ (arrived (xs ++ [x])) r.1) (hgood : w.good ≤ r.1.good)
    (hle : ∀ key ∈ w.queue.keys, keyPts key ≤ r.1.good)
    (hle' : w'.queue.isEmpty = false → x.call.pts ≤ r.1.good)
    (es₀ : List (Effect U US)) (hq₀ : es₀.filterMap Effect.queued? = [])
    (hh₀ : es₀.filterMap Effect.handed? = []) :
    Gapped p₀ (xs ++ [x]) r.1 (es ++ (es₀ ++ r.2)) := by
  have hhanded : ∀ e ∈ r.2.filterMap Effect.handed?,
      w.good < keyPts e.1 ∧ keyPts e.1 ≤ r.1.good := fun e he => by
    rcases hr.handed e he with hm | ⟨hne, hm⟩
    · rw [hq] at hm
      exact ⟨(h.queue _ hm).1, hle _ hm⟩
    · obtain ⟨hpos, hpts⟩ := hkey hne
      rw [hm, hpts]
      exact ⟨not_le.mp fun hle => hk ⟨hle, hpos⟩, hle' hne⟩
  have hfilter : (es ++ (es₀ ++ r.2)).filterMap Effect.handed?
      = es.filterMap Effect.handed? ++ r.2.filterMap Effect.handed? := by
    rw [List.filterMap_append, List.filterMap_append, hh₀, List.nil_append]
  exact
    { counts := hc
      waits := fun hne => by simp [hr.queue, FlatMap.isEmpty, FlatMap.empty] at hne
      stored := hr.stored
      queue := fun key hm => by simp [hr.queue, FlatMap.keys, FlatMap.empty] at hm
      queued := fun key c hm => by
        rcases List.mem_append.mp hm with hm | hm
        · exact h.queued key c hm
        · rcases List.mem_append.mp hm with hm | hm
          · exact absurd hm (not_mem_skipped hq₀)
          · obtain ⟨hne, rfl, rfl⟩ := hr.queued key c hm
            exact (hkey hne).2
      accounts := h.accounts.trans ((Accounts.of_quiet hq₀ hh₀ hwait).trans hr.accounts)
      sorted := by
        rw [hfilter, List.pairwise_append]
        exact ⟨h.sorted, hr.sorted, fun e he e' he' =>
          le_trans (h.handed_le e he) (hhanded e' he').1.le⟩
      handed_le := fun e he => by
        rw [hfilter] at he
        rcases List.mem_append.mp he with he | he
        · exact le_trans (h.handed_le e he) hgood
        · exact (hhanded e he).2 }

/-- The invariant after a step that queued an update over a gap. -/
theorem Gapped.queue_update (h : Gapped p₀ xs w es) (w' : PtsWaiter U US)
    (hq : w'.queue = w.queue) (hwait : w'.waiting = w.waiting) (hst : Stored w')
    (hwaits : w'.waitingForSkipped = true) (hpos : 0 < x.call.count)
    (hkey : keyPts (w'.nextKey x.call.pts) = x.call.pts)
    (hfresh : w'.queue.find? (w'.nextKey x.call.pts) = none) (hlow : w.good < x.call.pts)
    (hc : Counts p₀ (arrived (xs ++ [x])) (w'.skip x.call).1)
    (hgood : (w'.skip x.call).1.good = w.good)
    (es₀ : List (Effect U US)) (hq₀ : es₀.filterMap Effect.queued? = [])
    (hh₀ : es₀.filterMap Effect.handed? = []) :
    Gapped p₀ (xs ++ [x]) (w'.skip x.call).1 (es ++ (es₀ ++ (w'.skip x.call).2)) := by
  obtain ⟨hacc, hst'⟩ := accounts_skip hst hfresh
  obtain ⟨hh, hsk⟩ := w'.skip_effects x.call
  have hfilter : (es ++ (es₀ ++ (w'.skip x.call).2)).filterMap Effect.handed?
      = es.filterMap Effect.handed? := by
    rw [List.filterMap_append, List.filterMap_append, hh₀, hh, List.append_nil, List.append_nil]
  exact
    { counts := hc
      waits := fun _ => by
        obtain ⟨q, uq, usq, k, he⟩ := w'.skip_eq x.call
        rw [he]
        exact hwaits
      stored := hst'
      queue := fun key hm => by
        rw [hgood]
        rcases mem_keys_skip hm with hm | rfl
        · rw [hq] at hm
          obtain ⟨hlt, y, hy, hy'⟩ := h.queue key hm
          exact ⟨hlt, y, List.mem_append_left _ hy, hy'⟩
        · rw [hkey]
          exact ⟨hlow, x, List.mem_append_right _ (List.mem_singleton_self x), hpos, rfl⟩
      queued := fun key c hm => by
        rcases List.mem_append.mp hm with hm | hm
        · exact h.queued key c hm
        · rcases List.mem_append.mp hm with hm | hm
          · exact absurd hm (not_mem_skipped hq₀)
          · obtain ⟨rfl, rfl⟩ := hsk key c hm
            exact hkey
      accounts := h.accounts.trans ((Accounts.of_quiet hq₀ hh₀ hwait).trans hacc)
      sorted := by rw [hfilter]; exact h.sorted
      handed_le := fun e he => by
        rw [hgood]
        exact h.handed_le e (hfilter ▸ he) }

/-- **A fitting arrival keeps the invariant.** -/
theorem Gapped.arrive (hp₀ : 0 < p₀) (h : Gapped p₀ xs w es) (hx : Fitting p₀ xs w x) :
    Gapped p₀ (xs ++ [x]) (w.arrive x).1 (es ++ (w.arrive x).2) := by
  have hc := h.counts_arrive hx
  by_cases hk : x.call.pts ≤ w.good ∧ 0 < x.call.count
  · -- an update of the past changes nothing but the list of arrivals
    rw [arrive_known h.counts.ready hk] at hc ⊢
    rw [List.append_nil]
    exact { h with
      counts := hc
      queue := fun key hm => (h.queue key hm).imp_right fun ⟨y, hy, hy'⟩ =>
        ⟨y, List.mem_append_left _ hy, hy'⟩ }
  · obtain ⟨hfresh, hkey⟩ := h.nextKey_fresh hp₀ hx hk
    have hlow : 0 < x.call.count → w.good < x.call.pts := fun hpos =>
      not_le.mp fun hle => hk ⟨hle, hpos⟩
    have hgood : (w.arrive x).1.good = (w.counter.receive x.call.piece).good :=
      congrArg GapCounter.good (counter_updateAndApply h.counts.ready x.reenter x.call)
    have hmono := h.counts.sound.good_le_receive x.call.piece
    rw [← hgood] at hmono
    have hlast : (w.counter.receive x.call.piece).last = (w.counter.receive x.call.piece).count →
        ∀ p, p₀ < p → Covered (arrived (xs ++ [x])) p → p ≤ (w.arrive x).1.good := by
      intro hfull p hp hcov
      have hcnt := counter_updateAndApply h.counts.ready x.reenter x.call
      have hfull' : (w.arrive x).1.counter.last = (w.arrive x).1.counter.count := by
        rw [PtsWaiter.arrive, hcnt, hfull]
      have := hc.sound.le_last p (mem_positions.mpr ⟨hp, hcov⟩)
      rwa [← hc.sound.good_of_full hfull'] at this
    have hself : 0 < x.call.count → Covered (arrived (xs ++ [x])) x.call.pts := fun hpos => by
      refine ⟨x.call.piece, by simp [arrived], ?_⟩
      rw [Piece.mem_span, Piece.start, Call.piece]
      dsimp only
      omega
    rw [arrive_counted h.counts.ready hk] at hc hgood hmono hlast ⊢
    dsimp only at hc hgood hmono hlast ⊢
    split_ifs at hc hgood hmono hlast ⊢ with hfull hz
    · -- the sums agree: everything received lies below `good`
      refine h.release
        (releases_applyUpdated x.reenter 0 (w := w.withCounter _) h.waits
          ⟨h.stored.update, h.stored.updates⟩ hfresh)
        rfl rfl (fun hne => hkey (Or.inl hne)) hk hc hmono (fun key hm => ?_) (fun hne => ?_) [] rfl rfl
      · obtain ⟨hp, hcov⟩ := h.key_covered hm
        exact hlast hfull _ hp (by rw [arrived_concat]; exact hcov.concat _)
      · have hpos := (hkey (Or.inl hne)).1
        exact hlast hfull _ (lt_of_le_of_lt h.counts.sound.start_le (hlow hpos)) (hself hpos)
    · -- an update that moves nothing: the queue is empty
      have he : w.queue.isEmpty = true := by
        rcases hx with hk' | ⟨hpos, -⟩ | ⟨-, he⟩
        · exact absurd hk' hk
        · omega
        · exact he
      have hne : ∀ {q : Prop}, w.queue.isEmpty = false → q := fun hf => by simp [he] at hf
      refine h.release (releases_applyUpdated x.reenter 0 (w := { w.withCounter _ with
          waitingForSkipped := true }) (fun _ => rfl) ⟨h.stored.update, h.stored.updates⟩ hfresh)
        rfl rfl (fun hf => hne hf) hk hc hmono (fun key hm => ?_) (fun hf => hne hf) _ rfl rfl
      rw [FlatMap.keys, FlatMap.isEmpty_iff.mp he] at hm
      exact absurd hm List.not_mem_nil
    · -- the update waits over the gap
      have hpos : 0 < x.call.count := by
        rcases hx with hk' | ⟨hpos, -⟩ | ⟨hz', -⟩
        · exact absurd hk' hk
        · exact hpos
        · exact absurd hz' hz
      exact h.queue_update { w.withCounter _ with waitingForSkipped := true }
        rfl rfl ⟨h.stored.update, h.stored.updates⟩ rfl hpos (hkey (Or.inr hpos)).2 hfresh
        (hlow hpos) hc (hgood.trans (GapCounter.receive_good_of_gap hfull)) _ rfl rfl

/-- **The discipline of the queue**: along arrivals that fit, at every moment, nothing below a queued
update was missing when it was handed over, each was handed over once, and in the order of `pts`. -/
theorem in_order {p₀ : ℤ} (hp₀ : 0 < p₀) (w : PtsWaiter U US) (hw : w.requesting = false)
    (xs : List (Arrival U US)) (hxs : Guarded arrive (Fitting p₀) (w.init p₀) xs) :
    ∀ ys, ys <+: xs → InOrder p₀ ys (run arrive (w.init p₀) ys) := by
  rintro ys ⟨zs, rfl⟩
  refine (run_induction (Gapped p₀) ?_ (fun ys v es x h hx => h.arrive hp₀ hx)
    hxs.of_append).inOrder
  exact
    { counts := counts_init hw hp₀
      waits := fun hne => by simp [FlatMap.isEmpty, FlatMap.empty] at hne
      stored := ⟨fun _ _ h => by simp [init, clearSkippedUpdates] at h,
        fun _ _ h => by simp [init, clearSkippedUpdates] at h⟩
      queue := fun key hm => by simp [FlatMap.keys, FlatMap.empty] at hm
      queued := fun key c hm => absurd hm List.not_mem_nil
      accounts := Accounts.of_quiet rfl rfl (waiting_of_queue_empty (queue_init w p₀))
      sorted := List.Pairwise.nil
      handed_le := fun e he => absurd he List.not_mem_nil }

/-- An update over a gap, then what was missing. -/
theorem in_order_two :
    InOrder 10 [{ call := { pts := 13, count := 1, payload := .update () } },
        { call := { pts := 12, count := 2, payload := .none } }]
      (run arrive (({} : PtsWaiter Unit Unit).init 10)
        [{ call := { pts := 13, count := 1, payload := .update () } },
          { call := { pts := 12, count := 2, payload := .none } }]) :=
  in_order (by decide) {} rfl _ ((Guarded.nil.concat (by decide)).concat (by decide)) _
    (List.prefix_refl _)

/-- **Two ways to lose the order**: an update of count 0 over an open gap has the queue handed over,
and so does what was missing in part, when a queued update was counted twice. -/
theorem not_in_order_count_zero_or_twice :
    ¬ InOrder 10 [{ call := { pts := 13, count := 1, payload := .update () } },
        { call := { pts := 12, count := 0, payload := .none } }]
      (run arrive (({} : PtsWaiter Unit Unit).init 10)
        [{ call := { pts := 13, count := 1, payload := .update () } },
          { call := { pts := 12, count := 0, payload := .none } }]) ∧
    ¬ InOrder 10 [{ call := { pts := 13, count := 1, payload := .update () } },
        { call := { pts := 13, count := 1, payload := .update () } },
        { call := { pts := 12, count := 1, payload := .none } }]
      (run arrive (({} : PtsWaiter Unit Unit).init 10)
        [{ call := { pts := 13, count := 1, payload := .update () } },
          { call := { pts := 13, count := 1, payload := .update () } },
          { call := { pts := 12, count := 1, payload := .none } }]) := by
  constructor
  · intro h
    have := h.nothing_missing (queueKey 13 1) { pts := 13, count := 1, payload := .update () }
      (by decide) (by decide) (by decide) 11 (by decide) (by decide)
    exact absurd this (by decide)
  · intro h
    have := h.nothing_missing (queueKey 13 1) { pts := 13, count := 1, payload := .update () }
      (by decide) (by decide) (by decide) 11 (by decide) (by decide)
    exact absurd this (by decide)

end PtsWaiter

end Yunogram
