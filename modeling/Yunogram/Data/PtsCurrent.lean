import Yunogram.Data.PtsWaiter
import Yunogram.Machinery.Run

/-!
# Data/PtsCurrent — `current` is the point up to which nothing is missing

A run of `updated` and `updateAndApply` moves the three numbers of the waiter as
`GapCounter.receive` moves them (`counter_updated`, `counter_updateAndApply`): the queue has no part
in it.  For updates that arrive at most once, in any order, the counter is sound and complete, so
`current` is where the received updates stop covering the account.
-/

open Machinery

namespace Yunogram

namespace PtsWaiter

variable {U US : Type*}

/-! ## The numbers after a call -/

theorem counter_updated {w : PtsWaiter U US} (h : w.Ready) (c : Call U US) :
    (w.updated c).1.counter = w.counter.receive c.piece := by
  by_cases hk : c.pts ≤ w.good ∧ 0 < c.count
  · rw [updated_known h hk]
    exact (if_pos hk).symm
  · rw [updated_counted h hk]
    dsimp only
    split_ifs
    · rfl
    · rfl
    · rw [counter_skip]
      rfl

theorem Ready.updated {w : PtsWaiter U US} (h : w.Ready) {c : Call U US}
    (hg : w.good ≤ (w.counter.receive c.piece).good) : (w.updated c).1.Ready := by
  by_cases hk : c.pts ≤ w.good ∧ 0 < c.count
  · rw [updated_known h hk]
    exact h
  · rw [updated_counted h hk]
    have hr := h.receive c.piece hg
    have hr' : Ready { w.withCounter (w.counter.receive c.piece) with waitingForSkipped := true } :=
      ⟨hr.requesting, hr.level, hr.inited⟩
    dsimp only
    split_ifs
    · exact hr
    · exact hr'
    · exact hr'.skip c

variable [Inhabited U] [Inhabited US]

/-- After `updated`, `updateAndApply` only fills and empties the queue. -/
theorem updateAndApply_of_updated (P : PtsWaiter U US → Prop) {w : PtsWaiter U US} {c : Call U US}
    (reenter : ℕ → List (Call U US)) (h : P (w.updated c).1)
    (skip : ∀ w', P w' → P (w'.skip c).1)
    (apply : ∀ w', P w' → P (w'.applySkippedUpdates (updateAndApplyAt reenter 0) reenter).1) :
    P (w.updateAndApply reenter c).1 := by
  rw [updateAndApply, updateAndApplyAt, updateAndApplyWith]
  rcases hu : w.updated c with ⟨w', es, b⟩
  rw [hu] at h
  cases b with
  | false => exact h
  | true =>
    dsimp only [applyUpdated]
    split
    · exact apply _ h
    · split_ifs
      · exact h
      · exact apply _ (skip _ h)

theorem counter_updateAndApply {w : PtsWaiter U US} (h : w.Ready) (reenter : ℕ → List (Call U US))
    (c : Call U US) : (w.updateAndApply reenter c).1.counter = w.counter.receive c.piece := by
  refine updateAndApply_of_updated (fun w' => w'.counter = _) reenter (counter_updated h c) ?_ ?_
  · intro w' h'
    rw [counter_skip, h']
  · intro w' h'
    rw [counter_applySkippedUpdates, h']

theorem Ready.updateAndApply {w : PtsWaiter U US} (h : w.Ready) (reenter : ℕ → List (Call U US))
    {c : Call U US} (hg : w.good ≤ (w.counter.receive c.piece).good) :
    (w.updateAndApply reenter c).1.Ready :=
  updateAndApply_of_updated Ready reenter (h.updated hg) (fun _ h' => h'.skip c)
    fun _ h' => h'.applySkippedUpdates reenter 0

/-! ## Runs -/

/-- A call of `updated` or of `updateAndApply`. -/
inductive Delivery (U US : Type*)
  | updated (call : Call U US)
  | updateAndApply (reenter : ℕ → List (Call U US)) (call : Call U US)

/-- The update a delivery carries. -/
def Delivery.call : Delivery U US → Call U US
  | .updated c => c
  | .updateAndApply _ c => c

/-- The pieces of the account that deliveries carry. -/
def received (xs : List (Delivery U US)) : List Piece := xs.map fun x => x.call.piece

/-- The waiter takes a delivery. -/
def deliver (w : PtsWaiter U US) : Delivery U US → PtsWaiter U US × List (Effect U US)
  | .updated c => ((w.updated c).1, (w.updated c).2.1)
  | .updateAndApply reenter c => w.updateAndApply reenter c

theorem counter_deliver {w : PtsWaiter U US} (h : w.Ready) (x : Delivery U US) :
    (w.deliver x).1.counter = w.counter.receive x.call.piece := by
  cases x with
  | updated c => exact counter_updated h c
  | updateAndApply reenter c => exact counter_updateAndApply h reenter c

theorem Ready.deliver {w : PtsWaiter U US} (h : w.Ready) {x : Delivery U US}
    (hg : w.good ≤ (w.counter.receive x.call.piece).good) : (w.deliver x).1.Ready := by
  cases x with
  | updated c => exact h.updated hg
  | updateAndApply reenter c => exact h.updateAndApply reenter hg

/-- The numbers of the waiter mean what a counter's mean. -/
structure Counts (p₀ : ℤ) (us : List Piece) (w : PtsWaiter U US) : Prop where
  ready : w.Ready
  sound : w.counter.Sound p₀ us

omit [Inhabited U] [Inhabited US] in
theorem counts_init {w : PtsWaiter U US} (h : w.requesting = false) {p₀ : ℤ} (hp : 0 < p₀) :
    Counts p₀ [] (w.init p₀) :=
  ⟨.of_init h hp, GapCounter.sound_start p₀⟩

/-- **A delivery keeps the meaning of the numbers.** -/
theorem counts_deliver {p₀ : ℤ} {us : List Piece} {w : PtsWaiter U US} (h : Counts p₀ us w)
    {x : Delivery U US} (hx : GapCounter.Admits p₀ us w.counter x.call.piece) :
    Counts p₀ (us ++ [x.call.piece]) (w.deliver x).1 := by
  have hs := h.sound.receive hx
  refine ⟨h.ready.deliver (h.sound.good_le_receive _), ?_⟩
  rw [counter_deliver h.ready]
  exact hs

omit [Inhabited U] [Inhabited US] in
/-- The sums stay in `int32`: they lie between the start and the greatest `pts` seen. -/
theorem Counts.isInt32 {p₀ : ℤ} {us : List Piece} {w : PtsWaiter U US} (h : Counts p₀ us w)
    (hp₀ : IsInt32 p₀) (hus : ∀ u ∈ us, IsInt32 u.till) :
    IsInt32 w.good ∧ IsInt32 w.last ∧ IsInt32 w.count := by
  have hlast : IsInt32 w.counter.last := by
    rcases h.sound.last_seen with hl | ⟨u, hu, hl⟩
    · exact hl ▸ hp₀
    · exact hl ▸ hus u hu
  have hgood := h.sound.good_le
  have hstart := h.sound.start_le
  have hcount := h.sound.count_eq
  have hle := h.sound.count_le_last
  obtain ⟨h1, -⟩ := hp₀
  obtain ⟨-, h2⟩ := hlast
  refine ⟨⟨?_, ?_⟩, ⟨?_, ?_⟩, ?_, ?_⟩ <;> simp only [counter] at * <;> omega

/-- The updates arrive at most once: they do not overlap, and none straddles the start. -/
structure Orderly (p₀ : ℤ) (xs : List (Delivery U US)) : Prop where
  apart : (received xs).Pairwise fun u v => Disjoint u.span v.span
  pieces : ∀ u ∈ received xs, 0 ≤ u.length ∧ (p₀ ≤ u.start ∨ u.till ≤ p₀)

instance (p₀ : ℤ) (xs : List (Delivery U US)) : Decidable (Orderly p₀ xs) :=
  decidable_of_iff (_ ∧ _) ⟨fun h => ⟨h.1, h.2⟩, fun h => ⟨h.apart, h.pieces⟩⟩

omit [Inhabited U] [Inhabited US] in
theorem received_concat (xs : List (Delivery U US)) (x : Delivery U US) :
    received (xs ++ [x]) = received xs ++ [x.call.piece] := by simp [received]

omit [Inhabited U] [Inhabited US] in
theorem Orderly.of_concat {p₀ : ℤ} {xs : List (Delivery U US)} {x : Delivery U US}
    (h : Orderly p₀ (xs ++ [x])) : Orderly p₀ xs := by
  obtain ⟨hapart, hpieces⟩ := h
  rw [received_concat] at hapart hpieces
  exact ⟨(List.pairwise_append.mp hapart).1, fun u hu => hpieces u (List.mem_append_left _ hu)⟩

omit [Inhabited U] [Inhabited US] in
/-- The last of orderly updates is one the counter counts rightly: new, empty, or of the past. -/
theorem Orderly.admits {p₀ : ℤ} {xs : List (Delivery U US)} {x : Delivery U US}
    (h : Orderly p₀ (xs ++ [x])) {t : GapCounter} (ht : p₀ ≤ t.good) :
    GapCounter.Admits p₀ (received xs) t x.call.piece := by
  obtain ⟨hapart, hpieces⟩ := h
  rw [received_concat] at hapart hpieces
  obtain ⟨hlen, hside⟩ := hpieces _ (List.mem_append_right _ (List.mem_singleton_self _))
  rcases hlen.eq_or_lt with hz | hpos
  · exact Or.inr (Or.inl hz.symm)
  · rcases hside with hstart | htill
    · refine Or.inr (Or.inr ⟨hpos, hstart, fun p hp ⟨u, hu, hpu⟩ => ?_⟩)
      have hdis := (List.pairwise_append.mp hapart).2.2 u hu _ (List.mem_singleton_self _)
      exact Finset.disjoint_left.mp hdis hpu hp
    · exact Or.inl ⟨le_trans htill ht, hpos⟩

/-- **Along orderly deliveries the numbers mean what they should.** -/
theorem counts_run {p₀ : ℤ} {w : PtsWaiter U US} (h : Counts p₀ [] w) {xs : List (Delivery U US)}
    (hxs : Orderly p₀ xs) : Counts p₀ (received xs) (run deliver w xs).1 := by
  induction xs using List.reverseRecOn with
  | nil => exact h
  | append_singleton xs x ih =>
    have ih := ih hxs.of_concat
    rw [run_concat, received_concat]
    exact counts_deliver ih (hxs.admits ih.sound.start_le)

/-- **`current` is the point up to which nothing is missing**: after `init p₀` and any orderly
deliveries every position up to it was received, and it is `P` when everything up to `P` and nothing
above was. -/
theorem current_sound_complete {p₀ : ℤ} (hp₀ : 0 < p₀) (w : PtsWaiter U US)
    (hw : w.requesting = false) (xs : List (Delivery U US)) (hxs : Orderly p₀ xs) :
    (∀ p, p₀ < p → p ≤ (run deliver (w.init p₀) xs).1.current → Covered (received xs) p) ∧
    ∀ P, p₀ ≤ P → (∀ p, p₀ < p → p ≤ P → Covered (received xs) p) →
      (∀ u ∈ received xs, u.till ≤ P) → (run deliver (w.init p₀) xs).1.current = P := by
  have h := counts_run (counts_init hw hp₀) hxs
  exact ⟨fun p hp hc => h.sound.covered p hp hc,
    fun P hP hcov habove => h.sound.good_eq hP hcov habove⟩

/-- Three updates after `init 10`, the last one first. -/
theorem current_sound_complete_three :
    (run deliver ((({} : PtsWaiter Unit Unit)).init 10)
      [.updateAndApply (fun _ => []) { pts := 14, count := 2, payload := .update () },
        .updated { pts := 12, count := 0, payload := .none },
        .updated { pts := 12, count := 2, payload := .none }]).1.current = 14 :=
  (current_sound_complete (by decide) {} rfl _ (by decide)).2 14 (by decide)
    (fun p h h' => by
      simp only [received, Delivery.call, Call.piece, Covered, List.map_cons, List.map_nil,
        List.mem_cons, List.not_mem_nil, or_false, exists_eq_or_imp, exists_eq_left,
        Piece.mem_span, Piece.start]
      omega)
    (by decide)

/-- **A start that is not positive is no start**: `inited` reads a waiter with `good ≤ 0` as not
started, and the first update then sets the start again, so what lies between is never missed. -/
theorem current_skips_after_init_zero :
    Orderly 0 ([.updated { pts := 5, count := 1, payload := .none }] : List (Delivery Unit Unit)) ∧
    (run deliver ((({} : PtsWaiter Unit Unit)).init 0)
      [.updated { pts := 5, count := 1, payload := .none }]).1.current = 5 ∧
    ¬ Covered (received
      ([.updated { pts := 5, count := 1, payload := .none }] : List (Delivery Unit Unit))) 1 := by
  refine ⟨by decide, by decide, ?_⟩
  simp [received, Delivery.call, Call.piece, Covered, Piece.start]

end PtsWaiter

end Yunogram
