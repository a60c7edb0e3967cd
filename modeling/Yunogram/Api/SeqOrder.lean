import Mathlib
import Yunogram.Api.Updates

/-!
# Api/SeqOrder — containers are fed in the order of `seq`, each once

For a family of containers whose ranges do not overlap, delivered in any order and any number of
times, `Ordered` is what every run of `applyUpdates` keeps: the containers fed fill the numbers from
the start to `_updatesSeq` in order, and every container that came and lies above waits under its
first number.  `applyUpdates` feeds a container exactly when it is next (`Ordered.feed`), and goes on
with the kept ones as long as there is a next one.
-/

open Machinery

namespace Yunogram

namespace MTPUpdates

variable {V : Type*}

/-- The container is put in order. -/
def Numbered (c : MTPUpdates V) : Prop := c.seqStart ≠ 0

instance (c : MTPUpdates V) : Decidable c.Numbered := inferInstanceAs (Decidable (_ ≠ _))

/-- The number is one the container covers. -/
def Covers (c : MTPUpdates V) (p : ℤ) : Prop := c.Numbered ∧ c.seqStart ≤ p ∧ p ≤ c.seq

/-- A range is nonempty, and both its ends are numbers or neither is. -/
def WellNumbered (c : MTPUpdates V) : Prop :=
  (c.seqStart = 0 ∧ c.seq = 0) ∨ (c.seqStart ≠ 0 ∧ c.seq ≠ 0 ∧ c.seqStart ≤ c.seq)

instance (c : MTPUpdates V) : Decidable c.WellNumbered := inferInstanceAs (Decidable (_ ∨ _))

/-- A family of containers whose ranges do not overlap; one may come again. -/
structure Family (xs : List (MTPUpdates V)) : Prop where
  wellNumbered : ∀ c ∈ xs, c.WellNumbered
  apart : ∀ c ∈ xs, ∀ c' ∈ xs, c.Numbered → c'.Numbered →
    c = c' ∨ c.seq < c'.seqStart ∨ c'.seq < c.seqStart

instance [DecidableEq V] (xs : List (MTPUpdates V)) : Decidable (Family xs) :=
  decidable_of_iff (_ ∧ _) ⟨fun h => ⟨h.1, h.2⟩, fun h => ⟨h.wellNumbered, h.apart⟩⟩

theorem Family.of_append {xs ys : List (MTPUpdates V)} (h : Family (xs ++ ys)) : Family xs where
  wellNumbered := fun c hc => h.wellNumbered c (List.mem_append_left _ hc)
  apart := fun c hc c' hc' =>
    h.apart c (List.mem_append_left _ hc) c' (List.mem_append_left _ hc')

/-- A number belongs to one container of a family. -/
theorem Family.eq_of_covers {xs : List (MTPUpdates V)} (h : Family xs) {c c' : MTPUpdates V}
    (hc : c ∈ xs) (hc' : c' ∈ xs) {p : ℤ} (hp : c.Covers p) (hp' : c'.Covers p) : c = c' := by
  obtain ⟨hn, hle, hge⟩ := hp
  obtain ⟨hn', hle', hge'⟩ := hp'
  rcases h.apart c hc c' hc' hn hn' with heq | hlt | hlt
  · exact heq
  · omega
  · omega

theorem Family.covers_start {xs : List (MTPUpdates V)} (h : Family xs) {c : MTPUpdates V}
    (hc : c ∈ xs) (hn : c.Numbered) : c.Covers c.seqStart := by
  rcases h.wellNumbered c hc with ⟨h0, -⟩ | ⟨-, -, hle⟩
  · exact absurd h0 hn
  · exact ⟨hn, le_refl _, hle⟩

theorem Family.seq_ne_zero {xs : List (MTPUpdates V)} (h : Family xs) {c : MTPUpdates V}
    (hc : c ∈ xs) (hn : c.Numbered) : c.seq ≠ 0 := by
  rcases h.wellNumbered c hc with ⟨h0, -⟩ | ⟨-, h0, -⟩
  · exact absurd h0 hn
  · exact h0

end MTPUpdates

namespace Api

/-- The numbered container an effect feeds. -/
def Effect.fed? {V : Type*} : Effect V → Option (MTPUpdates V)
  | .feed c => if c.Numbered then some c else none
  | _ => none

namespace Updates

open MTPUpdates

variable {V : Type*}

/-- The numbered containers that were fed, in order. -/
def fed (es : List (Effect V)) : List (MTPUpdates V) := es.filterMap Effect.fed?

theorem fed_append (es es' : List (Effect V)) : fed (es ++ es') = fed es ++ fed es' :=
  List.filterMap_append

theorem fed_eq_nil {es : List (Effect V)} (h : ∀ c, Effect.feed c ∉ es) : fed es = [] := by
  refine List.filterMap_eq_nil_iff.mpr fun e he => ?_
  cases e with
  | feed c => exact absurd he (h c)
  | _ => rfl

/-! ## One container -/

/-- What a container that is fed leads to: the state after it, and what it makes `setState` go on
with. -/
theorem applyUpdates_feed {u : Updates V} {c : MTPUpdates V}
    (h : c.seqStart = 0 ∨ c.seqStart = u.updatesSeq + 1) :
    let state := u.setState 0 c.date u.updatesQts (u.stateSeq c)
    (applyUpdates u c).1 = (state.2.2.elim state.1 fun v => (applyUpdates state.1 v).1) ∧
      fed (applyUpdates u c).2 = (if c.Numbered then [c] else []) ++ fed state.2.1 ++
        state.2.2.elim [] fun v => fed (applyUpdates state.1 v).2 := by
  have h1 : ¬ (c.seqStart ≠ 0 ∧ c.seqStart ≤ u.updatesSeq) := by omega
  have h2 : ¬ (c.seqStart ≠ 0 ∧ u.updatesSeq + 1 < c.seqStart) := by omega
  have hc : ∀ es, fed (Effect.feed c :: es) = (if c.Numbered then [c] else []) ++ fed es :=
    fun es => by
      simp only [fed, List.filterMap_cons, Effect.fed?]
      split_ifs <;> rfl
  have hs : fed [(Effect.sendHistoryChangeNotifications : Effect V)] = [] := rfl
  rw [applyUpdates, if_neg h1, if_neg h2]
  dsimp only
  split
  · next hnone =>
    rw [hnone]
    exact ⟨rfl, by rw [fed_append, hc, hs]; rfl⟩
  · next v hsome =>
    rw [hsome]
    refine ⟨rfl, ?_⟩
    rw [fed_append, List.cons_append, hc, fed_append, hs, List.append_nil, List.append_assoc]
    rfl

/-! ## The invariant -/

/-- What a run keeps, for the containers `xs` that came and the containers `fs` that were fed.
`next` is the container about to be fed, if there is one: it need not wait any more. -/
structure Ordered (s₀ : ℤ) (xs fs : List (MTPUpdates V)) (next : Option (MTPUpdates V))
    (u : Updates V) : Prop where
  start_le : s₀ ≤ u.updatesSeq
  increasing : fs.Pairwise fun c c' => c.seq < c'.seqStart
  fed_of : ∀ c ∈ fs, c ∈ xs ∧ s₀ < c.seqStart ∧ c.seq ≤ u.updatesSeq
  /-- Nothing between the start and `_updatesSeq` is missing… -/
  filled : ∀ p, s₀ < p → p ≤ u.updatesSeq → ∃ c ∈ fs, c.Covers p
  kept : ∀ s c, u.bySeqUpdates.find? s = some c →
    c ∈ xs ∧ c.Numbered ∧ c.seqStart = s ∧ u.updatesSeq + 1 < s
  /-- …and what came from above waits. -/
  waiting : ∀ c ∈ xs, c.Numbered → u.updatesSeq < c.seqStart →
    next = some c ∨ u.bySeqUpdates.find? c.seqStart = some c

variable {s₀ : ℤ} {xs fs : List (MTPUpdates V)} {u : Updates V} {c : MTPUpdates V}

theorem stateSeq_of_numbered (u : Updates V) (h : c.Numbered) : u.stateSeq c = c.seq := by
  cases c with
  | updateShort _ _ => exact absurd rfl h
  | _ => rfl

/-- A container that is not numbered moves nothing. -/
theorem stateSeq_of_not_numbered (u : Updates V) (hw : c.WellNumbered) (h : ¬ c.Numbered) :
    u.stateSeq c = 0 ∨ u.stateSeq c = u.updatesSeq := by
  rcases hw with ⟨-, h0⟩ | ⟨hn, -⟩
  · cases c with
    | updateShort _ _ => exact Or.inr rfl
    | _ => exact Or.inl h0
  · exact absurd hn h

/-- **The container that is next is fed**: the numbers move over its range, and the next one is the
kept one that begins there. -/
theorem Ordered.setState (hfam : Family xs) (h : Ordered s₀ xs fs (some c) u) (hc : c ∈ xs)
    (hn : c.Numbered) (hnext : c.seqStart = u.updatesSeq + 1) (date qts : ℤ) :
    let state := u.setState 0 date qts c.seq
    Ordered s₀ xs (fs ++ [c]) state.2.2 state.1 ∧ fed state.2.1 = [] ∧
      ∀ v, state.2.2 = some v → v ∈ xs ∧ v.Numbered ∧ v.seqStart = state.1.updatesSeq + 1 := by
  have hcov := hfam.covers_start hc hn
  have hle : c.seqStart ≤ c.seq := hcov.2.2
  obtain ⟨hseq, hq, hst, hfeed⟩ :=
    setState_moved (u := u) (hfam.seq_ne_zero hc hn) (by omega) date qts
  dsimp only
  refine ⟨?_, fed_eq_nil hfeed, fun v hv => ?_⟩
  · refine
      { start_le := ?_
        increasing := ?_
        fed_of := ?_
        filled := ?_
        kept := ?_
        waiting := ?_ }
    · have := h.start_le
      omega
    · refine List.pairwise_append.mpr ⟨h.increasing, List.pairwise_singleton _ _, ?_⟩
      intro a ha b hb
      obtain rfl := List.mem_singleton.mp hb
      have := (h.fed_of a ha).2.2
      omega
    · intro a ha
      rw [hseq]
      rcases List.mem_append.mp ha with ha | ha
      · obtain ⟨hx, hs, ha⟩ := h.fed_of a ha
        exact ⟨hx, hs, by omega⟩
      · obtain rfl := List.mem_singleton.mp ha
        have := h.start_le
        exact ⟨hc, by omega, le_refl _⟩
    · intro p hp hple
      rw [hseq] at hple
      by_cases hold : p ≤ u.updatesSeq
      · obtain ⟨a, ha, hap⟩ := h.filled p hp hold
        exact ⟨a, List.mem_append_left _ ha, hap⟩
      · exact ⟨c, List.mem_append_right _ (List.mem_singleton_self c), hn, by omega, hple⟩
    · intro s a ha
      rw [hq, FlatMap.find?_filter, Option.filter_eq_some_iff] at ha
      obtain ⟨hx, hna, hs, -⟩ := h.kept s a ha.1
      exact ⟨hx, hna, hs, by simpa [hseq] using ha.2⟩
    · intro a ha hna hlt
      rw [hseq] at hlt
      rw [hst, hq, FlatMap.find?_filter]
      rcases h.waiting a ha hna (by omega) with he | hfind
      · obtain rfl := Option.some.inj he
        omega
      · by_cases hfirst : a.seqStart = c.seq + 1
        · exact Or.inl (hfirst ▸ hfind)
        · refine Or.inr ?_
          rw [hfind, Option.filter_some, if_pos]
          simpa using (by omega : c.seq + 1 < a.seqStart)
  · rw [hst] at hv
    obtain ⟨hx, hnv, hs, -⟩ := h.kept _ v hv
    exact ⟨hx, hnv, by rw [hseq, hs]⟩

/-- **Feeding goes on as long as there is a next container**, and keeps the order. -/
theorem Ordered.feed (hfam : Family xs) (h : Ordered s₀ xs fs (some c) u) (hc : c ∈ xs)
    (hn : c.Numbered) (hnext : c.seqStart = u.updatesSeq + 1) :
    Ordered s₀ xs (fs ++ fed (applyUpdates u c).2) none (applyUpdates u c).1 := by
  induction hk : u.bySeqUpdates.size using Nat.strong_induction_on generalizing u c fs with
  | _ k ih =>
    obtain ⟨hu, hes⟩ := applyUpdates_feed (u := u) (c := c) (Or.inr hnext)
    obtain ⟨hord, hquiet, hgo⟩ := h.setState hfam hc hn hnext c.date u.updatesQts
    rw [stateSeq_of_numbered u hn] at hu hes
    rw [hu, hes, if_pos hn, hquiet, List.append_nil, ← List.append_assoc]
    cases hv : (u.setState 0 c.date u.updatesQts c.seq).2.2 with
    | none =>
      rw [hv] at hord
      simpa using hord
    | some v =>
      rw [hv] at hord
      obtain ⟨hvx, hvn, hvs⟩ := hgo v hv
      exact ih _ (hk ▸ size_setState_lt hv) hord hvx hvn hvs rfl

/-- A container comes: it is behind, or next, or waits. -/
theorem Ordered.arrive (h : Ordered s₀ xs fs none u) (next : Option (MTPUpdates V))
    (hc : c.Numbered → u.updatesSeq < c.seqStart →
      next = some c ∨ u.bySeqUpdates.find? c.seqStart = some c) :
    Ordered s₀ (xs ++ [c]) fs next u where
  start_le := h.start_le
  increasing := h.increasing
  fed_of := fun a ha => ⟨List.mem_append_left _ (h.fed_of a ha).1, (h.fed_of a ha).2⟩
  filled := h.filled
  kept := fun s a ha => ⟨List.mem_append_left _ (h.kept s a ha).1, (h.kept s a ha).2⟩
  waiting := fun a ha hn hlt => by
    rcases List.mem_append.mp ha with ha | ha
    · exact (h.waiting a ha hn hlt).imp_left (fun he => absurd he (by simp))
    · obtain rfl := List.mem_singleton.mp ha
      exact hc hn hlt

/-- A container ahead is kept under its first number. -/
theorem Ordered.keep (hfam : Family (xs ++ [c])) (h : Ordered s₀ xs fs none u) (hn : c.Numbered)
    (hgt : u.updatesSeq + 1 < c.seqStart) (active : Bool) :
    Ordered s₀ (xs ++ [c]) fs none { u with
      bySeqUpdates := u.bySeqUpdates.emplace c.seqStart c, bySeqTimerActive := active } := by
  have hc : c ∈ xs ++ [c] := List.mem_append_right _ (List.mem_singleton_self c)
  cases hf : u.bySeqUpdates.find? c.seqStart with
  | some a =>
    -- the family has one container that begins there, and it waits already
    obtain ⟨hx, hna, hs, -⟩ := h.kept _ a hf
    have hx' : a ∈ xs ++ [c] := List.mem_append_left _ hx
    have hcov := hfam.covers_start hx' hna
    rw [hs] at hcov
    obtain rfl := hfam.eq_of_covers hx' hc hcov (hfam.covers_start hc hn)
    rw [FlatMap.emplace_of_contains hf]
    have ho := h.arrive (c := a) none fun _ _ => Or.inr hf
    exact ⟨ho.start_le, ho.increasing, ho.fed_of, ho.filled, ho.kept, ho.waiting⟩
  | none =>
    have hfind : ∀ s, (u.bySeqUpdates.emplace c.seqStart c).find? s
        = if s = c.seqStart then some c else u.bySeqUpdates.find? s := fun s =>
      FlatMap.find?_emplace_of_none hf s c
    refine
      { start_le := h.start_le
        increasing := h.increasing
        fed_of := fun a ha => ⟨List.mem_append_left _ (h.fed_of a ha).1, (h.fed_of a ha).2⟩
        filled := h.filled
        kept := fun s a ha => ?_
        waiting := fun a ha hna hlt => ?_ }
    · rw [hfind] at ha
      split_ifs at ha with hs
      · obtain rfl := Option.some.inj ha
        exact ⟨hc, hn, hs.symm, hs ▸ hgt⟩
      · exact ⟨List.mem_append_left _ (h.kept s a ha).1, (h.kept s a ha).2⟩
    · refine Or.inr ?_
      rw [hfind]
      split_ifs with hs
      · have hcov := hfam.covers_start ha hna
        rw [hs] at hcov
        rw [hfam.eq_of_covers ha hc hcov (hfam.covers_start hc hn)]
      · rcases List.mem_append.mp ha with ha | ha
        · exact (h.waiting a ha hna hlt).resolve_left (by simp)
        · exact absurd (congrArg seqStart (List.mem_singleton.mp ha)) hs

/-- **One delivery keeps the order.** -/
theorem Ordered.deliver (hfam : Family (xs ++ [c])) (h : Ordered s₀ xs fs none u) :
    Ordered s₀ (xs ++ [c]) (fs ++ fed (applyUpdates u c).2) none (applyUpdates u c).1 := by
  have hc : c ∈ xs ++ [c] := List.mem_append_right _ (List.mem_singleton_self c)
  by_cases hn : c.Numbered
  · rcases lt_trichotomy c.seqStart (u.updatesSeq + 1) with hlt | hnext | hgt
    · rw [applyUpdates, if_pos ⟨hn, by omega⟩]
      simpa [fed] using h.arrive none fun _ hlt' => absurd hlt (by omega)
    · exact (h.arrive (some c) fun _ _ => Or.inl rfl).feed hfam hc hn hnext
    · rw [applyUpdates, if_neg (by omega), if_pos ⟨hn, hgt⟩]
      rw [fed_eq_nil (by simp), List.append_nil]
      exact h.keep hfam hn hgt true
  · obtain ⟨hu, hes⟩ := applyUpdates_feed (u := u) (c := c) (Or.inl (not_not.mp hn))
    obtain ⟨hseq, hq, hst⟩ := setState_same
      (stateSeq_of_not_numbered u (hfam.wellNumbered c hc) hn) c.date u.updatesQts
    rw [hst] at hu hes
    rw [hu, hes, if_neg hn]
    have ho := h.arrive none fun hn' => absurd hn' hn
    simp only [Option.elim, fed, List.filterMap_nil, List.append_nil]
    exact
      { start_le := hseq ▸ ho.start_le
        increasing := ho.increasing
        fed_of := hseq ▸ ho.fed_of
        filled := hseq ▸ ho.filled
        kept := by rw [hseq, hq]; exact ho.kept
        waiting := by rw [hseq, hq]; exact ho.waiting }

/-- The start of a run: nothing came and nothing waits. -/
theorem ordered_start (h : u.bySeqUpdates = .empty) : Ordered u.updatesSeq [] [] none u where
  start_le := le_refl _
  increasing := List.Pairwise.nil
  fed_of := fun c hc => absurd hc List.not_mem_nil
  filled := fun p hp hle => absurd hle (not_le.mpr hp)
  kept := fun s c hc => by simp [h] at hc
  waiting := fun c hc => absurd hc List.not_mem_nil

/-- **Every run of deliveries keeps the order.** -/
theorem ordered_run (h : u.bySeqUpdates = .empty) (hfam : Family xs) :
    Ordered u.updatesSeq xs (fed (run applyUpdates u xs).2) none (run applyUpdates u xs).1 := by
  induction xs using List.reverseRecOn with
  | nil => exact ordered_start h
  | append_singleton xs c ih =>
    have ih := ih hfam.of_append
    rw [run_concat, fed_append]
    exact ih.deliver hfam

/-! ## The order of a run -/

/-- Along an order a container was fed when the numbers passed over its range. -/
theorem Ordered.mem_fed {all : List (MTPUpdates V)} (hall : Family all) (hsub : ∀ a ∈ xs, a ∈ all)
    (h : Ordered s₀ xs fs none u) (hc : c ∈ all) (hn : c.Numbered) (hs : s₀ < c.seqStart)
    (hle : c.seq ≤ u.updatesSeq) : c ∈ fs := by
  have hcov := hall.covers_start hc hn
  obtain ⟨a, ha, hacov⟩ := h.filled c.seqStart hs (le_trans hcov.2.2 hle)
  have hax := hsub a (h.fed_of a ha).1
  exact hall.eq_of_covers hax hc hacov hcov ▸ ha

/-- What waits, waits for a number that did not come. -/
theorem Ordered.missing (hfam : Family xs) (h : Ordered s₀ xs fs none u) {s : ℤ}
    (hk : u.bySeqUpdates.find? s = some c) :
    u.updatesSeq + 1 < s ∧ ∀ a ∈ xs, a.Covers (u.updatesSeq + 1) → a.seqStart ≤ s₀ := by
  refine ⟨(h.kept s c hk).2.2.2, fun a ha ⟨hn, hle, hge⟩ => ?_⟩
  by_contra hs
  rw [not_le] at hs
  by_cases hlow : a.seqStart ≤ u.updatesSeq
  · -- its first number was passed over, so it was fed
    obtain ⟨b, hb, hbcov⟩ := h.filled a.seqStart hs hlow
    obtain ⟨hbx, -, hbseq⟩ := h.fed_of b hb
    obtain rfl := hfam.eq_of_covers hbx ha hbcov (hfam.covers_start ha hn)
    omega
  · rcases h.waiting a ha hn (not_le.mp hlow) with he | hf
    · exact absurd he (by simp)
    · have := (h.kept _ a hf).2.2.2
      omega

theorem Ordered.nodup (hfam : Family xs) (h : Ordered s₀ xs fs none u)
    (hn : ∀ a ∈ fs, a.Numbered) : fs.Nodup := by
  refine (List.Pairwise.imp_of_mem ?_ h.increasing)
  rintro a b ha - hlt rfl
  have := (hfam.covers_start (h.fed_of a ha).1 (hn a ha)).2.2
  omega

theorem numbered_of_mem_fed {es : List (Effect V)} (h : c ∈ fed es) : c.Numbered := by
  obtain ⟨e, -, he⟩ := List.mem_filterMap.mp h
  cases e with
  | feed a =>
    simp only [Effect.fed?] at he
    split_ifs at he with hn
    exact Option.some.inj he ▸ hn
  | _ => exact absurd he (by simp [Effect.fed?])

/-- **Containers are fed in the order of `seq`, each once.**  For a family of containers whose ranges
do not overlap, at every moment of a run of deliveries in any order and with duplicates: the numbered
containers fed are in increasing order and none is fed twice; every container of the family whose
range lies between the start and `_updatesSeq` was fed once; and a container is kept while the number
after `_updatesSeq`, which lies below it, did not come (but in a container from before the start). -/
theorem fed_in_order [DecidableEq V] (u : Updates V) (hu : u.bySeqUpdates = .empty)
    (all : List (MTPUpdates V)) (hall : Family all) (xs : List (MTPUpdates V)) (hxs : xs <+: all) :
    let r := run applyUpdates u xs
    ((fed r.2).Pairwise (fun c c' => c.seq < c'.seqStart) ∧ (fed r.2).Nodup) ∧
    (∀ c ∈ all, c.Numbered → u.updatesSeq < c.seqStart → c.seq ≤ r.1.updatesSeq →
      (fed r.2).count c = 1) ∧
    ∀ s c, r.1.bySeqUpdates.find? s = some c → c.seqStart = s ∧ r.1.updatesSeq + 1 < s ∧
      ∀ a ∈ xs, a.Covers (r.1.updatesSeq + 1) → a.seqStart ≤ u.updatesSeq := by
  obtain ⟨ys, rfl⟩ := hxs
  have hfam : Family xs := hall.of_append
  have h := ordered_run hu hfam
  have hnodup := h.nodup hfam fun a ha => numbered_of_mem_fed ha
  refine ⟨⟨h.increasing, hnodup⟩, fun c hc hn hs hle => ?_, fun s c hk => ?_⟩
  · exact List.count_eq_one_of_mem hnodup
      (h.mem_fed hall (fun a => List.mem_append_left ys) hc hn hs hle)
  · exact ⟨(h.kept s c hk).2.2.1, h.missing hfam hk⟩

/-- Four deliveries: one over a gap, what was missing, the next, and one again. -/
theorem fed_in_order_four :
    (fed (run applyUpdates ({} : Updates Unit)
      [.updatesCombined 2 4 0 (), .updates 1 0 (), .updates 5 0 (), .updates 1 0 ()]).2).count
        (.updatesCombined 2 4 0 ()) = 1 :=
  (fed_in_order {} rfl
    [.updatesCombined 2 4 0 (), .updates 1 0 (), .updates 5 0 (), .updates 1 0 ()] (by decide) _
    (List.prefix_refl _)).2.1 (.updatesCombined 2 4 0 ()) (by decide) (by decide) (by decide)
    (by decide +kernel)

end Updates

end Api

end Yunogram
