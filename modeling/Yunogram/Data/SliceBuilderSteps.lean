import Yunogram.Data.SliceBuilder

/-!
# Data/SliceBuilderSteps — what each operation of a slice builder keeps

A first result, an update and a removal each keep the builder consistent with the set as it is after
them, and leave no more ids than asked for.  Two of them do so under a condition: an update that the
set grew by (`GrowsSeen`), and a removal while nothing is in the window.
-/

namespace Yunogram.Data

open Machinery Storage

variable {α : Type} [LinearOrder α]

namespace SliceBuilder

variable {builder : SliceBuilder α} {ends : SliceEnds α} {T T' messageIds : Finset α}
  {count : Option ℤ} {messageId : α}

/-! ## The first result -/

/-- A result about `T` is true: its ids are a block of `T` and its counts are those of `T`. -/
structure Told (T : Finset α) (result : SliceResult α) : Prop where
  block : IsBlock T result.messageIds
  count : ∀ n, result.count = some n → n = T.card
  before_eq : result.messageIds.Nonempty → ∀ n, result.skippedBefore = some n →
    n = before T result.messageIds
  after_eq : result.messageIds.Nonempty → ∀ n, result.skippedAfter = some n →
    n = after T result.messageIds

/-- **A true result that makes a block with the window keeps the builder consistent.** -/
theorem Consistent.applyInitial {result : SliceResult α} (h : Consistent T builder)
    (hresult : Told T result) (hblock : IsBlock T (builder.ids ∪ result.messageIds)) :
    Consistent T (builder.applyInitial ends result).1 := by
  unfold SliceBuilder.applyInitial SliceBuilder.mergeSliceData
  refine Consistent.fillSkippedAndSliceToLimits ?_
  split_ifs with hne
  · refine .mergeIds hne hblock (fun n hn => ?_) (hresult.before_eq hne)
      (fun _ => h.before_eq) (hresult.after_eq hne) fun _ => h.after_eq
    rcases Option.or_eq_some_iff.mp hn with hn | ⟨-, hn⟩
    · exact hresult.count n hn
    · exact h.full n hn
  · exact .mergeCount h.block (fun _ => h.full) h.before_eq h.after_eq h.sum_eq hresult.count

/-! ## Updates -/

/-- An update tells how the set grew: it is true of the new set, and what is new is in it. -/
structure Tells (T T' : Finset α) (update : SliceUpdate α) : Prop where
  subset : T ⊆ T'
  new : ∀ x ∈ T', x ∉ T → ∃ ids, update.messages = some ids ∧ x ∈ ids
  truthful : update.Truthful T'

/-- **When the counts follow a growth.**  A known count of all must be told again.  A skipped count
that is known counts no new id: none comes on its side of the window, or the update is merged and
reaches that end of the full range; with nothing in the window, where both are known, the update is
merged. -/
structure GrowsSeen (ends : SliceEnds α) (builder : SliceBuilder α) (T T' : Finset α)
    (update : SliceUpdate α) : Prop where
  counted : T' ≠ T → builder.fullCount.isSome → update.count.isSome
  before : builder.ids.Nonempty → builder.skippedBefore.isSome →
    (∀ x ∈ T', x ∉ T → ∃ a ∈ builder.ids, a ≤ x) ∨
      builder.needMergeMessages update ∧ update.range.start = ends.least
  after : builder.ids.Nonempty → builder.skippedAfter.isSome →
    (∀ x ∈ T', x ∉ T → ∃ a ∈ builder.ids, x ≤ a) ∨
      builder.needMergeMessages update ∧ update.range.till = ends.greatest
  empty : builder.ids = ∅ → builder.skippedBefore.isSome → builder.skippedAfter.isSome →
    T' = T ∨ builder.needMergeMessages update

variable {update : SliceUpdate α}

theorem needMergeMessages_iff : builder.needMergeMessages update ↔ update.messages.isSome ∧
    update.range.start ≤ builder.window.till ∧ builder.window.start ≤ update.range.till := by
  rw [needMergeMessages, Bool.and_eq_true, Bool.and_eq_true, decide_eq_true_eq, decide_eq_true_eq,
    and_assoc]

theorem window_of_nonempty (hne : builder.ids.Nonempty) :
    builder.window = ⟨builder.ids.min' hne, builder.ids.max' hne⟩ := dif_pos hne

/-- **A growth that is not merged leaves the window a block.** -/
theorem block_grown (h : IsBlock T builder.ids) (htold : Tells T T' update)
    (hmerge : ¬ builder.needMergeMessages update) : IsBlock T' builder.ids := by
  refine ⟨h.subset.trans htold.subset, fun a ha b hb x hx hax hxb => ?_⟩
  by_cases hxT : x ∈ T
  · exact h.between a ha b hb x hxT hax hxb
  · obtain ⟨ids, hids, hxids⟩ := htold.new x hx hxT
    obtain ⟨-, hstart, htill⟩ := ((htold.truthful.messages ids hids).mem_iff x).mp hxids
    refine absurd (needMergeMessages_iff.mpr ⟨by rw [hids]; rfl, ?_, ?_⟩) hmerge
    · rw [window_of_nonempty ⟨a, ha⟩]
      exact hstart.trans (hxb.trans (builder.ids.le_max' b hb))
    · rw [window_of_nonempty ⟨a, ha⟩]
      exact (builder.ids.min'_le a ha).trans (hax.trans htill)

/-- **The ids of a range that meets the window make a block with it.** -/
theorem block_union (h : IsBlock T builder.ids) (htold : Tells T T' update) {ids : Finset α}
    (hids : update.messages = some ids) (hmerge : builder.needMergeMessages update) :
    IsBlock T' (builder.ids ∪ ids) := by
  have hfaithful := htold.truthful.messages ids hids
  obtain ⟨-, hstart, htill⟩ := needMergeMessages_iff.mp hmerge
  rcases builder.ids.eq_empty_or_nonempty with hempty | hne
  · rw [hempty, Finset.empty_union]
    exact hfaithful.isBlock
  rw [window_of_nonempty hne] at hstart htill
  refine ⟨Finset.union_subset (h.subset.trans htold.subset) hfaithful.isBlock.subset, ?_⟩
  intro a ha b hb x hx hax hxb
  rw [Finset.mem_union]
  by_cases hrange : update.range.Has x
  · exact .inr ((hfaithful.mem_iff x).mpr ⟨hx, hrange⟩)
  have hxT : x ∈ T := by
    by_contra hxT
    obtain ⟨ids', hids', hxids⟩ := htold.new x hx hxT
    exact hrange (((htold.truthful.messages ids' hids').mem_iff x).mp hxids).2
  -- outside the range and between two ids there: `x` is between the ends of the window
  have hlow : ∃ c ∈ builder.ids, c ≤ x := by
    by_contra hlow
    push Not at hlow
    have hain : a ∈ ids := (Finset.mem_union.mp ha).resolve_left fun ha => (hlow a ha).not_ge hax
    refine hrange ⟨((hfaithful.mem_iff a).mp hain).2.1.trans hax, ?_⟩
    exact (hlow _ (builder.ids.min'_mem hne)).le.trans htill
  have hhigh : ∃ c ∈ builder.ids, x ≤ c := by
    by_contra hhigh
    push Not at hhigh
    have hbin : b ∈ ids := (Finset.mem_union.mp hb).resolve_left fun hb => (hhigh b hb).not_ge hxb
    refine hrange ⟨?_, hxb.trans ((hfaithful.mem_iff b).mp hbin).2.2⟩
    exact hstart.trans (hhigh _ (builder.ids.max'_mem hne)).le
  obtain ⟨c, hc, hcx⟩ := hlow
  obtain ⟨d, hd, hxd⟩ := hhigh
  exact .inl (h.between c hc d hd x hxT hcx hxd)

/-- The skipped counts that stay are those of the grown set, where the update is not merged. -/
theorem Consistent.grown (h : Consistent T builder) (htold : Tells T T' update)
    (hseen : GrowsSeen ends builder T T' update) (hmerge : ¬ builder.needMergeMessages update) :
    (builder.ids.Nonempty → ∀ n, builder.skippedBefore = some n → n = before T' builder.ids) ∧
      (builder.ids.Nonempty → ∀ n, builder.skippedAfter = some n → n = after T' builder.ids) ∧
      (builder.ids = ∅ → ∀ n m, builder.skippedBefore = some n → builder.skippedAfter = some m →
        n + m = T'.card) := by
  refine ⟨fun hne n hn => ?_, fun hne n hn => ?_, fun hempty n m hn hm => ?_⟩
  · rcases hseen.before hne (by rw [hn]; rfl) with hnew | ⟨hmerge', -⟩
    · rw [before_grown htold.subset hnew]
      exact h.before_eq hne n hn
    · exact absurd hmerge' hmerge
  · rcases hseen.after hne (by rw [hn]; rfl) with hnew | ⟨hmerge', -⟩
    · rw [after_grown htold.subset hnew]
      exact h.after_eq hne n hn
    · exact absurd hmerge' hmerge
  · rcases hseen.empty hempty (by rw [hn]; rfl) (by rw [hm]; rfl) with rfl | hmerge'
    · exact h.sum_eq hempty n m hn hm
    · exact absurd hmerge' hmerge

/-- A count of all that is not told again is that of the grown set. -/
theorem Consistent.full_grown (h : Consistent T builder) (hseen : GrowsSeen ends builder T T' update)
    (hcount : update.count = none) : ∀ n, builder.fullCount = some n → n = T'.card := by
  intro n hn
  have hT : T' = T := by
    by_contra hT
    have hsome := hseen.counted hT (by rw [hn]; rfl)
    rw [hcount] at hsome
    exact nomatch hsome
  rw [hT]
  exact h.full n hn

/-- An update is merged where its range meets the window. -/
theorem Consistent.merged (h : Consistent T builder) (htold : Tells T T' update)
    (hbounds : ∀ x ∈ T', ends.least ≤ x ∧ x ≤ ends.greatest)
    (hseen : GrowsSeen ends builder T T' update) (hmerge : builder.needMergeMessages update)
    {ids : Finset α} (hids : update.messages = some ids) (hne : ids.Nonempty) :
    Consistent T' (builder.mergeIds update.count ids hne
      (if update.range.start = ends.least then some 0 else none)
      (if update.range.till = ends.greatest then some 0 else none)) := by
  have hfaithful := htold.truthful.messages ids hids
  obtain ⟨a, ha⟩ := hne
  obtain ⟨-, hstart, htill⟩ := (hfaithful.mem_iff a).mp ha
  refine .mergeIds ⟨a, ha⟩ (block_union h.block htold hids hmerge) (fun n hn => ?_) (fun n hn => ?_)
    (fun hnone hwindow n hn => ?_) (fun n hn => ?_) fun hnone hwindow n hn => ?_
  · rcases Option.or_eq_some_iff.mp hn with hn | ⟨hcount, hn⟩
    · exact htold.truthful.count_eq n hn
    · exact h.full_grown hseen hcount n hn
  · split_ifs at hn with hleast
    obtain rfl := Option.some.inj hn
    have hzero : before T' ids = 0 := by
      refine Finset.card_eq_zero.mpr (Finset.filter_eq_empty_iff.mpr fun x hx hlt => ?_)
      have hxids : x ∈ ids := (hfaithful.mem_iff x).mpr
        ⟨hx, (hleast ▸ (hbounds x hx).1 : update.range.start ≤ x), (hlt a ha).le.trans htill⟩
      exact lt_irrefl x (hlt x hxids)
    rw [hzero]
    rfl
  · split_ifs at hnone with hleast
    rcases hseen.before hwindow (by rw [hn]; rfl) with hnew | ⟨-, hleast'⟩
    · rw [before_grown htold.subset hnew]
      exact h.before_eq hwindow n hn
    · exact absurd hleast' hleast
  · split_ifs at hn with hgreatest
    obtain rfl := Option.some.inj hn
    have hzero : after T' ids = 0 := by
      refine Finset.card_eq_zero.mpr (Finset.filter_eq_empty_iff.mpr fun x hx hlt => ?_)
      have hxids : x ∈ ids := (hfaithful.mem_iff x).mpr
        ⟨hx, hstart.trans (hlt a ha).le, (hgreatest ▸ (hbounds x hx).2 : x ≤ update.range.till)⟩
      exact lt_irrefl x (hlt x hxids)
    rw [hzero]
    rfl
  · split_ifs at hnone with hgreatest
    rcases hseen.after hwindow (by rw [hn]; rfl) with hnew | ⟨-, hgreatest'⟩
    · rw [after_grown htold.subset hnew]
      exact h.after_eq hwindow n hn
    · exact absurd hgreatest' hgreatest

/-- **A true update keeps the builder consistent**, where the counts follow the growth. -/
theorem Consistent.applyUpdate (h : Consistent T builder) (htold : Tells T T' update)
    (hbounds : ∀ x ∈ T', ends.least ≤ x ∧ x ≤ ends.greatest)
    (hseen : GrowsSeen ends builder T T' update) :
    Consistent T' (builder.applyUpdate ends update).1.1 := by
  unfold SliceBuilder.applyUpdate
  by_cases hmerge : builder.needMergeMessages update
  · rw [hmerge]
    obtain ⟨ids, hids⟩ := Option.isSome_iff_exists.mp (needMergeMessages_iff.mp hmerge).1
    rw [hids]
    refine Consistent.fillSkippedAndSliceToLimits ?_
    show Consistent T' (if h : ids.Nonempty then _ else _)
    by_cases hne : ids.Nonempty
    · rw [dif_pos hne]
      exact h.merged htold hbounds hseen hmerge hids hne
    · -- nothing is new where the slice has no ids
      have hT : T = T' := by
        refine subset_antisymm htold.subset fun x hx => by_contra fun hx' => hne ?_
        obtain ⟨ids', hids', hx'⟩ := htold.new x hx hx'
        exact ⟨x, Option.some.inj (hids.symm.trans hids') ▸ hx'⟩
      rw [dif_neg hne, ← hT]
      exact .mergeCount h.block (fun _ => h.full) h.before_eq h.after_eq h.sum_eq
        (hT ▸ htold.truthful.count_eq)
  · have hblock := block_grown h.block htold hmerge
    obtain ⟨hbefore, hafter, hsum⟩ := h.grown htold hseen hmerge
    rw [Bool.not_eq_true] at hmerge
    rw [hmerge]
    cases hcount : update.count with
    | none => exact ⟨hblock, h.full_grown hseen hcount, hbefore, hafter, hsum⟩
    | some total =>
      refine Consistent.fillSkippedAndSliceToLimits ?_
      show Consistent T' (if h : (∅ : Finset α).Nonempty then _ else _)
      rw [dif_neg Finset.not_nonempty_empty]
      refine .mergeCount hblock (fun hnone => nomatch hnone) hbefore hafter hsum ?_
      exact hcount ▸ htold.truthful.count_eq

theorem applyUpdate_limited (h : builder.Limited ends) :
    (builder.applyUpdate ends update).1.1.Limited ends := by
  unfold SliceBuilder.applyUpdate
  split_ifs
  · exact h
  all_goals exact sliceToLimits_limited

/-! ## Removals -/

omit [LinearOrder α] in
/-- The part of a removal about the count leaves the rest. -/
theorem uncount_eq (builder : SliceBuilder α) : builder.uncount.1
    = { builder with fullCount := builder.fullCount.map fun n => if 0 < n then n - 1 else n } := by
  obtain ⟨key, limitBefore, limitAfter, ids, fullCount, skippedBefore, skippedAfter⟩ := builder
  cases fullCount with
  | none => rfl
  | some n =>
    show (if 0 < n then _ else _ : SliceBuilder α × Bool).1 = _
    by_cases hn : 0 < n
    · rw [if_pos hn, Option.map_some, if_pos hn]
    · rw [if_neg hn, Option.map_some, if_neg hn]

/-- **Removing an id keeps the builder consistent**, but where nothing is in the window and both
skipped counts are known: it is not known on which side the id was. -/
theorem Consistent.removeItem (h : Consistent T builder) (hid : messageId ∈ T)
    (hside : builder.ids = ∅ → builder.skippedBefore = none ∨ builder.skippedAfter = none) :
    Consistent (T.erase messageId) (builder.removeItem messageId).1 := by
  have hpos : 0 < T.card := Finset.card_pos.mpr ⟨messageId, hid⟩
  have hcard : (T.erase messageId).card = T.card - 1 := Finset.card_erase_of_mem hid
  have hfull : ∀ n, builder.uncount.1.fullCount = some n → n = (T.erase messageId).card := by
    intro n hn
    rw [uncount_eq] at hn
    obtain ⟨m, hm, rfl⟩ := Option.map_eq_some_iff.mp hn
    have hm := h.full m hm
    rw [if_pos (by omega)]
    omega
  have hrest : ∀ {b : SliceBuilder α}, b = builder.uncount.1 → b.ids = builder.ids ∧
      b.skippedBefore = builder.skippedBefore ∧ b.skippedAfter = builder.skippedAfter := by
    rintro b rfl
    rw [uncount_eq]
    exact ⟨rfl, rfl, rfl⟩
  obtain ⟨hids, hbefore, hafter⟩ := hrest rfl
  unfold SliceBuilder.removeItem
  dsimp only
  by_cases hmem : messageId ∈ builder.ids
  · rw [if_pos hmem]
    refine ⟨h.block.erase, hfull, fun hne n hn => ?_, fun hne n hn => ?_, fun hempty n m hn hm => ?_⟩
    · rw [before_erase h.block hmem hne]
      exact h.before_eq ⟨messageId, hmem⟩ n (hbefore ▸ hn)
    · rw [after_erase h.block hmem hne]
      exact h.after_eq ⟨messageId, hmem⟩ n (hafter ▸ hn)
    · have hn := h.before_eq ⟨messageId, hmem⟩ n (hbefore ▸ hn)
      have hm := h.after_eq ⟨messageId, hmem⟩ m (hafter ▸ hm)
      have htotal := h.block.card ⟨messageId, hmem⟩
      have hone := Finset.card_erase_of_mem hmem
      rw [Finset.card_eq_zero.mpr hempty] at hone
      have hidspos := Finset.card_pos.mpr ⟨messageId, hmem⟩
      omega
  have hblock : IsBlock (T.erase messageId) builder.ids := by
    have herase := h.block.erase (y := messageId)
    rwa [Finset.erase_eq_of_notMem hmem] at herase
  rw [if_neg hmem]
  by_cases hne : builder.ids.Nonempty
  · rw [dif_pos hne]
    have hbefore' := before_erase_of_notMem (s := builder.ids) hid
    have hafter' := after_erase_of_notMem (s := builder.ids) hid
    by_cases hlow : messageId < builder.ids.min' hne
    · -- under the window: one less is skipped before it, if that is known
      have hall : ∀ a ∈ builder.ids, messageId < a := fun a ha =>
        hlow.trans_le (builder.ids.min'_le a ha)
      have hhigh : ¬ builder.ids.max' hne < messageId := (hall _ (builder.ids.max'_mem hne)).not_gt
      rw [if_pos hall] at hbefore'
      rw [if_neg fun hlt => hhigh (hlt _ (builder.ids.max'_mem hne))] at hafter'
      rw [if_neg (c := builder.ids.max' hne < messageId ∧ _) fun hlt => hhigh hlt.1]
      split_ifs with hknown
      · refine ⟨hids ▸ hblock, hfull, fun _ n hn => ?_, fun _ n hn => ?_,
          fun hempty => absurd (hids.symm.trans hempty) hne.ne_empty⟩
        · obtain ⟨m, hm, rfl⟩ := Option.map_eq_some_iff.mp hn
          have hm := h.before_eq hne m hm
          show m - 1 = (before (T.erase messageId) builder.uncount.1.ids : ℤ)
          rw [hids]
          omega
        · have hn := h.after_eq hne n (hafter ▸ hn)
          show n = (after (T.erase messageId) builder.uncount.1.ids : ℤ)
          rw [hids]
          omega
      · refine ⟨hids ▸ hblock, hfull, fun _ n hn => ?_, fun _ n hn => ?_,
          fun hempty => absurd (hids.symm.trans hempty) hne.ne_empty⟩
        · rw [hbefore] at hn
          have hn' := h.before_eq hne n hn
          exact absurd ⟨hlow, by rw [hn]; simp only [Option.any_some, decide_eq_true_eq]; omega⟩ hknown
        · rw [hids]
          have hn := h.after_eq hne n (hafter ▸ hn)
          omega
    · -- over the window: one less is skipped after it
      have hhigh : builder.ids.max' hne < messageId := by
        refine not_le.mp fun hle => hmem ?_
        exact h.block.between _ (builder.ids.min'_mem hne) _ (builder.ids.max'_mem hne) messageId hid
          (not_lt.mp hlow) hle
      have hall : ∀ a ∈ builder.ids, a < messageId := fun a ha =>
        (builder.ids.le_max' a ha).trans_lt hhigh
      rw [if_pos hall] at hafter'
      rw [if_neg fun hlt => hlow (hlt _ (builder.ids.min'_mem hne))] at hbefore'
      rw [if_neg (c := messageId < builder.ids.min' hne ∧ _) fun hlt => hlow hlt.1]
      split_ifs with hknown
      · refine ⟨hids ▸ hblock, hfull, fun _ n hn => ?_, fun _ n hn => ?_,
          fun hempty => absurd (hids.symm.trans hempty) hne.ne_empty⟩
        · have hn := h.before_eq hne n (hbefore ▸ hn)
          show n = (before (T.erase messageId) builder.uncount.1.ids : ℤ)
          rw [hids]
          omega
        · obtain ⟨m, hm, rfl⟩ := Option.map_eq_some_iff.mp hn
          have hm := h.after_eq hne m hm
          show m - 1 = (after (T.erase messageId) builder.uncount.1.ids : ℤ)
          rw [hids]
          omega
      · refine ⟨hids ▸ hblock, hfull, fun _ n hn => ?_, fun _ n hn => ?_,
          fun hempty => absurd (hids.symm.trans hempty) hne.ne_empty⟩
        · rw [hids]
          have hn := h.before_eq hne n (hbefore ▸ hn)
          omega
        · rw [hafter] at hn
          have hn' := h.after_eq hne n hn
          exact absurd ⟨hhigh, by rw [hn]; simp only [Option.any_some, decide_eq_true_eq]; omega⟩ hknown
  · rw [dif_neg hne]
    have hempty := Finset.not_nonempty_iff_eq_empty.mp hne
    refine ⟨hids ▸ hblock, hfull, fun hne' => absurd (hids ▸ hne') hne,
      fun hne' => absurd (hids ▸ hne') hne, fun _ n m hn hm => ?_⟩
    rw [hbefore] at hn
    rw [hafter] at hm
    rcases hside hempty with hnone | hnone
    · rw [hnone] at hn
      exact nomatch hn
    · rw [hnone] at hm
      exact nomatch hm

/-! ## What no operation changes -/

/-- What a builder was made with. -/
def settings (builder : SliceBuilder α) : α × ℕ × ℕ :=
  (builder.key, builder.limitBefore, builder.limitAfter)

@[simp] theorem sliceToLimits_settings :
    (builder.sliceToLimits ends).1.settings = builder.settings := by
  rw [sliceToLimits_fst]
  split_ifs <;> rfl

omit [LinearOrder α] in
@[simp] theorem fillSkipped_settings : builder.fillSkipped.settings = builder.settings := by
  unfold SliceBuilder.fillSkipped
  split <;> rfl

omit [LinearOrder α] in
@[simp] theorem mergeCount_settings : (builder.mergeCount count).settings = builder.settings := by
  cases count with
  | none => rfl
  | some total =>
    rw [SliceBuilder.mergeCount]
    split_ifs <;> rfl

@[simp] theorem mergeSliceData_settings {skippedBefore skippedAfter : Option ℤ} :
    (builder.mergeSliceData ends count messageIds skippedBefore skippedAfter).1.settings
      = builder.settings := by
  unfold SliceBuilder.mergeSliceData SliceBuilder.fillSkippedAndSliceToLimits
  rw [sliceToLimits_settings, fillSkipped_settings]
  split_ifs
  · rfl
  · exact mergeCount_settings

@[simp] theorem applyUpdate_settings :
    (builder.applyUpdate ends update).1.1.settings = builder.settings := by
  unfold SliceBuilder.applyUpdate
  split_ifs
  · rfl
  all_goals exact mergeSliceData_settings

/-- A removal changes nothing of this and adds nothing to the window. -/
theorem removeItem_settings : (builder.removeItem messageId).1.settings = builder.settings ∧
    (builder.removeItem messageId).1.ids ⊆ builder.ids := by
  have hcounted : builder.uncount.1.settings = builder.settings ∧
      builder.uncount.1.ids ⊆ builder.ids := by
    rw [uncount_eq]
    exact ⟨rfl, subset_rfl⟩
  unfold SliceBuilder.removeItem
  dsimp only
  split_ifs
  · exact ⟨hcounted.1, Finset.erase_subset _ _⟩
  all_goals exact hcounted

/-- A window with less in it is within the limits still. -/
theorem Limited.mono {smaller : SliceBuilder α} (h : builder.Limited ends)
    (hsettings : smaller.settings = builder.settings) (hids : smaller.ids ⊆ builder.ids) :
    smaller.Limited ends := by
  obtain ⟨hkey, hlimits⟩ := Prod.mk.inj hsettings
  obtain ⟨hbefore, hafter⟩ := Prod.mk.inj hlimits
  intro hset
  obtain ⟨hlow, hhigh⟩ := h (hkey ▸ hset)
  rw [WithinLimits, hkey, hbefore, hafter]
  exact ⟨(Finset.card_le_card (Finset.filter_subset_filter _ hids)).trans hlow,
    (Finset.card_le_card (Finset.filter_subset_filter _ hids)).trans hhigh⟩

theorem Limited.init (key : α) (limitBefore limitAfter : ℕ) :
    (init key limitBefore limitAfter).Limited ends :=
  fun _ => ⟨Nat.zero_le _, Nat.zero_le _⟩

theorem Limited.removeItem (h : builder.Limited ends) :
    (builder.removeItem messageId).1.Limited ends :=
  h.mono removeItem_settings.1 removeItem_settings.2

theorem Limited.removeAll (h : builder.Limited ends) : builder.removeAll.Limited ends :=
  h.mono rfl (Finset.empty_subset _)

theorem Consistent.removeAll : Consistent ∅ builder.removeAll where
  block := .empty
  full _ hn := (Option.some.inj hn).symm
  before_eq hne := absurd rfl hne.ne_empty
  after_eq hne := absurd rfl hne.ne_empty
  sum_eq _ _ _ hn hm := by
    obtain rfl := Option.some.inj hn
    obtain rfl := Option.some.inj hm
    rfl

theorem Consistent.invalidateBottom (h : Consistent T builder) :
    Consistent T (builder.invalidateBottom ends).1 := by
  refine Consistent.sliceToLimits ⟨h.block, fun n hn => ?_, h.before_eq, fun _ n hn => ?_,
    fun _ n m _ hm => ?_⟩
  · exact nomatch hn
  · exact nomatch hn
  · exact nomatch hm

end SliceBuilder

end Yunogram.Data
