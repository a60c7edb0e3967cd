import Yunogram.Data.RepliesList
import Yunogram.Data.SliceBuilderSteps
import Yunogram.Storage.SparseIdsList

/-!
# Data/SparseIdsSlice — the builder of slices of message ids

`SparseIdsSliceBuilder` is the slice builder over message ids, where no id is the key 0.  A removal
that changed something trims the window again.

Two kinds of truthful steps make its counts wrong.  An id that is new, told in a slice that does not
meet the window, changes the full count and leaves the skipped count of its side; and an id removed
while nothing is in the window changes the full count alone.  `slice_consistent`: in every run
without such steps the counts add up, and the window is a block of the ids within the limits.
-/

namespace Yunogram.Data

open Machinery Storage

/-- The ends of the range of server ids; no id is 0. -/
def sparseIdsEnds : SliceEnds MsgId := ⟨0, serverMaxMsgId, 0, fun id => id ≠ 0⟩

/-- `SparseIdsSliceBuilder`. -/
abbrev SparseIdsSliceBuilder := SliceBuilder MsgId

namespace SparseIdsSliceBuilder

/-- `applyInitial`. -/
def applyInitial (builder : SparseIdsSliceBuilder) (result : SliceResult MsgId) :
    SparseIdsSliceBuilder × List (AroundData MsgId) :=
  SliceBuilder.applyInitial sparseIdsEnds builder result

/-- `applyUpdate`. -/
def applyUpdate (builder : SparseIdsSliceBuilder) (update : SliceUpdate MsgId) :
    (SparseIdsSliceBuilder × List (AroundData MsgId)) × Bool :=
  SliceBuilder.applyUpdate sparseIdsEnds builder update

/-- `removeOne`: the window is trimmed again where something changed. -/
def removeOne (builder : SparseIdsSliceBuilder) (messageId : MsgId) :
    (SparseIdsSliceBuilder × List (AroundData MsgId)) × Bool :=
  let removed := SliceBuilder.removeItem builder messageId
  if removed.2 then (SliceBuilder.checkInsufficient sparseIdsEnds removed.1, true)
  else ((removed.1, []), false)

/-- `removeAll`. -/
def removeAll (builder : SparseIdsSliceBuilder) : SparseIdsSliceBuilder :=
  SliceBuilder.removeAll builder

/-- `invalidateBottom`. -/
def invalidateBottom (builder : SparseIdsSliceBuilder) :
    SparseIdsSliceBuilder × List (AroundData MsgId) :=
  SliceBuilder.invalidateBottom sparseIdsEnds builder

/-- `checkInsufficient`. -/
def checkInsufficient (builder : SparseIdsSliceBuilder) :
    SparseIdsSliceBuilder × List (AroundData MsgId) :=
  SliceBuilder.checkInsufficient sparseIdsEnds builder

/-! ## Steps -/

/-- What a builder is told after its first result. -/
inductive Op where
  | applyUpdate (update : SliceUpdate MsgId)
  | removeOne (messageId : MsgId)
  | removeAll
  | invalidateBottom
  | checkInsufficient

/-- What an operation makes of a builder. -/
def apply (builder : SparseIdsSliceBuilder) : Op → SparseIdsSliceBuilder
  | .applyUpdate update => (applyUpdate builder update).1.1
  | .removeOne messageId => (removeOne builder messageId).1.1
  | .removeAll => removeAll builder
  | .invalidateBottom => (invalidateBottom builder).1
  | .checkInsufficient => (checkInsufficient builder).1

/-- **When an operation tells the truth** as the ids change from `T` to `T'`: an update tells how they
grew, an id removed was there. -/
def Op.Truthful (T T' : Finset MsgId) : Op → Prop
  | .applyUpdate update => SliceBuilder.Tells T T' update ∧ ServerIds T'
  | .removeOne messageId => messageId ∈ T ∧ T' = T.erase messageId
  | .removeAll => T' = ∅
  | .invalidateBottom | .checkInsufficient => T' = T

/-- **When the counts follow an operation**: the growth an update tells of is seen, and an id is not
removed with nothing in the window and both skipped counts known. -/
def Op.Seen (builder : SparseIdsSliceBuilder) (T T' : Finset MsgId) : Op → Prop
  | .applyUpdate update => SliceBuilder.GrowsSeen sparseIdsEnds builder T T' update
  | .removeOne _ =>
    builder.ids = ∅ → builder.skippedBefore = none ∨ builder.skippedAfter = none
  | .removeAll | .invalidateBottom | .checkInsufficient => True

/-- One truthful operation on the ids there are and on a builder. -/
def Step (s s' : Finset MsgId × SparseIdsSliceBuilder) : Prop :=
  ∃ op : Op, op.Truthful s.1 s'.1 ∧ s'.2 = apply s.2 op

/-- One truthful operation that the counts follow. -/
def SeenStep (s s' : Finset MsgId × SparseIdsSliceBuilder) : Prop :=
  ∃ op : Op, op.Truthful s.1 s'.1 ∧ op.Seen s.2 s.1 s'.1 ∧ s'.2 = apply s.2 op

/-- What a builder says is right: its counts add up, and its window is a block of the ids with, where
there is a key, no more on its two sides than asked for. -/
structure Right (T : Finset MsgId) (builder : SparseIdsSliceBuilder) : Prop where
  sum : ∀ full before after, builder.fullCount = some full → builder.skippedBefore = some before →
    builder.skippedAfter = some after → before + builder.ids.card + after = full
  block : IsBlock T builder.ids
  before_key : builder.key ≠ 0 → (builder.ids.filter (· < builder.key)).card ≤ builder.limitBefore
  after_key : builder.key ≠ 0 →
    (builder.ids.filter (builder.key ≤ ·)).card ≤ builder.limitAfter + 1

/-! ## Runs -/

variable {T T' : Finset MsgId} {builder : SparseIdsSliceBuilder} {op : Op}

/-- What every run keeps. -/
structure Kept (T : Finset MsgId) (builder : SparseIdsSliceBuilder) : Prop where
  consistent : SliceBuilder.Consistent T builder
  limited : SliceBuilder.Limited sparseIdsEnds builder

/-- **A step that the counts follow keeps the builder consistent.** -/
theorem Kept.apply (h : Kept T builder) (hop : op.Truthful T T') (hseen : op.Seen builder T T') :
    Kept T' (apply builder op) := by
  cases op with
  | applyUpdate update =>
    exact ⟨h.consistent.applyUpdate hop.1 hop.2 hseen, SliceBuilder.applyUpdate_limited h.limited⟩
  | removeOne messageId =>
    obtain ⟨hid, rfl⟩ := hop
    have hconsistent := h.consistent.removeItem hid hseen
    show Kept _ (removeOne builder messageId).1.1
    unfold removeOne
    dsimp only
    split_ifs
    · exact ⟨hconsistent.sliceToLimits, SliceBuilder.sliceToLimits_limited⟩
    · exact ⟨hconsistent, h.limited.removeItem⟩
  | removeAll =>
    obtain rfl : T' = ∅ := hop
    exact ⟨.removeAll, h.limited.removeAll⟩
  | invalidateBottom =>
    obtain rfl : T' = T := hop
    exact ⟨h.consistent.invalidateBottom, SliceBuilder.sliceToLimits_limited⟩
  | checkInsufficient =>
    obtain rfl : T' = T := hop
    exact ⟨h.consistent.sliceToLimits, SliceBuilder.sliceToLimits_limited⟩

/-- No operation changes the key and the limits. -/
theorem apply_settings : SliceBuilder.settings (apply builder op) = SliceBuilder.settings builder := by
  cases op with
  | applyUpdate update => exact SliceBuilder.applyUpdate_settings
  | removeOne messageId =>
    show SliceBuilder.settings (removeOne builder messageId).1.1 = _
    unfold removeOne
    dsimp only
    split_ifs
    · exact SliceBuilder.sliceToLimits_settings.trans SliceBuilder.removeItem_settings.1
    · exact SliceBuilder.removeItem_settings.1
  | removeAll => rfl
  | invalidateBottom => exact SliceBuilder.sliceToLimits_settings
  | checkInsufficient => exact SliceBuilder.sliceToLimits_settings

theorem SeenStep.kept {s s' : Finset MsgId × SparseIdsSliceBuilder}
    (hrun : Relation.ReflTransGen SeenStep s s') (h : Kept s.1 s.2) :
    Kept s'.1 s'.2 ∧ SliceBuilder.settings s'.2 = SliceBuilder.settings s.2 := by
  induction hrun with
  | refl => exact ⟨h, rfl⟩
  | tail _ hlast ih =>
    obtain ⟨op, hop, hseen, happly⟩ := hlast
    rw [happly]
    exact ⟨ih.1.apply hop hseen, apply_settings.trans ih.2⟩

/-- The builder after a true first result. -/
theorem Kept.applyInitial {key : MsgId} {limitBefore limitAfter : ℕ} {result : SliceResult MsgId}
    (hresult : SliceBuilder.Told T result) :
    Kept T (SparseIdsSliceBuilder.applyInitial (.init key limitBefore limitAfter) result).1 := by
  have hblock : IsBlock T (∅ ∪ result.messageIds) := by
    rw [Finset.empty_union]
    exact hresult.block
  exact ⟨(SliceBuilder.Consistent.init key limitBefore limitAfter).applyInitial hresult hblock,
    SliceBuilder.sliceToLimits_limited⟩

/-- **The builder is right in every run whose counts follow each step.**  After a true first result
and truthful updates, removals and invalidations that the counts follow, they add up, and the window
is a block of the ids with no more on the two sides of the key than asked for. -/
theorem slice_consistent {T₀ T : Finset MsgId} {key : MsgId} {limitBefore limitAfter : ℕ}
    {result : SliceResult MsgId} {builder : SparseIdsSliceBuilder}
    (hresult : SliceBuilder.Told T₀ result)
    (hrun : Relation.ReflTransGen SeenStep
      (T₀, (applyInitial (.init key limitBefore limitAfter) result).1) (T, builder)) :
    Right T builder ∧ builder.key = key ∧ builder.limitBefore = limitBefore ∧
      builder.limitAfter = limitAfter := by
  obtain ⟨hkept, hsettings⟩ := SeenStep.kept hrun (.applyInitial hresult)
  have hsame : SliceBuilder.settings builder = (key, limitBefore, limitAfter) :=
    hsettings.trans SliceBuilder.mergeSliceData_settings
  obtain ⟨hbuilderKey, hlimits⟩ := Prod.mk.inj hsame
  obtain ⟨hbefore, hafter⟩ := Prod.mk.inj hlimits
  have hlimited : builder.key ≠ 0 → SliceBuilder.WithinLimits builder := fun hkey =>
    hkept.limited (decide_eq_true hkey)
  exact ⟨⟨fun _ _ _ => hkept.consistent.sum, hkept.consistent.block, fun hkey => (hlimited hkey).1,
    fun hkey => (hlimited hkey).2⟩, hbuilderKey, hbefore, hafter⟩

/-- Three ids with the first in the window, and a fourth removed out of it. -/
theorem slice_consistent_removed :
    Right {10, 20, 30} (apply (applyInitial (.init 10 1 1) ⟨some 4, some 0, none, {10}⟩).1
      (.removeOne 40)) := by
  set first : SparseIdsSliceBuilder :=
    (applyInitial (.init 10 1 1) ⟨some 4, some 0, none, {10}⟩).1 with hfirst
  have hresult : SliceBuilder.Told ({10, 20, 30, 40} : Finset MsgId) ⟨some 4, some 0, none, {10}⟩ := by
    refine ⟨.singleton (by decide), fun n hn => (Option.some.inj hn).symm, fun _ n hn => ?_,
      fun _ n hn => nomatch hn⟩
    obtain rfl := Option.some.inj hn
    decide
  have hstep : SeenStep ({10, 20, 30, 40}, first) ({10, 20, 30}, apply first (.removeOne 40)) := by
    refine ⟨.removeOne 40, ⟨by decide, by decide⟩, fun hempty => ?_, rfl⟩
    exact absurd hempty (by rw [hfirst]; decide +kernel)
  exact (slice_consistent hresult (.single hstep)).1

/-- **A new id in a slice of its own, or one removed behind an empty window, makes the sum wrong**:
the first leaves 0 + 1 + 2 of 4, the second 1 + 0 + 0 of 0. -/
theorem slice_counts_stale :
    (SliceBuilder.Told ({10, 20, 30} : Finset MsgId) ⟨some 3, some 0, none, {10}⟩ ∧
      ∃ builder, Relation.ReflTransGen Step
          ({10, 20, 30}, (applyInitial (.init 10 0 0) ⟨some 3, some 0, none, {10}⟩).1)
          ({10, 20, 30, 40}, builder) ∧ ¬ Right {10, 20, 30, 40} builder) ∧
    SliceBuilder.Told ({5} : Finset MsgId) ⟨some 1, none, none, ∅⟩ ∧
      ∃ builder, Relation.ReflTransGen Step
          ({5}, (applyInitial (.init 7 0 0) ⟨some 1, none, none, ∅⟩).1) (∅, builder) ∧
        ¬ Right ∅ builder := by
  refine ⟨⟨?_, ?_⟩, ?_, ?_⟩
  · refine ⟨.singleton (by decide), fun n hn => (Option.some.inj hn).symm, fun _ n hn => ?_,
      fun _ n hn => nomatch hn⟩
    obtain rfl := Option.some.inj hn
    decide
  · have hupdate : SliceBuilder.Tells {10, 20, 30} ({10, 20, 30, 40} : Finset MsgId)
        ⟨some {40}, ⟨40, serverMaxMsgId⟩, some 4⟩ := by
      refine ⟨by decide, fun x hx hx' => ⟨{40}, rfl, ?_⟩, fun ids hids => ?_,
        fun n hn => (Option.some.inj hn).symm⟩
      · revert x
        decide
      · obtain rfl := Option.some.inj hids
        have hslice : ({10, 20, 30, 40} : Finset MsgId).filter (Range.Has ⟨40, serverMaxMsgId⟩)
          = {40} := by decide
        exact hslice ▸ Faithful.restrict (r := ⟨40, serverMaxMsgId⟩) _ (by decide)
    refine ⟨⟨10, 0, 0, {10}, some 4, some 0, some 2⟩, .single ⟨.applyUpdate
      ⟨some {40}, ⟨40, serverMaxMsgId⟩, some 4⟩, ⟨hupdate, ?_⟩, by decide +kernel⟩, fun h => ?_⟩
    · unfold ServerIds
      decide
    · exact absurd (h.sum 4 0 2 rfl rfl rfl) (by decide)
  · exact ⟨.empty, fun n hn => (Option.some.inj hn).symm, fun hne => absurd rfl hne.ne_empty,
      fun hne => absurd rfl hne.ne_empty⟩
  · have hupdate : SliceBuilder.Tells {5} ({5} : Finset MsgId)
        ⟨some {5}, ⟨0, serverMaxMsgId⟩, some 1⟩ := by
      refine ⟨subset_rfl, fun x hx hx' => absurd hx hx', fun ids hids => ?_,
        fun n hn => (Option.some.inj hn).symm⟩
      obtain rfl := Option.some.inj hids
      have hslice : ({5} : Finset MsgId).filter (Range.Has ⟨0, serverMaxMsgId⟩) = {5} := by decide
      exact hslice ▸ Faithful.restrict (r := ⟨0, serverMaxMsgId⟩) _ (by decide)
    have hfirst : Step ({5}, (applyInitial (.init 7 0 0) ⟨some 1, none, none, ∅⟩).1)
        ({5}, ⟨7, 0, 0, ∅, some 1, some 1, some 0⟩) :=
      ⟨.applyUpdate ⟨some {5}, ⟨0, serverMaxMsgId⟩, some 1⟩,
        ⟨hupdate, by unfold ServerIds; decide⟩, by decide +kernel⟩
    have hsecond : Step ({5}, ⟨7, 0, 0, ∅, some 1, some 1, some 0⟩)
        (∅, ⟨7, 0, 0, ∅, some 0, some 1, some 0⟩) :=
      ⟨.removeOne 5, ⟨by decide, by decide⟩, by decide +kernel⟩
    exact ⟨_, .tail (.single hfirst) hsecond, fun h => absurd (h.sum 0 1 0 rfl rfl rfl) (by decide)⟩

end SparseIdsSliceBuilder

end Yunogram.Data
