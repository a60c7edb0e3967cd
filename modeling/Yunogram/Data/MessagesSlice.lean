import Yunogram.Data.SliceBuilderSteps
import Yunogram.Data.MessagesList

/-!
# Data/MessagesSlice — the builder of slices of message positions

`MessagesSliceBuilder` is the slice builder over message positions, where a position without a message
id is no key.  A removal does not trim the window; `invalidated` forgets it.

The steps that make its counts wrong are those of `SparseIdsSliceBuilder`, and a new position may
come anywhere: merged with a slice that meets the window but does not reach the end of the full range
it makes a known skipped count wrong too.  A later result may also leave a gap to the window.
`slice_consistent_of_positions`: in every run without such steps the window is a block of the
positions within the limits and the counts add up.
-/

namespace Yunogram.Data

open Machinery Storage

/-- The ends of the range of positions; one without a message id is none. -/
def messagesEnds : SliceEnds MessagePosition :=
  ⟨minMessagePosition, maxMessagePosition, ⟨0, 0, 0⟩, fun position => position.msg ≠ 0⟩

/-- `MessagesSliceBuilder`. -/
abbrev MessagesSliceBuilder := SliceBuilder MessagePosition

namespace MessagesSliceBuilder

/-- `applyInitial`. -/
def applyInitial (builder : MessagesSliceBuilder) (result : SliceResult MessagePosition) :
    MessagesSliceBuilder × List (AroundData MessagePosition) :=
  SliceBuilder.applyInitial messagesEnds builder result

/-- `applyUpdate`. -/
def applyUpdate (builder : MessagesSliceBuilder) (update : SliceUpdate MessagePosition) :
    (MessagesSliceBuilder × List (AroundData MessagePosition)) × Bool :=
  SliceBuilder.applyUpdate messagesEnds builder update

/-- `removeOne`. -/
def removeOne (builder : MessagesSliceBuilder) (messageId : MessagePosition) :
    MessagesSliceBuilder × Bool :=
  SliceBuilder.removeItem builder messageId

/-- `removeAll`. -/
def removeAll (builder : MessagesSliceBuilder) : MessagesSliceBuilder :=
  SliceBuilder.removeAll builder

/-- `invalidated`; it says that nothing changed. -/
def invalidated (builder : MessagesSliceBuilder) :
    MessagesSliceBuilder × List (AroundData MessagePosition) :=
  SliceBuilder.checkInsufficient messagesEnds
    { builder with ids := ∅, fullCount := none, skippedBefore := none, skippedAfter := none }

/-- `bottomInvalidated`. -/
def bottomInvalidated (builder : MessagesSliceBuilder) :
    MessagesSliceBuilder × List (AroundData MessagePosition) :=
  SliceBuilder.invalidateBottom messagesEnds builder

/-- `checkInsufficient`. -/
def checkInsufficient (builder : MessagesSliceBuilder) :
    MessagesSliceBuilder × List (AroundData MessagePosition) :=
  SliceBuilder.checkInsufficient messagesEnds builder

/-! ## Steps -/

/-- What a builder is told. -/
inductive Op where
  | applyInitial (result : SliceResult MessagePosition)
  | applyUpdate (update : SliceUpdate MessagePosition)
  | removeOne (messageId : MessagePosition)
  | removeAll
  | invalidated
  | bottomInvalidated
  | checkInsufficient

/-- What an operation makes of a builder. -/
def apply (builder : MessagesSliceBuilder) : Op → MessagesSliceBuilder
  | .applyInitial result => (applyInitial builder result).1
  | .applyUpdate update => (applyUpdate builder update).1.1
  | .removeOne messageId => (removeOne builder messageId).1
  | .removeAll => removeAll builder
  | .invalidated => (invalidated builder).1
  | .bottomInvalidated => (bottomInvalidated builder).1
  | .checkInsufficient => (checkInsufficient builder).1

/-- **When an operation tells the truth** as the positions change from `T` to `T'`. -/
def Op.Truthful (T T' : Finset MessagePosition) : Op → Prop
  | .applyInitial result => SliceBuilder.Told T result ∧ T' = T
  | .applyUpdate update => SliceBuilder.Tells T T' update ∧ FullPositions T'
  | .removeOne messageId => messageId ∈ T ∧ T' = T.erase messageId
  | .removeAll => T' = ∅
  | .invalidated | .bottomInvalidated | .checkInsufficient => T' = T

/-- **When the window and the counts follow an operation**: a result leaves no position between its
own and the window, the growth an update tells of is seen, and a position is not removed with nothing
in the window and both skipped counts known. -/
def Op.Seen (builder : MessagesSliceBuilder) (T T' : Finset MessagePosition) : Op → Prop
  | .applyInitial result => IsBlock T (builder.ids ∪ result.messageIds)
  | .applyUpdate update => SliceBuilder.GrowsSeen messagesEnds builder T T' update
  | .removeOne _ =>
    builder.ids = ∅ → builder.skippedBefore = none ∨ builder.skippedAfter = none
  | .removeAll | .invalidated | .bottomInvalidated | .checkInsufficient => True

/-- One truthful operation on the positions there are and on a builder. -/
def Step (s s' : Finset MessagePosition × MessagesSliceBuilder) : Prop :=
  ∃ op : Op, op.Truthful s.1 s'.1 ∧ s'.2 = apply s.2 op

/-- One truthful operation that the window and the counts follow. -/
def SeenStep (s s' : Finset MessagePosition × MessagesSliceBuilder) : Prop :=
  ∃ op : Op, op.Truthful s.1 s'.1 ∧ op.Seen s.2 s.1 s'.1 ∧ s'.2 = apply s.2 op

/-- What a builder says is right: its window is a block of the positions with, where there is a key,
no more on its two sides than asked for, and its counts add up. -/
structure Right (T : Finset MessagePosition) (builder : MessagesSliceBuilder) : Prop where
  block : IsBlock T builder.ids
  before_key : builder.key.msg ≠ 0 → (builder.ids.filter (· < builder.key)).card ≤ builder.limitBefore
  after_key : builder.key.msg ≠ 0 →
    (builder.ids.filter (builder.key ≤ ·)).card ≤ builder.limitAfter + 1
  sum : ∀ full before after, builder.fullCount = some full → builder.skippedBefore = some before →
    builder.skippedAfter = some after → before + builder.ids.card + after = full

/-! ## Runs -/

variable {T T' : Finset MessagePosition} {builder : MessagesSliceBuilder} {op : Op}

/-- What every run keeps. -/
structure Kept (T : Finset MessagePosition) (builder : MessagesSliceBuilder) : Prop where
  consistent : SliceBuilder.Consistent T builder
  limited : SliceBuilder.Limited messagesEnds builder

/-- A builder that forgot everything is consistent with any set. -/
theorem invalidated_consistent : SliceBuilder.Consistent T
    { builder with ids := ∅, fullCount := none, skippedBefore := none, skippedAfter := none } where
  block := .empty
  full _ hn := nomatch hn
  before_eq hne := absurd rfl hne.ne_empty
  after_eq hne := absurd rfl hne.ne_empty
  sum_eq _ _ _ hn := nomatch hn

/-- **A step that the window and the counts follow keeps the builder consistent.** -/
theorem Kept.apply (h : Kept T builder) (hop : op.Truthful T T') (hseen : op.Seen builder T T') :
    Kept T' (apply builder op) := by
  cases op with
  | applyInitial result =>
    obtain ⟨hresult, rfl⟩ := hop
    exact ⟨h.consistent.applyInitial hresult hseen, SliceBuilder.sliceToLimits_limited⟩
  | applyUpdate update =>
    exact ⟨h.consistent.applyUpdate hop.1 hop.2 hseen, SliceBuilder.applyUpdate_limited h.limited⟩
  | removeOne messageId =>
    obtain ⟨hid, rfl⟩ := hop
    exact ⟨h.consistent.removeItem hid hseen, h.limited.removeItem⟩
  | removeAll =>
    obtain rfl : T' = ∅ := hop
    exact ⟨.removeAll, h.limited.removeAll⟩
  | invalidated => exact ⟨invalidated_consistent.sliceToLimits, SliceBuilder.sliceToLimits_limited⟩
  | bottomInvalidated =>
    obtain rfl : T' = T := hop
    exact ⟨h.consistent.invalidateBottom, SliceBuilder.sliceToLimits_limited⟩
  | checkInsufficient =>
    obtain rfl : T' = T := hop
    exact ⟨h.consistent.sliceToLimits, SliceBuilder.sliceToLimits_limited⟩

/-- No operation changes the key and the limits. -/
theorem apply_settings : SliceBuilder.settings (apply builder op) = SliceBuilder.settings builder := by
  cases op with
  | applyInitial result => exact SliceBuilder.mergeSliceData_settings
  | applyUpdate update => exact SliceBuilder.applyUpdate_settings
  | removeOne messageId => exact SliceBuilder.removeItem_settings.1
  | removeAll => rfl
  | invalidated => exact SliceBuilder.sliceToLimits_settings
  | bottomInvalidated => exact SliceBuilder.sliceToLimits_settings
  | checkInsufficient => exact SliceBuilder.sliceToLimits_settings

theorem SeenStep.kept {s s' : Finset MessagePosition × MessagesSliceBuilder}
    (hrun : Relation.ReflTransGen SeenStep s s') (h : Kept s.1 s.2) :
    Kept s'.1 s'.2 ∧ SliceBuilder.settings s'.2 = SliceBuilder.settings s.2 := by
  induction hrun with
  | refl => exact ⟨h, rfl⟩
  | tail _ hlast ih =>
    obtain ⟨op, hop, hseen, happly⟩ := hlast
    rw [happly]
    exact ⟨ih.1.apply hop hseen, apply_settings.trans ih.2⟩

/-- **The builder is right in every run whose steps the window and the counts follow**: the window is
a block of the positions with no more on the two sides of the key than asked for, and the counts that
are known add up. -/
theorem slice_consistent_of_positions {T₀ T : Finset MessagePosition} {key : MessagePosition}
    {limitBefore limitAfter : ℕ} {builder : MessagesSliceBuilder}
    (hrun : Relation.ReflTransGen SeenStep (T₀, .init key limitBefore limitAfter) (T, builder)) :
    Right T builder ∧ builder.key = key ∧ builder.limitBefore = limitBefore ∧
      builder.limitAfter = limitAfter := by
  obtain ⟨hkept, hsettings⟩ := SeenStep.kept hrun ⟨.init key limitBefore limitAfter, .init _ _ _⟩
  obtain ⟨hkey, hlimits⟩ := Prod.mk.inj hsettings
  obtain ⟨hbefore, hafter⟩ := Prod.mk.inj hlimits
  have hlimited : builder.key.msg ≠ 0 → SliceBuilder.WithinLimits builder := fun hset =>
    hkept.limited (decide_eq_true hset)
  exact ⟨⟨hkept.consistent.block, fun hset => (hlimited hset).1, fun hset => (hlimited hset).2,
    fun _ _ _ => hkept.consistent.sum⟩, hkey, hbefore, hafter⟩

/-- Two positions, of which a first result has the later. -/
theorem told_later : SliceBuilder.Told ({⟨10, 1, 1⟩, ⟨20, 1, 2⟩} : Finset MessagePosition)
    ⟨some 2, none, some 0, {⟨20, 1, 2⟩}⟩ := by
  refine ⟨.singleton (by decide), fun n hn => (Option.some.inj hn).symm, fun _ n hn => ?_,
    fun _ n hn => ?_⟩
  · exact nomatch hn
  · obtain rfl := Option.some.inj hn
    decide

/-- Two positions with the later in the window, once it was told of. -/
theorem slice_consistent_of_positions_told :
    Right {⟨10, 1, 1⟩, ⟨20, 1, 2⟩} (apply (.init ⟨20, 1, 2⟩ 0 0)
      (.applyInitial ⟨some 2, none, some 0, {⟨20, 1, 2⟩}⟩)) := by
  have hstep : SeenStep ({⟨10, 1, 1⟩, ⟨20, 1, 2⟩}, .init ⟨20, 1, 2⟩ 0 0)
      ({⟨10, 1, 1⟩, ⟨20, 1, 2⟩}, apply (.init ⟨20, 1, 2⟩ 0 0)
        (.applyInitial ⟨some 2, none, some 0, {⟨20, 1, 2⟩}⟩)) := by
    refine ⟨.applyInitial ⟨some 2, none, some 0, {⟨20, 1, 2⟩}⟩, ⟨told_later, rfl⟩, ?_, rfl⟩
    exact (Finset.empty_union ({⟨20, 1, 2⟩} : Finset MessagePosition)).symm ▸ told_later.block
  exact (slice_consistent_of_positions (.single hstep)).1

/-- **A new position in a slice of its own makes the sum wrong**: 1 + 1 + 0 of 3. -/
theorem slice_counts_stale_of_positions : ∃ builder,
    Relation.ReflTransGen Step ({⟨10, 1, 1⟩, ⟨20, 1, 2⟩}, .init ⟨20, 1, 2⟩ 0 0)
      ({⟨10, 1, 1⟩, ⟨20, 1, 2⟩, ⟨15, 1, 3⟩}, builder) ∧
    ¬ Right {⟨10, 1, 1⟩, ⟨20, 1, 2⟩, ⟨15, 1, 3⟩} builder := by
  have hfirst : Step ({⟨10, 1, 1⟩, ⟨20, 1, 2⟩}, .init ⟨20, 1, 2⟩ 0 0)
      ({⟨10, 1, 1⟩, ⟨20, 1, 2⟩}, ⟨⟨20, 1, 2⟩, 0, 0, {⟨20, 1, 2⟩}, some 2, some 1, some 0⟩) :=
    ⟨.applyInitial ⟨some 2, none, some 0, {⟨20, 1, 2⟩}⟩, ⟨told_later, rfl⟩, by decide +kernel⟩
  have hupdate : SliceBuilder.Tells {⟨10, 1, 1⟩, ⟨20, 1, 2⟩}
      ({⟨10, 1, 1⟩, ⟨20, 1, 2⟩, ⟨15, 1, 3⟩} : Finset MessagePosition)
      ⟨some {⟨15, 1, 3⟩}, ⟨⟨15, 1, 3⟩, ⟨15, 1, 3⟩⟩, some 3⟩ := by
    refine ⟨by decide, fun x hx hx' => ⟨{⟨15, 1, 3⟩}, rfl, ?_⟩, fun ids hids => ?_,
      fun n hn => (Option.some.inj hn).symm⟩
    · revert x
      decide
    · obtain rfl := Option.some.inj hids
      have hslice : ({⟨10, 1, 1⟩, ⟨20, 1, 2⟩, ⟨15, 1, 3⟩} : Finset MessagePosition).filter
        (Range.Has (⟨⟨15, 1, 3⟩, ⟨15, 1, 3⟩⟩ : Range MessagePosition)) = {⟨15, 1, 3⟩} := by decide
      exact hslice ▸ Faithful.restrict _ (le_refl (⟨15, 1, 3⟩ : MessagePosition))
  have hsecond : Step
      ({⟨10, 1, 1⟩, ⟨20, 1, 2⟩}, ⟨⟨20, 1, 2⟩, 0, 0, {⟨20, 1, 2⟩}, some 2, some 1, some 0⟩)
      ({⟨10, 1, 1⟩, ⟨20, 1, 2⟩, ⟨15, 1, 3⟩},
        ⟨⟨20, 1, 2⟩, 0, 0, {⟨20, 1, 2⟩}, some 3, some 1, some 0⟩) :=
    ⟨.applyUpdate ⟨some {⟨15, 1, 3⟩}, ⟨⟨15, 1, 3⟩, ⟨15, 1, 3⟩⟩, some 3⟩,
      ⟨hupdate, by unfold FullPositions; decide⟩, by decide +kernel⟩
  exact ⟨_, .tail (.single hfirst) hsecond, fun h => absurd (h.sum 3 1 0 rfl rfl rfl) (by decide)⟩

end MessagesSliceBuilder

end Yunogram.Data
