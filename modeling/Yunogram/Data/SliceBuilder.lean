import Yunogram.Storage.SliceQueries

/-!
# Data/SliceBuilder — a window of an ordered set, kept from what is told of the set

`SparseIdsSliceBuilder` and `MessagesSliceBuilder` keep the ids around a key, so many before it and so
many after, and three counts that may be unknown: of all ids, and of the ids skipped on the two sides
of the window.  They take a first result, updates about slices and removals.  The code is the same
over the two types of ids but for the ends of the full range; here it is over any ordered type.

`Consistent T` is the invariant: the window is a block of the true set `T` and the counts that are
known are those of `T`.  Trimming to the limits, completing the counts and merging ids keep it.
-/

namespace Yunogram.Data

open Machinery Storage

variable {α : Type} [LinearOrder α]

/-! ## The builder -/

/-- The ends of the full range of ids, and the id that stands for none. -/
structure SliceEnds (α : Type) where
  least : α
  greatest : α
  nowhere : α
  isSet : α → Bool

/-- `LoadDirection`. -/
inductive LoadDirection where
  | around
  | before
  | after
  deriving DecidableEq

/-- `AroundData`: what is asked for when the window is not full. -/
structure AroundData (α : Type) where
  aroundId : α
  direction : LoadDirection
  deriving DecidableEq

/-- `SparseIdsSliceBuilder` and `MessagesSliceBuilder`. -/
structure SliceBuilder (α : Type) where
  key : α
  limitBefore : ℕ
  limitAfter : ℕ
  ids : Finset α
  fullCount : Option ℤ
  skippedBefore : Option ℤ
  skippedAfter : Option ℤ
  deriving DecidableEq

namespace SliceBuilder

/-- The constructor. -/
def init (key : α) (limitBefore limitAfter : ℕ) : SliceBuilder α :=
  ⟨key, limitBefore, limitAfter, ∅, none, none, none⟩

/-- `requestMessages`. -/
def requestMessages (key : α) (ids : Finset α) (direction : LoadDirection) : AroundData α :=
  if h : ids.Nonempty then
    match direction with
    | .before => ⟨ids.min' h, .before⟩
    | _ => ⟨ids.max' h, .after⟩
  else ⟨key, .around⟩

/-- How many ids before the key are too many. -/
def removeFromBegin (builder : SliceBuilder α) : ℕ :=
  below builder.ids builder.key - builder.limitBefore

/-- How many ids from the key on are too many. -/
def removeFromEnd (builder : SliceBuilder α) : ℕ :=
  builder.ids.card - below builder.ids builder.key - builder.limitAfter - 1

/-- The part of `sliceToLimits` that changes the builder. -/
def trimmed (builder : SliceBuilder α) : SliceBuilder α :=
  { builder with
    ids := indexed builder.ids builder.removeFromBegin (builder.ids.card - builder.removeFromEnd)
    skippedBefore := builder.skippedBefore.map (· + (builder.removeFromBegin : ℤ))
    skippedAfter := builder.skippedAfter.map (· + (builder.removeFromEnd : ℤ)) }

/-- Less is there before the key than was asked for, and more may be loaded. -/
def insufficientBefore (builder : SliceBuilder α) : Bool :=
  below builder.ids builder.key < builder.limitBefore && builder.skippedBefore.all (0 < ·)

/-- Less is there from the key on than was asked for, and more may be loaded. -/
def insufficientAfter (builder : SliceBuilder α) : Bool :=
  builder.ids.card - below builder.ids builder.key < builder.limitAfter + 1 &&
    builder.skippedAfter.all (0 < ·)

/-- `sliceToLimits`, with the requests it fires: without a key only the count is asked for. -/
def sliceToLimits (ends : SliceEnds α) (builder : SliceBuilder α) :
    SliceBuilder α × List (AroundData α) :=
  let requestMessagesCount : List (AroundData α) :=
    if builder.fullCount = none then [⟨ends.nowhere, .around⟩] else []
  if ends.isSet builder.key then
    let requested :=
      (if builder.insufficientBefore then [requestMessages builder.key builder.ids .before] else []) ++
      (if builder.insufficientAfter then
        [requestMessages builder.key builder.trimmed.ids .after] else [])
    (builder.trimmed, if requested = [] then requestMessagesCount else requested)
  else (builder, requestMessagesCount)

/-- The part of `fillSkippedAndSliceToLimits` about the count that is not known. -/
def fillSkipped (builder : SliceBuilder α) : SliceBuilder α :=
  match builder.fullCount, builder.skippedBefore, builder.skippedAfter with
  | some fullCount, some skippedBefore, none =>
    { builder with skippedAfter := some (fullCount - skippedBefore - builder.ids.card) }
  | some fullCount, none, some skippedAfter =>
    { builder with skippedBefore := some (fullCount - skippedAfter - builder.ids.card) }
  | _, _, _ => builder

/-- `fillSkippedAndSliceToLimits`. -/
def fillSkippedAndSliceToLimits (ends : SliceEnds α) (builder : SliceBuilder α) :
    SliceBuilder α × List (AroundData α) :=
  sliceToLimits ends builder.fillSkipped

/-- `mergeSliceData` without ids: a new count, that may say that the window has all. -/
def mergeCount (builder : SliceBuilder α) (count : Option ℤ) : SliceBuilder α :=
  match count with
  | some total =>
    if builder.fullCount = some total then builder
    else if total ≤ builder.ids.card then
      { builder with
        fullCount := some builder.ids.card
        skippedBefore := some 0
        skippedAfter := some 0 }
    else { builder with fullCount := some total }
  | none => builder

/-- `adjustSkippedBefore`: what was skipped before an id, less what is there before it now.  The id
is always found, it comes from one of the sets that were merged. -/
def adjustSkippedBefore (ids : Finset α) (oldId : α) (oldSkippedBefore : ℤ) : ℤ :=
  max (oldSkippedBefore - below ids oldId) 0

/-- `adjustSkippedAfter`. -/
def adjustSkippedAfter (ids : Finset α) (oldId : α) (oldSkippedAfter : ℤ) : ℤ :=
  max (oldSkippedAfter - ((ids.card - below ids oldId - 1 : ℕ) : ℤ)) 0

/-- `mergeSliceData` with ids. -/
def mergeIds (builder : SliceBuilder α) (count : Option ℤ) (messageIds : Finset α)
    (h : messageIds.Nonempty) (skippedBefore skippedAfter : Option ℤ) : SliceBuilder α :=
  let ids := builder.ids ∪ messageIds
  { builder with
    ids := ids
    fullCount := count.or builder.fullCount
    skippedBefore :=
      match skippedBefore with
      | some skipped => some (adjustSkippedBefore ids (messageIds.min' h) skipped)
      | none =>
        if hids : builder.ids.Nonempty then
          builder.skippedBefore.map (adjustSkippedBefore ids (builder.ids.min' hids))
        else none
    skippedAfter :=
      match skippedAfter with
      | some skipped => some (adjustSkippedAfter ids (messageIds.max' h) skipped)
      | none =>
        if hids : builder.ids.Nonempty then
          builder.skippedAfter.map (adjustSkippedAfter ids (builder.ids.max' hids))
        else none }

/-- `mergeSliceData`. -/
def mergeSliceData (ends : SliceEnds α) (builder : SliceBuilder α) (count : Option ℤ)
    (messageIds : Finset α) (skippedBefore skippedAfter : Option ℤ) :
    SliceBuilder α × List (AroundData α) :=
  fillSkippedAndSliceToLimits ends <|
    if h : messageIds.Nonempty then builder.mergeIds count messageIds h skippedBefore skippedAfter
    else builder.mergeCount count

/-- `applyInitial`; it always says that something changed. -/
def applyInitial (ends : SliceEnds α) (builder : SliceBuilder α) (result : SliceResult α) :
    SliceBuilder α × List (AroundData α) :=
  builder.mergeSliceData ends result.count result.messageIds result.skippedBefore result.skippedAfter

/-- The range of the window, or of the key where there is nothing in it. -/
def window (builder : SliceBuilder α) : Range α :=
  if h : builder.ids.Nonempty then ⟨builder.ids.min' h, builder.ids.max' h⟩
  else ⟨builder.key, builder.key⟩

/-- `needMergeMessages`: the update has ids, and its range meets the window. -/
def needMergeMessages (builder : SliceBuilder α) (update : SliceUpdate α) : Bool :=
  update.messages.isSome && update.range.start ≤ builder.window.till &&
    builder.window.start ≤ update.range.till

/-- `applyUpdate`, and whether it changed anything. -/
def applyUpdate (ends : SliceEnds α) (builder : SliceBuilder α) (update : SliceUpdate α) :
    (SliceBuilder α × List (AroundData α)) × Bool :=
  if !builder.needMergeMessages update && update.count.isNone then ((builder, []), false)
  else
    (builder.mergeSliceData ends update.count
      (if builder.needMergeMessages update then update.messages.getD ∅ else ∅)
      (if update.range.start = ends.least then some 0 else none)
      (if update.range.till = ends.greatest then some 0 else none), true)

/-- The part of `removeOne` about the count, and whether it changed. -/
def uncount (builder : SliceBuilder α) : SliceBuilder α × Bool :=
  match builder.fullCount with
  | some fullCount =>
    if 0 < fullCount then ({ builder with fullCount := some (fullCount - 1) }, true)
    else (builder, false)
  | none => (builder, false)

/-- `removeOne`, and whether it changed anything. -/
def removeItem (builder : SliceBuilder α) (messageId : α) : SliceBuilder α × Bool :=
  let counted := builder.uncount
  if messageId ∈ builder.ids then
    ({ counted.1 with ids := builder.ids.erase messageId }, true)
  else if h : builder.ids.Nonempty then
    if messageId < builder.ids.min' h ∧ builder.skippedBefore.any (0 < ·) then
      ({ counted.1 with skippedBefore := builder.skippedBefore.map (· - 1) }, true)
    else if builder.ids.max' h < messageId ∧ builder.skippedAfter.any (0 < ·) then
      ({ counted.1 with skippedAfter := builder.skippedAfter.map (· - 1) }, true)
    else counted
  else counted

/-- `removeAll`. -/
def removeAll (builder : SliceBuilder α) : SliceBuilder α :=
  { builder with ids := ∅, fullCount := some 0, skippedBefore := some 0, skippedAfter := some 0 }

/-- `invalidateBottom` and `bottomInvalidated`. -/
def invalidateBottom (ends : SliceEnds α) (builder : SliceBuilder α) :
    SliceBuilder α × List (AroundData α) :=
  sliceToLimits ends { builder with fullCount := none, skippedAfter := none }

/-- `checkInsufficient`. -/
def checkInsufficient (ends : SliceEnds α) (builder : SliceBuilder α) :
    SliceBuilder α × List (AroundData α) :=
  sliceToLimits ends builder

/-! ## The invariant -/

variable {builder : SliceBuilder α} {ends : SliceEnds α} {T messageIds : Finset α} {count : Option ℤ}

/-- **What is known is of `T`**: the window is a block of it, and so are the counts. -/
structure Consistent (T : Finset α) (builder : SliceBuilder α) : Prop where
  block : IsBlock T builder.ids
  full : ∀ n, builder.fullCount = some n → n = T.card
  before_eq : builder.ids.Nonempty → ∀ n, builder.skippedBefore = some n → n = before T builder.ids
  after_eq : builder.ids.Nonempty → ∀ n, builder.skippedAfter = some n → n = after T builder.ids
  sum_eq : builder.ids = ∅ → ∀ n m, builder.skippedBefore = some n → builder.skippedAfter = some m →
    n + m = T.card

/-- No more ids than asked for are in the window. -/
def WithinLimits (builder : SliceBuilder α) : Prop :=
  below builder.ids builder.key ≤ builder.limitBefore ∧
    (builder.ids.filter (builder.key ≤ ·)).card ≤ builder.limitAfter + 1

/-- **The counts that are known add up.** -/
theorem Consistent.sum (h : Consistent T builder) {full before after : ℤ}
    (hfull : builder.fullCount = some full) (hbefore : builder.skippedBefore = some before)
    (hafter : builder.skippedAfter = some after) : before + builder.ids.card + after = full := by
  rw [h.full full hfull]
  rcases builder.ids.eq_empty_or_nonempty with hempty | hne
  · have hsum := h.sum_eq hempty before after hbefore hafter
    rw [hempty, Finset.card_empty]
    omega
  · have hcard := h.block.card hne
    have hbefore := h.before_eq hne before hbefore
    have hafter := h.after_eq hne after hafter
    omega

theorem Consistent.init (key : α) (limitBefore limitAfter : ℕ) :
    Consistent T (init key limitBefore limitAfter) where
  block := .empty
  full _ hn := nomatch hn
  before_eq hne := absurd rfl hne.ne_empty
  after_eq hne := absurd rfl hne.ne_empty
  sum_eq _ _ _ hn := nomatch hn

/-- **Completing the counts keeps them.** -/
theorem Consistent.fillSkipped (h : Consistent T builder) : Consistent T builder.fillSkipped := by
  unfold SliceBuilder.fillSkipped
  split
  next full skipped hfull hbefore hafter =>
    refine ⟨h.block, h.full, h.before_eq, fun hne n hn => ?_, fun hempty n m hn hm => ?_⟩
    · obtain rfl := Option.some.inj hn
      have hcard := h.block.card hne
      have hfull := h.full full hfull
      have hbefore := h.before_eq hne skipped hbefore
      show full - skipped - builder.ids.card = after T builder.ids
      omega
    · obtain rfl := Option.some.inj (hbefore.symm.trans hn)
      obtain rfl := Option.some.inj hm
      have hfull := h.full full hfull
      have hcard : builder.ids.card = 0 := Finset.card_eq_zero.mpr hempty
      omega
  next full skipped hfull hbefore hafter =>
    refine ⟨h.block, h.full, fun hne n hn => ?_, h.after_eq, fun hempty n m hn hm => ?_⟩
    · obtain rfl := Option.some.inj hn
      have hcard := h.block.card hne
      have hfull := h.full full hfull
      have hafter := h.after_eq hne skipped hafter
      show full - skipped - builder.ids.card = before T builder.ids
      omega
    · obtain rfl := Option.some.inj hn
      obtain rfl := Option.some.inj (hafter.symm.trans hm)
      have hfull := h.full full hfull
      have hcard : builder.ids.card = 0 := Finset.card_eq_zero.mpr hempty
      omega
  next => exact h

/-- **Trimming to the limits keeps what is known…** -/
theorem Consistent.trimmed (h : Consistent T builder) : Consistent T builder.trimmed := by
  have hhave : below builder.ids builder.key ≤ builder.ids.card := below_le_card
  have hbegin : builder.removeFromBegin ≤ below builder.ids builder.key := Nat.sub_le _ _
  have hend : builder.removeFromEnd ≤ builder.ids.card - below builder.ids builder.key := by
    rw [removeFromEnd]
    omega
  have hj : builder.ids.card - builder.removeFromEnd ≤ builder.ids.card := Nat.sub_le _ _
  have hlt : (SliceBuilder.trimmed builder).ids.Nonempty →
      builder.removeFromBegin < builder.ids.card - builder.removeFromEnd := by
    intro hne
    have hcard := Finset.card_pos.mpr hne
    rw [SliceBuilder.trimmed, card_indexed hj] at hcard
    omega
  refine ⟨h.block.indexed, h.full, fun hne n hn => ?_, fun hne n hn => ?_, fun hempty n m hn hm => ?_⟩
  · obtain ⟨skipped, hskipped, rfl⟩ := Option.map_eq_some_iff.mp hn
    have hskipped := h.before_eq (hne.mono indexed_subset) skipped hskipped
    have hbefore := h.block.before_indexed (hlt hne) hj
    rw [SliceBuilder.trimmed, hbefore]
    omega
  · obtain ⟨skipped, hskipped, rfl⟩ := Option.map_eq_some_iff.mp hn
    have hskipped := h.after_eq (hne.mono indexed_subset) skipped hskipped
    have hafter := h.block.after_indexed (hlt hne) hj
    rw [SliceBuilder.trimmed, hafter]
    omega
  · obtain ⟨before, hbefore, rfl⟩ := Option.map_eq_some_iff.mp hn
    obtain ⟨after, hafter, rfl⟩ := Option.map_eq_some_iff.mp hm
    have hcard := Finset.card_eq_zero.mpr hempty
    rw [SliceBuilder.trimmed, card_indexed hj] at hcard
    rcases builder.ids.eq_empty_or_nonempty with hids | hne
    · have hsum := h.sum_eq hids before after hbefore hafter
      have hids := Finset.card_eq_zero.mpr hids
      omega
    · have hbefore := h.before_eq hne before hbefore
      have hafter := h.after_eq hne after hafter
      have htotal := h.block.card hne
      omega

/-- **…and leaves no more ids than asked for.** -/
theorem trimmed_withinLimits : builder.trimmed.WithinLimits := by
  have hhave : below builder.ids builder.key ≤ builder.ids.card := below_le_card
  have hbegin : builder.removeFromBegin ≤ below builder.ids builder.key := Nat.sub_le _ _
  have hend : builder.removeFromEnd
      = builder.ids.card - below builder.ids builder.key - builder.limitAfter - 1 := rfl
  have hj : builder.ids.card - builder.removeFromEnd ≤ builder.ids.card := Nat.sub_le _ _
  have hlower : builder.removeFromBegin = below builder.ids builder.key - builder.limitBefore := rfl
  constructor
  · show below (indexed _ _ _) builder.key ≤ builder.limitBefore
    rw [below_indexed hj]
    omega
  · show ((indexed _ _ _).filter (builder.key ≤ ·)).card ≤ builder.limitAfter + 1
    rw [card_filter_indexed hbegin (by omega) hj]
    omega

theorem sliceToLimits_fst (ends : SliceEnds α) (builder : SliceBuilder α) :
    (builder.sliceToLimits ends).1 = if ends.isSet builder.key then builder.trimmed else builder := by
  unfold SliceBuilder.sliceToLimits
  dsimp only
  cases ends.isSet builder.key <;> rfl

theorem Consistent.sliceToLimits (h : Consistent T builder) :
    Consistent T (builder.sliceToLimits ends).1 := by
  rw [sliceToLimits_fst]
  split_ifs
  · exact h.trimmed
  · exact h

/-- Where there is a key, no more ids than asked for are in the window. -/
def Limited (ends : SliceEnds α) (builder : SliceBuilder α) : Prop :=
  ends.isSet builder.key → builder.WithinLimits

theorem sliceToLimits_limited : (builder.sliceToLimits ends).1.Limited ends := by
  rw [sliceToLimits_fst]
  split_ifs with hkey
  · exact fun _ => trimmed_withinLimits
  · exact fun hkey' => absurd hkey' hkey

/-! ## Merging -/

/-- **A count that is true tells whether the window has all.** -/
theorem Consistent.mergeCount (block : IsBlock T builder.ids)
    (hfull : count = none → ∀ n, builder.fullCount = some n → n = T.card)
    (hbefore : builder.ids.Nonempty → ∀ n, builder.skippedBefore = some n →
      n = before T builder.ids)
    (hafter : builder.ids.Nonempty → ∀ n, builder.skippedAfter = some n → n = after T builder.ids)
    (hempty : builder.ids = ∅ → ∀ n m, builder.skippedBefore = some n →
      builder.skippedAfter = some m → n + m = T.card)
    (hcount : ∀ n, count = some n → n = T.card) : Consistent T (builder.mergeCount count) := by
  cases count with
  | none => exact ⟨block, hfull rfl, hbefore, hafter, hempty⟩
  | some total =>
    obtain rfl := hcount total rfl
    rw [SliceBuilder.mergeCount]
    split_ifs with hsame hall
    · exact ⟨block, fun n hn => Option.some.inj (hn.symm.trans hsame), hbefore, hafter, hempty⟩
    · have hids : builder.ids = T :=
        Finset.eq_of_subset_of_card_le block.subset (by omega)
      refine ⟨block, fun n hn => ?_, fun hne n hn => ?_, fun hne n hn => ?_, fun hnone n m hn hm => ?_⟩
      · rw [← hids]
        exact (Option.some.inj hn).symm
      · have hcard := block.card hne
        obtain rfl := Option.some.inj hn
        dsimp only
        omega
      · have hcard := block.card hne
        obtain rfl := Option.some.inj hn
        dsimp only
        omega
      · obtain rfl := Option.some.inj hn
        obtain rfl := Option.some.inj hm
        have hnone := Finset.card_eq_zero.mpr hnone
        dsimp only at hnone
        omega
    · exact ⟨block, fun n hn => (Option.some.inj hn).symm, hbefore, hafter, hempty⟩

/-- **Ids that make a block with the window are merged into it**, where each skipped count that is
used is right for the set that they are of. -/
theorem Consistent.mergeIds (hne : messageIds.Nonempty) {skippedBefore skippedAfter : Option ℤ}
    (block : IsBlock T (builder.ids ∪ messageIds))
    (hfull : ∀ n, count.or builder.fullCount = some n → n = T.card)
    (hbefore : ∀ n, skippedBefore = some n → n = before T messageIds)
    (hbefore' : skippedBefore = none → builder.ids.Nonempty → ∀ n, builder.skippedBefore = some n →
      n = before T builder.ids)
    (hafter : ∀ n, skippedAfter = some n → n = after T messageIds)
    (hafter' : skippedAfter = none → builder.ids.Nonempty → ∀ n, builder.skippedAfter = some n →
      n = after T builder.ids) :
    Consistent T (builder.mergeIds count messageIds hne skippedBefore skippedAfter) := by
  have hleft : builder.ids ⊆ builder.ids ∪ messageIds := Finset.subset_union_left
  have hright : messageIds ⊆ builder.ids ∪ messageIds := Finset.subset_union_right
  have hunion : (builder.ids ∪ messageIds).Nonempty := hne.mono hright
  refine ⟨block, hfull, fun _ n hn => ?_, fun _ n hn => ?_, fun hempty => ?_⟩
  · dsimp only [SliceBuilder.mergeIds] at hn ⊢
    cases skippedBefore with
    | some skipped =>
      obtain rfl := Option.some.inj hn
      have hsum := before_of_subset block hright hne
      have hskipped := hbefore skipped rfl
      rw [adjustSkippedBefore]
      omega
    | none =>
      dsimp only at hn
      split_ifs at hn with hids
      obtain ⟨skipped, hskipped, rfl⟩ := Option.map_eq_some_iff.mp hn
      have hsum := before_of_subset block hleft hids
      have hskipped := hbefore' rfl hids skipped hskipped
      rw [adjustSkippedBefore]
      omega
  · dsimp only [SliceBuilder.mergeIds] at hn ⊢
    cases skippedAfter with
    | some skipped =>
      obtain rfl := Option.some.inj hn
      have hsum := after_of_subset block hright hne
      have hskipped := hafter skipped rfl
      rw [adjustSkippedAfter]
      omega
    | none =>
      dsimp only at hn
      split_ifs at hn with hids
      obtain ⟨skipped, hskipped, rfl⟩ := Option.map_eq_some_iff.mp hn
      have hsum := after_of_subset block hleft hids
      have hskipped := hafter' rfl hids skipped hskipped
      rw [adjustSkippedAfter]
      omega
  · exact absurd hempty hunion.ne_empty

theorem Consistent.fillSkippedAndSliceToLimits (h : Consistent T builder) :
    Consistent T (builder.fillSkippedAndSliceToLimits ends).1 := h.fillSkipped.sliceToLimits

end SliceBuilder

end Yunogram.Data
