import Mathlib
import Yunogram.Storage.SliceQueries

/-!
# Data/MessagesList — the message positions that are known, with the count of all

`MessagesList` keeps slices of message positions, which are ordered by date first.  It is told of them
as `SparseIdsList` is told of ids, and also one by one (`addOne`) and to forget all it knows
(`invalidate`); it does not guess from the count that a slice covers everything.

`messages_list_refines`: in every run of truthful operations the slices cover the set of positions,
the count is its size, and what a query answers is exact.
-/

namespace Yunogram.Data

open Machinery Storage

/-! ## Positions -/

/-- `MessagePosition`, with the two parts of its `fullId`. -/
structure MessagePosition where
  date : ℤ
  peer : ℤ
  msg : ℤ

namespace MessagePosition

/-- Positions are compared by the date, then the peer, then the message id. -/
def order (position : MessagePosition) : ℤ ×ₗ ℤ ×ₗ ℤ :=
  toLex (position.date, toLex (position.peer, position.msg))

theorem order_injective : Function.Injective order := by
  rintro ⟨date, peer, msg⟩ ⟨date', peer', msg'⟩ h
  obtain ⟨rfl, h⟩ := Prod.mk.inj (toLex.injective h)
  obtain ⟨rfl, rfl⟩ := Prod.mk.inj (toLex.injective h)
  rfl

instance : LinearOrder MessagePosition := LinearOrder.lift' order order_injective

end MessagePosition

/-- `MinMessagePosition`. -/
def minMessagePosition : MessagePosition := ⟨0, 0, 1⟩

/-- `MaxMessagePosition`. -/
def maxMessagePosition : MessagePosition := ⟨2 ^ 31 - 1, 0, 2 ^ 56 - 1⟩

/-- `FullMessagesRange`. -/
def fullMessagesRange : Range MessagePosition := ⟨minMessagePosition, maxMessagePosition⟩

/-- A set of positions in the full range. -/
def FullPositions (T : Finset MessagePosition) : Prop :=
  ∀ position ∈ T, minMessagePosition ≤ position ∧ position ≤ maxMessagePosition

/-! ## The list -/

/-- `MessagesList`. -/
structure MessagesList where
  slices : List (Slice MessagePosition)
  count : Option ℤ

namespace MessagesList

variable {list list' : MessagesList} {T T₀ messages : Finset MessagePosition}
  {noSkipRange : Range MessagePosition} {count : Option ℤ} {incrementCount : Bool}
  {updates : List (SliceUpdate MessagePosition)} {slices : List (Slice MessagePosition)}

/-- A list nothing was told to. -/
def init : MessagesList := ⟨[], none⟩

/-- `addRangeItemsAndCountNew`. -/
def addRangeItemsAndCountNew (slices : List (Slice MessagePosition))
    (messages : Finset MessagePosition) (noSkipRange : Range MessagePosition) :
    Except Fault (Added MessagePosition) := do
  expects (noSkipRange.start ≤ noSkipRange.till)
  addItems slices messages noSkipRange

/-- The only slice, where it covers the full range, has all the positions there are. -/
def countOnly (list : MessagesList) : MessagesList :=
  match list.slices with
  | [slice] =>
    if slice.range = fullMessagesRange then { list with count := some slice.messages.card } else list
  | _ => list

/-- `addRange`. -/
def addRange (list : MessagesList) (messages : Finset MessagePosition)
    (noSkipRange : Range MessagePosition) (count : Option ℤ) (incrementCount : Bool) :
    Except Fault (MessagesList × List (SliceUpdate MessagePosition)) := do
  expects (count = none ∨ incrementCount = false)
  let result ← addRangeItemsAndCountNew list.slices messages noSkipRange
  let list := countOnly
    ⟨result.slices, countAdded list.count count incrementCount result.added⟩
  .ok (list, [result.update ⟨⟨0, 0, 0⟩, ⟨0, 0, 0⟩⟩ list.count])

/-- `addOne`. -/
def addOne (list : MessagesList) (messageId : MessagePosition) :
    Except Fault (MessagesList × List (SliceUpdate MessagePosition)) :=
  addRange list {messageId} ⟨messageId, messageId⟩ none true

/-- `addNew`. -/
def addNew (list : MessagesList) (messageId : MessagePosition) :
    Except Fault (MessagesList × List (SliceUpdate MessagePosition)) :=
  addRange list {messageId} ⟨messageId, maxMessagePosition⟩ none true

/-- `addSlice`. -/
def addSlice (list : MessagesList) (messageIds : Finset MessagePosition)
    (noSkipRange : Range MessagePosition) (count : Option ℤ) :
    Except Fault (MessagesList × List (SliceUpdate MessagePosition)) :=
  addRange list messageIds noSkipRange count false

/-- `removeOne`: the update is fired where a slice has the position in its range. -/
def removeOne (list : MessagesList) (messageId : MessagePosition) :
    MessagesList × List (SliceUpdate MessagePosition) :=
  let count := list.count.map (· - 1)
  (⟨removeItem list.slices messageId, count⟩,
    match sliceOf list.slices messageId with
    | some slice => [⟨some (slice.messages.erase messageId), slice.range, count⟩]
    | none => [])

/-- `invalidate`. -/
def invalidate : MessagesList := ⟨[], none⟩

/-- `invalidateBottom`. -/
def invalidateBottom (list : MessagesList) : MessagesList :=
  ⟨invalidateBottomSlice maxMessagePosition list.slices, none⟩

/-- `queryFromSlice`. -/
def queryFromSlice (list : MessagesList) (query : SliceQuery MessagePosition)
    (slice : Slice MessagePosition) : SliceResult MessagePosition :=
  Storage.queryFromSlice minMessagePosition maxMessagePosition list.count query slice

/-- `queryCurrent`: a position without a message id asks for nothing. -/
def queryCurrent (list : MessagesList) (query : SliceQuery MessagePosition) :
    SliceResult MessagePosition :=
  if query.aroundId.msg = 0 then ⟨none, none, none, ∅⟩
  else
    match sliceOf list.slices query.aroundId with
    | some slice => list.queryFromSlice query slice
    | none => ⟨none, none, none, ∅⟩

/-- `snapshot`. -/
def snapshot (list : MessagesList) (query : SliceQuery MessagePosition) :
    SliceResult MessagePosition :=
  list.queryCurrent query

/-- `query`: what it puts out, if anything. -/
def query (list : MessagesList) (query : SliceQuery MessagePosition) :
    Option (SliceResult MessagePosition) :=
  let current := list.queryCurrent query
  if current.count.isSome ∨ current.messageIds.Nonempty then some current else none

/-! ## Operations -/

/-- What can be asked of a list. -/
inductive Op where
  | addOne (messageId : MessagePosition)
  | addNew (messageId : MessagePosition)
  | addSlice (messageIds : Finset MessagePosition) (noSkipRange : Range MessagePosition)
      (count : Option ℤ)
  | removeOne (messageId : MessagePosition)
  | invalidate
  | invalidateBottom

/-- What an operation makes of a list, and the updates it fires. -/
def apply (list : MessagesList) :
    Op → Except Fault (MessagesList × List (SliceUpdate MessagePosition))
  | .addOne messageId => list.addOne messageId
  | .addNew messageId => list.addNew messageId
  | .addSlice messageIds noSkipRange count => list.addSlice messageIds noSkipRange count
  | .removeOne messageId => .ok (list.removeOne messageId)
  | .invalidate => .ok (invalidate, [])
  | .invalidateBottom => .ok (list.invalidateBottom, [])

/-- What an operation makes of the positions there are. -/
def Op.truth (T : Finset MessagePosition) : Op → Finset MessagePosition
  | .addOne messageId | .addNew messageId => insert messageId T
  | .removeOne messageId => T.erase messageId
  | .addSlice _ _ _ | .invalidate | .invalidateBottom => T

/-- A position told of alone is new, or stored already. -/
def NewOrStored (T : Finset MessagePosition) (list : MessagesList) (messageId : MessagePosition) :
    Prop :=
  messageId ∈ T → ∃ slice ∈ list.slices, messageId ∈ slice.messages

/-- **When an operation tells the truth.**  What is added for a range leaves nothing of `T` there
neither stored nor added; a position that is counted was not before, and with `addNew` none is after
it. -/
def Op.Truthful (T : Finset MessagePosition) (list : MessagesList) : Op → Prop
  | .addOne messageId => NewOrStored T list messageId ∧ minMessagePosition ≤ messageId ∧
    messageId ≤ maxMessagePosition
  | .addNew messageId => NewOrStored T list messageId ∧ (∀ position ∈ T, position ≤ messageId) ∧
    minMessagePosition ≤ messageId ∧ messageId ≤ maxMessagePosition
  | .addSlice messageIds noSkipRange count =>
    Adds T list.slices messageIds noSkipRange ∧ ∀ n, count = some n → n = T.card
  | .removeOne messageId => messageId ∈ T
  | .invalidate | .invalidateBottom => True

/-- The range of an operation is not inverted. -/
def Op.Ordered : Op → Prop
  | .addSlice _ noSkipRange _ => noSkipRange.start ≤ noSkipRange.till
  | _ => True

/-! ## What is known after an operation -/

/-- **A slice that covers everything counts it.** -/
theorem countOnly_known (hT : FullPositions T) (h : Known T list.slices list.count) :
    Known T list.countOnly.slices list.countOnly.count := by
  unfold countOnly
  split
  next slice hslices =>
    split_ifs with hfull
    · refine ⟨h.covers, fun n hn => ?_⟩
      have hfaithful := h.covers.faithful slice (by rw [hslices]; exact List.mem_singleton_self _)
      have hmessages : slice.messages = T := by
        refine subset_antisymm hfaithful.isBlock.subset fun x hx => ?_
        exact (hfaithful.mem_iff x).mpr ⟨hx, hfull ▸ hT x hx⟩
      rw [← hmessages]
      exact (Option.some.inj hn).symm
    · exact h
  next => exact h

/-- What is left after an operation is known of `T`, and the updates fired are true. -/
def Leaves (T : Finset MessagePosition)
    (r : Except Fault (MessagesList × List (SliceUpdate MessagePosition))) : Prop :=
  ∃ list updates, r = .ok (list, updates) ∧ Known T list.slices list.count ∧
    ∀ update ∈ updates, update.Truthful T

/-- **Adding what is truthful leaves the truth known**, where the count is told or kept by counting
what is new. -/
theorem addRange_known (h : Known T₀ list.slices list.count) (hT : FullPositions T) (hsub : T₀ ⊆ T)
    (hr : noSkipRange.start ≤ noSkipRange.till) (hnew : ∀ x ∈ T, x ∈ T₀ ∨ x ∈ messages)
    (hadds : Adds T list.slices messages noSkipRange) (hargs : count = none ∨ incrementCount = false)
    (hcount : ∀ n, count = some n → n = T.card)
    (hadded : ∀ result, addItems list.slices messages noSkipRange = .ok result →
      (T.card : ℤ) = T₀.card + if incrementCount ∧ 0 < result.added then result.added else 0) :
    Leaves T (list.addRange messages noSkipRange count incrementCount) := by
  obtain ⟨result, hresult, hcovers, hslice⟩ := h.covers.addItems hr hsub hnew hadds
  set added : MessagesList :=
    ⟨result.slices, countAdded list.count count incrementCount result.added⟩
  have hcounted : Known T added.slices added.count :=
    ⟨hcovers, countAdded_eq h.count_eq hcount (hadded result hresult)⟩
  set last := added.countOnly
  have hlast : Known T last.slices last.count := countOnly_known hT hcounted
  refine ⟨last, [result.update ⟨⟨0, 0, 0⟩, ⟨0, 0, 0⟩⟩ last.count], ?_, hlast, fun update hupdate => ?_⟩
  · rw [addRange, expects, if_pos hargs, ok_bind, addRangeItemsAndCountNew, expects, if_pos hr,
      ok_bind, hresult, ok_bind]
  · rw [List.mem_singleton.mp hupdate]
    exact result.update_truthful hcovers hslice _ hlast.count_eq

/-- **One position told of leaves the truth known**, where the slices that start inside the range
have none. -/
theorem addCounted_known {messageId : MessagePosition} (h : Known T list.slices list.count)
    (hT : FullPositions (insert messageId T)) (hnew : NewOrStored T list messageId)
    (hr : noSkipRange.Has messageId)
    (honly : ∀ position ∈ T, noSkipRange.Has position → position ≤ messageId)
    (hstart : noSkipRange.start = messageId)
    (hinside : ∀ s ∈ list.slices, noSkipRange.start < s.range.start →
      s.range.start ≤ noSkipRange.till → s.messages = ∅) :
    Leaves (insert messageId T) (list.addRange {messageId} noSkipRange none true) := by
  refine addRange_known h hT (Finset.subset_insert messageId T) (hr.1.trans hr.2) (fun x hx => ?_) ?_
    (.inl rfl) (fun n hn => nomatch hn) fun result hresult => ?_
  · exact (Finset.mem_insert.mp hx).symm.imp_right Finset.mem_singleton.mpr
  · refine ⟨fun x hx => ?_, fun x hx hrange => ?_⟩
    · obtain rfl := Finset.mem_singleton.mp hx
      exact ⟨Finset.mem_insert_self _ _, hr⟩
    · rcases Finset.mem_insert.mp hx with rfl | hx
      · exact .inl (Finset.mem_singleton_self _)
      · exact .inl (Finset.mem_singleton.mpr
          (le_antisymm (honly x hx hrange) (hstart ▸ hrange.1)))
  · simpa using h.covers.card_insert_added (hr.1.trans hr.2) hr hnew hinside hresult

/-! ## Runs -/

/-- An operation keeps to the full range. -/
theorem Op.Truthful.fullPositions {op : Op} (hop : op.Truthful T list) (hT : FullPositions T) :
    FullPositions (op.truth T) := by
  have hinsert : ∀ messageId, minMessagePosition ≤ messageId ∧ messageId ≤ maxMessagePosition →
      FullPositions (insert messageId T) := by
    intro messageId hid x hx
    rcases Finset.mem_insert.mp hx with rfl | hx
    · exact hid
    · exact hT x hx
  cases op with
  | addOne messageId => exact hinsert messageId hop.2
  | addNew messageId => exact hinsert messageId hop.2.2
  | removeOne messageId => exact fun x hx => hT x (Finset.mem_of_mem_erase hx)
  | addSlice messageIds noSkipRange count => exact hT
  | invalidate => exact hT
  | invalidateBottom => exact hT

/-- **A truthful operation asserts on an inverted range only, and leaves the truth known**; the
updates it fires are true. -/
theorem apply_known {op : Op} (h : Known T list.slices list.count) (hT : FullPositions T)
    (hop : op.Truthful T list) (hordered : op.Ordered) : Leaves (op.truth T) (list.apply op) := by
  have hT' := hop.fullPositions hT
  cases op with
  | addOne messageId =>
    refine addCounted_known h hT' hop.1 ⟨le_rfl, le_rfl⟩ (fun x _ hx => hx.2) rfl ?_
    exact fun s _ hstart htill => absurd htill hstart.not_ge
  | addNew messageId =>
    obtain ⟨hnew, habove, hmin, hmax⟩ := hop
    refine addCounted_known h hT' hnew ⟨le_rfl, hmax⟩ (fun x hx _ => habove x hx) rfl ?_
    intro s hs hstart _
    refine Finset.eq_empty_of_forall_notMem fun x hx => ?_
    obtain ⟨hx, hsx, -⟩ := ((h.covers.faithful s hs).mem_iff x).mp hx
    exact (habove x hx).not_gt (hstart.trans_le hsx)
  | addSlice messageIds noSkipRange count =>
    exact addRange_known h hT subset_rfl hordered (fun x hx => .inl hx) hop.1 (.inr rfl) hop.2
      fun result _ => by simp [Op.truth]
  | removeOne messageId =>
    have hcovers := h.covers.removeItem messageId
    have hcount : ∀ n : ℤ, list.count.map (· - 1) = some n → n = (T.erase messageId).card := by
      intro n hn
      obtain ⟨m, hm, rfl⟩ := Option.map_eq_some_iff.mp hn
      have hpos : 0 < T.card := Finset.card_pos.mpr ⟨messageId, hop⟩
      have hcard : (T.erase messageId).card = T.card - 1 := Finset.card_erase_of_mem hop
      have hm := h.count_eq m hm
      omega
    refine ⟨_, _, rfl, ⟨hcovers, hcount⟩, fun update hupdate => ?_⟩
    cases hslice : sliceOf list.slices messageId with
    | none =>
      simp only [hslice] at hupdate
      exact nomatch hupdate
    | some slice =>
      simp only [hslice] at hupdate
      obtain rfl := List.mem_singleton.mp hupdate
      refine ⟨fun ids hids => ?_, hcount⟩
      obtain rfl := Option.some.inj hids
      refine hcovers.faithful ⟨slice.messages.erase messageId, slice.range⟩ ?_
      rw [removeItem_eq_map h.covers]
      exact List.mem_map.mpr ⟨slice, (sliceOf_eq_some hslice).1, rfl⟩
  | invalidate =>
    exact ⟨invalidate, [], rfl, ⟨.nil, fun n hn => nomatch hn⟩, fun _ hu => nomatch hu⟩
  | invalidateBottom =>
    exact ⟨list.invalidateBottom, [], rfl,
      ⟨h.covers.invalidateBottomSlice _, fun n hn => nomatch hn⟩, fun _ hu => nomatch hu⟩

/-- An operation that does not assert has a range that is not inverted. -/
theorem Op.Ordered.of_apply {op : Op} (h : list.apply op = .ok (list', updates)) : op.Ordered := by
  cases op with
  | addSlice messageIds noSkipRange count =>
    change list.addRange messageIds noSkipRange count false = _ at h
    rw [addRange, expects, if_pos (.inr rfl), ok_bind, addRangeItemsAndCountNew, expects] at h
    by_contra hordered
    have hordered : ¬ noSkipRange.start ≤ noSkipRange.till := hordered
    rw [if_neg hordered] at h
    cases h
  | _ => trivial

/-- **What a query answers is exact.** -/
theorem queryCurrent_exact (h : Known T list.slices list.count) (hT : FullPositions T)
    (query : SliceQuery MessagePosition) : (list.queryCurrent query).Exact T query := by
  unfold queryCurrent
  split_ifs with hzero
  · exact .of_empty fun n hn => nomatch hn
  split
  next slice hslice =>
    obtain ⟨hmem, hhas⟩ := sliceOf_eq_some hslice
    exact (h.covers.faithful slice hmem).queryFromSlice hhas hT h.count_eq
  next => exact .of_empty fun n hn => nomatch hn

/-- One truthful operation on the positions there are and on the list of them. -/
def Step (s s' : Finset MessagePosition × MessagesList) : Prop :=
  ∃ op : Op, op.Truthful s.1 s.2 ∧ s'.1 = op.truth s.1 ∧
    ∃ updates, s.2.apply op = .ok (s'.2, updates)

/-- What is known stays the truth along truthful operations. -/
theorem Step.known {s s' : Finset MessagePosition × MessagesList}
    (hstep : Relation.ReflTransGen Step s s') (hT : FullPositions s.1)
    (h : Known s.1 s.2.slices s.2.count) :
    FullPositions s'.1 ∧ Known s'.1 s'.2.slices s'.2.count := by
  induction hstep with
  | refl => exact ⟨hT, h⟩
  | tail _ hlast ih =>
    obtain ⟨hT, h⟩ := ih
    obtain ⟨op, hop, htruth, updates, happly⟩ := hlast
    obtain ⟨list', updates', happly', h', -⟩ := apply_known h hT hop (.of_apply happly)
    obtain ⟨hlist, -⟩ := Prod.mk.inj (Except.ok.inj (happly.symm.trans happly'))
    rw [htruth, hlist]
    exact ⟨hop.fullPositions hT, h'⟩

/-- **The list refines the set of positions.**  After any run of truthful operations on a list
nothing was told to, the slices are disjoint and sorted and have exactly the positions of their
ranges, the count is that of all positions, and every query is answered exactly; a truthful operation
asserts on an inverted range only. -/
theorem messages_list_refines {T₀ T : Finset MessagePosition} {list : MessagesList}
    (hT₀ : FullPositions T₀) (hrun : Relation.ReflTransGen Step (T₀, init) (T, list)) :
    (list.slices.Pairwise fun a b => a.range.till < b.range.start) ∧
      (∀ slice ∈ list.slices, slice.range.start ≤ slice.range.till ∧
        slice.messages = T.filter fun position => slice.range.Has position) ∧
      (∀ n, list.count = some n → n = T.card) ∧
      (∀ query, (list.snapshot query).Exact T query) ∧
      (∀ query result, list.query query = some result → result.Exact T query) ∧
      ∀ op : Op, op.Truthful T list → op.Ordered → ∃ r, list.apply op = .ok r := by
  obtain ⟨hT, h⟩ := Step.known hrun hT₀ ⟨.nil, fun n hn => nomatch hn⟩
  refine ⟨h.covers.sorted, fun slice hslice => ?_, h.count_eq, queryCurrent_exact h hT, ?_, ?_⟩
  · have hfaithful := h.covers.faithful slice hslice
    refine ⟨hfaithful.ordered, ?_⟩
    ext x
    rw [hfaithful.mem_iff, Finset.mem_filter]
  · intro query result hresult
    unfold MessagesList.query at hresult
    dsimp only at hresult
    split_ifs at hresult
    exact Option.some.inj hresult ▸ queryCurrent_exact h hT query
  · intro op hop hordered
    obtain ⟨list', updates, happly, -⟩ := apply_known h hT hop hordered
    exact ⟨_, happly⟩

/-- One position added between two slices, and one after all. -/
theorem messages_list_refines_added :
    (snapshot ⟨[⟨{⟨5, 1, 2⟩}, ⟨⟨5, 1, 2⟩, ⟨5, 1, 2⟩⟩⟩,
        ⟨{⟨9, 1, 3⟩}, ⟨⟨9, 1, 3⟩, maxMessagePosition⟩⟩], none⟩ ⟨⟨9, 1, 3⟩, 1, 1⟩).Exact
      {⟨5, 1, 2⟩, ⟨9, 1, 3⟩, ⟨7, 1, 7⟩} ⟨⟨9, 1, 3⟩, 1, 1⟩ := by
  have hT : FullPositions {⟨7, 1, 7⟩} := by unfold FullPositions; decide
  have hfirst : Step ({⟨7, 1, 7⟩}, init)
      (insert ⟨9, 1, 3⟩ {⟨7, 1, 7⟩}, ⟨[⟨{⟨9, 1, 3⟩}, ⟨⟨9, 1, 3⟩, maxMessagePosition⟩⟩], none⟩) :=
    ⟨.addNew ⟨9, 1, 3⟩, ⟨fun hmem => absurd hmem (by decide), by decide, by decide, by decide⟩, rfl, _,
      rfl⟩
  have hsecond : Step
      (insert ⟨9, 1, 3⟩ {⟨7, 1, 7⟩}, ⟨[⟨{⟨9, 1, 3⟩}, ⟨⟨9, 1, 3⟩, maxMessagePosition⟩⟩], none⟩)
      (insert ⟨5, 1, 2⟩ (insert ⟨9, 1, 3⟩ {⟨7, 1, 7⟩}), ⟨[⟨{⟨5, 1, 2⟩}, ⟨⟨5, 1, 2⟩, ⟨5, 1, 2⟩⟩⟩,
        ⟨{⟨9, 1, 3⟩}, ⟨⟨9, 1, 3⟩, maxMessagePosition⟩⟩], none⟩) :=
    ⟨.addOne ⟨5, 1, 2⟩, ⟨fun hmem => absurd hmem (by decide), by decide, by decide⟩, rfl, _, rfl⟩
  exact (messages_list_refines hT (.tail (.single hfirst) hsecond)).2.2.2.1 ⟨⟨9, 1, 3⟩, 1, 1⟩

end MessagesList

end Yunogram.Data
