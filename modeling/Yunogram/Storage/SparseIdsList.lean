import Mathlib
import Yunogram.Storage.SliceQueries

/-!
# Storage/SparseIdsList — the message ids that are known, with the count of all

`SparseIdsList` keeps slices of the server message ids of a chat and, where it is known, how many
there are.  The truth it is about is a set `T` of ids; `Truthful` says when an operation tells it the
truth, and `truth` what the operation makes of `T`.

`sparse_ids_list_refines`: in every run of truthful operations the slices cover `T`, the count is the
size of `T`, and what a query answers is exact.
-/

namespace Yunogram.Storage

open Machinery

/-- `MsgId`. -/
abbrev MsgId := ℤ

/-- `ServerMaxMsgId`. -/
def serverMaxMsgId : MsgId := 2 ^ 56

/-- The range of all server ids. -/
def fullMsgRange : Range MsgId := ⟨0, serverMaxMsgId⟩

/-- A set of server ids. -/
def ServerIds (T : Finset MsgId) : Prop := ∀ id ∈ T, 0 ≤ id ∧ id ≤ serverMaxMsgId

/-! ## The list -/

/-- `SparseIdsList`. -/
structure SparseIdsList where
  slices : List (Slice MsgId)
  count : Option ℤ

namespace SparseIdsList

variable {list list' : SparseIdsList} {T T₀ messages : Finset MsgId} {noSkipRange : Range MsgId}
  {count : Option ℤ} {incrementCount : Bool} {updates : List (SliceUpdate MsgId)}

/-- A list nothing was told to. -/
def init : SparseIdsList := ⟨[], none⟩

/-- `addRangeItemsAndCountNew`: an inverted range and no ids at one id are passed over. -/
def addRangeItemsAndCountNew (slices : List (Slice MsgId)) (messages : Finset MsgId)
    (noSkipRange : Range MsgId) : Except Fault (Added MsgId) :=
  if ¬ noSkipRange.start ≤ noSkipRange.till then .ok ⟨slices, none, 0⟩
  else if noSkipRange.start = noSkipRange.till ∧ messages = ∅ then .ok ⟨slices, none, 0⟩
  else addItems slices messages noSkipRange

/-- The only slice, where it has all the ids there are, covers the full range. -/
def extendOnly (list : SparseIdsList) : SparseIdsList :=
  match list.slices, list.count with
  | [slice], some count =>
    if count ≤ slice.messages.card then { list with slices := [{ slice with range := fullMsgRange }] }
    else list
  | _, _ => list

/-- The only slice, where it covers the full range, has all the ids there are. -/
def countOnly (list : SparseIdsList) : SparseIdsList :=
  match list.slices with
  | [slice] =>
    if slice.range = fullMsgRange then { list with count := some slice.messages.card } else list
  | _ => list

/-- `accumulate_max` of the count with the size of the slice of the update. -/
def countAtLeast (list : SparseIdsList) (slice : Option (Slice MsgId)) : SparseIdsList :=
  match slice with
  | some slice => { list with count := list.count.map (max · (slice.messages.card : ℤ)) }
  | none => list

/-- `addRange`. -/
def addRange (list : SparseIdsList) (messages : Finset MsgId) (noSkipRange : Range MsgId)
    (count : Option ℤ) (incrementCount : Bool) :
    Except Fault (SparseIdsList × List (SliceUpdate MsgId)) := do
  expects (count = none ∨ incrementCount = false)
  let result ← addRangeItemsAndCountNew list.slices messages noSkipRange
  let list := countOnly (extendOnly
    ⟨result.slices, countAdded list.count count incrementCount result.added⟩)
  let list := countAtLeast list result.slice
  .ok (list, [result.update ⟨0, 0⟩ list.count])

/-- `addNew`. -/
def addNew (list : SparseIdsList) (messageId : MsgId) :
    Except Fault (SparseIdsList × List (SliceUpdate MsgId)) :=
  addRange list {messageId} ⟨messageId, serverMaxMsgId⟩ none true

/-- `addExisting`. -/
def addExisting (list : SparseIdsList) (messageId : MsgId) (noSkipRange : Range MsgId) :
    Except Fault (SparseIdsList × List (SliceUpdate MsgId)) :=
  addRange list {messageId} noSkipRange none false

/-- `addSlice`. -/
def addSlice (list : SparseIdsList) (messageIds : Finset MsgId) (noSkipRange : Range MsgId)
    (count : Option ℤ) : Except Fault (SparseIdsList × List (SliceUpdate MsgId)) :=
  addRange list messageIds noSkipRange count false

/-- `removeOne`. -/
def removeOne (list : SparseIdsList) (messageId : MsgId) : SparseIdsList where
  slices := removeItem list.slices messageId
  count := list.count.map fun count => if 0 < count then count - 1 else count

/-- `removeAll`. -/
def removeAll : SparseIdsList := ⟨[⟨∅, fullMsgRange⟩], some 0⟩

/-- `invalidateBottom`. -/
def invalidateBottom (list : SparseIdsList) : SparseIdsList :=
  ⟨invalidateBottomSlice serverMaxMsgId list.slices, none⟩

/-- `queryFromSlice`. -/
def queryFromSlice (list : SparseIdsList) (query : SliceQuery MsgId) (slice : Slice MsgId) :
    SliceResult MsgId :=
  Storage.queryFromSlice 0 serverMaxMsgId list.count query slice

/-- `snapshot`. -/
def snapshot (list : SparseIdsList) (query : SliceQuery MsgId) : SliceResult MsgId :=
  match if query.aroundId = 0 then none else sliceOf list.slices query.aroundId with
  | some slice => list.queryFromSlice query slice
  | none => ⟨list.count, none, none, ∅⟩

/-- `query`: what it puts out, if anything. -/
def query (list : SparseIdsList) (query : SliceQuery MsgId) : Option (SliceResult MsgId) :=
  let now := list.snapshot query
  if now.messageIds.Nonempty ∨ now.count.isSome then some now else none

/-! ## Operations -/

/-- What can be asked of a list. -/
inductive Op where
  | addNew (messageId : MsgId)
  | addExisting (messageId : MsgId) (noSkipRange : Range MsgId)
  | addSlice (messageIds : Finset MsgId) (noSkipRange : Range MsgId) (count : Option ℤ)
  | removeOne (messageId : MsgId)
  | removeAll
  | invalidateBottom

/-- What an operation makes of a list, and the updates it fires. -/
def apply (list : SparseIdsList) : Op → Except Fault (SparseIdsList × List (SliceUpdate MsgId))
  | .addNew messageId => list.addNew messageId
  | .addExisting messageId noSkipRange => list.addExisting messageId noSkipRange
  | .addSlice messageIds noSkipRange count => list.addSlice messageIds noSkipRange count
  | .removeOne messageId => .ok (list.removeOne messageId, [])
  | .removeAll => .ok (removeAll, [])
  | .invalidateBottom => .ok (list.invalidateBottom, [])

/-- What an operation makes of the ids there are. -/
def Op.truth (T : Finset MsgId) : Op → Finset MsgId
  | .addNew messageId => insert messageId T
  | .removeOne messageId => T.erase messageId
  | .removeAll => ∅
  | .addExisting _ _ | .addSlice _ _ _ | .invalidateBottom => T

/-- **When an operation tells the truth.**  What is added for a range leaves nothing of `T` there
neither stored nor added; a new id is above all others. -/
def Op.Truthful (T : Finset MsgId) (list : SparseIdsList) : Op → Prop
  | .addNew messageId => (∀ id ∈ T, id < messageId) ∧ 0 ≤ messageId ∧ messageId ≤ serverMaxMsgId
  | .addExisting messageId noSkipRange => Adds T list.slices {messageId} noSkipRange
  | .addSlice messageIds noSkipRange count =>
    Adds T list.slices messageIds noSkipRange ∧ ∀ n, count = some n → n = T.card
  | .removeOne messageId => messageId ∈ T
  | .removeAll | .invalidateBottom => True

/-! ## What is known after adding -/

variable {slices : List (Slice MsgId)}

/-- Where a range is passed over, nothing of `T` in it is missed. -/
theorem addRangeItemsAndCountNew_covers (h : Covers T₀ slices) (hsub : T₀ ⊆ T)
    (hnew : ∀ x ∈ T, x ∈ T₀ ∨ x ∈ messages) (hadds : Adds T slices messages noSkipRange) :
    ∃ result, addRangeItemsAndCountNew slices messages noSkipRange = .ok result ∧
      Covers T result.slices ∧ ∀ slice, result.slice = some slice → slice ∈ result.slices := by
  unfold addRangeItemsAndCountNew
  have hpassed : messages = ∅ → ∃ result, Except.ok (⟨slices, none, 0⟩ : Added MsgId)
      = (.ok result : Except Fault (Added MsgId)) ∧ Covers T result.slices ∧
        ∀ slice, result.slice = some slice → slice ∈ result.slices := by
    rintro rfl
    refine ⟨_, rfl, ?_, fun slice hslice => nomatch hslice⟩
    have hT : T₀ = T := subset_antisymm hsub fun x hx =>
      (hnew x hx).resolve_right (Finset.notMem_empty x)
    exact hT ▸ h
  split_ifs with hr hempty
  · exact hpassed hempty.2
  · exact h.addItems hr hsub hnew hadds
  · refine hpassed (Finset.eq_empty_of_forall_notMem fun x hx => hr ?_)
    exact (hadds.subset x hx).2.1.trans (hadds.subset x hx).2.2

theorem fullMsgRange_ordered : fullMsgRange.start ≤ fullMsgRange.till := by decide

/-- A set of server ids is in the full range. -/
theorem has_full (hT : ServerIds T) {x : MsgId} (hx : x ∈ T) : fullMsgRange.Has x := hT x hx

/-- **A slice with as many ids as there are covers everything.** -/
theorem extendOnly_known (hT : ServerIds T) (h : Known T list.slices list.count) :
    Known T list.extendOnly.slices list.extendOnly.count := by
  unfold extendOnly
  split
  next slice count hslices hcount =>
    split_ifs with hall
    · refine ⟨⟨List.pairwise_singleton _ _, fun s hs => ?_⟩, h.count_eq⟩
      obtain rfl := List.mem_singleton.mp hs
      have hfaithful := h.covers.faithful slice (by rw [hslices]; exact List.mem_singleton_self _)
      have hmessages : slice.messages = T := by
        refine Finset.eq_of_subset_of_card_le hfaithful.isBlock.subset ?_
        have hcard := h.count_eq count hcount
        omega
      refine ⟨fullMsgRange_ordered, fun x => ?_⟩
      show x ∈ slice.messages ↔ x ∈ T ∧ fullMsgRange.Has x
      rw [hmessages]
      exact ⟨fun hx => ⟨hx, has_full hT hx⟩, And.left⟩
    · exact h
  next => exact h

/-- **A slice that covers everything counts it.** -/
theorem countOnly_known (hT : ServerIds T) (h : Known T list.slices list.count) :
    Known T list.countOnly.slices list.countOnly.count := by
  unfold countOnly
  split
  next slice hslices =>
    split_ifs with hfull
    · refine ⟨h.covers, fun n hn => ?_⟩
      have hfaithful := h.covers.faithful slice (by rw [hslices]; exact List.mem_singleton_self _)
      have hmessages : slice.messages = T := by
        refine subset_antisymm hfaithful.isBlock.subset fun x hx => ?_
        exact (hfaithful.mem_iff x).mpr ⟨hx, hfull ▸ has_full hT hx⟩
      rw [← hmessages]
      exact (Option.some.inj hn).symm
    · exact h
  next => exact h

theorem countAtLeast_known {slice : Option (Slice MsgId)}
    (hslice : ∀ s, slice = some s → s.messages ⊆ T) (h : Known T list.slices list.count) :
    Known T (list.countAtLeast slice).slices (list.countAtLeast slice).count := by
  cases slice with
  | none => exact h
  | some s =>
    refine ⟨h.covers, fun n hn => ?_⟩
    obtain ⟨m, hm, rfl⟩ := Option.map_eq_some_iff.mp hn
    have hcard := Finset.card_le_card (hslice s rfl)
    have hm := h.count_eq m hm
    omega

/-- What is left after an operation is known of `T`, and the updates fired are true. -/
def Leaves (T : Finset MsgId) (r : Except Fault (SparseIdsList × List (SliceUpdate MsgId))) : Prop :=
  ∃ list updates, r = .ok (list, updates) ∧ Known T list.slices list.count ∧
    ∀ update ∈ updates, update.Truthful T

theorem Known.leaves (list : SparseIdsList) (h : Known T list.slices list.count) : Leaves T (.ok (list, [])) :=
  ⟨list, [], rfl, h, fun _ hu => nomatch hu⟩

/-- **Adding what is truthful leaves the truth known**, where the count is told or kept by counting
what is new. -/
theorem addRange_known (h : Known T₀ list.slices list.count) (hT : ServerIds T) (hsub : T₀ ⊆ T)
    (hnew : ∀ x ∈ T, x ∈ T₀ ∨ x ∈ messages) (hadds : Adds T list.slices messages noSkipRange)
    (hargs : count = none ∨ incrementCount = false) (hcount : ∀ n, count = some n → n = T.card)
    (hadded : ∀ result, addRangeItemsAndCountNew list.slices messages noSkipRange = .ok result →
      (T.card : ℤ) = T₀.card + if incrementCount ∧ 0 < result.added then result.added else 0) :
    Leaves T (list.addRange messages noSkipRange count incrementCount) := by
  obtain ⟨result, hresult, hcovers, hslice⟩ := addRangeItemsAndCountNew_covers h.covers hsub hnew hadds
  set added : SparseIdsList :=
    ⟨result.slices, countAdded list.count count incrementCount result.added⟩
  have hcounted : Known T added.slices added.count :=
    ⟨hcovers, countAdded_eq h.count_eq hcount (hadded result hresult)⟩
  set last := added.extendOnly.countOnly.countAtLeast result.slice
  have hlast : Known T last.slices last.count := countAtLeast_known
    (fun s hs => (hcovers.faithful s (hslice s hs)).isBlock.subset)
    (countOnly_known hT (extendOnly_known hT hcounted))
  refine ⟨last, [result.update ⟨0, 0⟩ last.count], ?_, hlast, fun update hupdate => ?_⟩
  · rw [addRange, expects, if_pos hargs, ok_bind, hresult, ok_bind]
  · rw [List.mem_singleton.mp hupdate]
    exact result.update_truthful hcovers hslice ⟨0, 0⟩ hlast.count_eq

/-- **Counting what was added counts a new id above all others.** -/
theorem addNew_added {messageId : MsgId} {result : Added MsgId} (h : Covers T slices)
    (habove : ∀ id ∈ T, id < messageId) (hmax : messageId ≤ serverMaxMsgId)
    (hadd : addRangeItemsAndCountNew slices {messageId} ⟨messageId, serverMaxMsgId⟩ = .ok result) :
    ((insert messageId T).card : ℤ) = T.card + if 0 < result.added then result.added else 0 := by
  rw [addRangeItemsAndCountNew, if_neg (not_not.mpr hmax),
    if_neg fun h => Finset.singleton_ne_empty _ h.2] at hadd
  refine h.card_insert_added hmax ⟨le_rfl, hmax⟩ (fun hmem => absurd (habove _ hmem) (lt_irrefl _))
    (fun s hs hstart _ => ?_) hadd
  refine Finset.eq_empty_of_forall_notMem fun x hx => ?_
  obtain ⟨hx, hsx, -⟩ := ((h.faithful s hs).mem_iff x).mp hx
  exact lt_asymm (habove x hx) (hstart.trans_le hsx)

/-! ## Runs -/

/-- An operation keeps to server ids. -/
theorem Op.Truthful.serverIds (op : Op) (hop : op.Truthful T list) (hT : ServerIds T) :
    ServerIds (op.truth T) := by
  cases op with
  | addNew messageId =>
    intro id hid
    rcases Finset.mem_insert.mp hid with rfl | hid
    · exact hop.2
    · exact hT id hid
  | removeOne messageId => exact fun id hid => hT id (Finset.mem_of_mem_erase hid)
  | removeAll => exact fun id hid => absurd hid (Finset.notMem_empty id)
  | addExisting messageId noSkipRange => exact hT
  | addSlice messageIds noSkipRange count => exact hT
  | invalidateBottom => exact hT

/-- **A truthful operation never asserts, and leaves the truth known**; the updates it fires are
true. -/
theorem apply_known {op : Op} (h : Known T list.slices list.count) (hT : ServerIds T)
    (hop : op.Truthful T list) : Leaves (op.truth T) (list.apply op) := by
  cases op with
  | addNew messageId =>
    have hserver := Op.Truthful.serverIds (.addNew messageId) hop hT
    obtain ⟨habove, hmin, hmax⟩ := hop
    refine addRange_known h ?_ (Finset.subset_insert messageId T) (fun x hx => ?_) ?_
      (.inl rfl) (fun n hn => nomatch hn) fun result hresult => ?_
    · exact hserver
    · exact (Finset.mem_insert.mp hx).symm.imp_right Finset.mem_singleton.mpr
    · refine ⟨fun x hx => ?_, fun x hx hrange => ?_⟩
      · obtain rfl := Finset.mem_singleton.mp hx
        exact ⟨Finset.mem_insert_self _ _, le_rfl, hmax⟩
      · rcases Finset.mem_insert.mp hx with rfl | hx
        · exact .inl (Finset.mem_singleton_self _)
        · exact absurd hrange.1 (habove x hx).not_ge
    · simpa [Op.truth] using addNew_added h.covers habove hmax hresult
  | addExisting messageId noSkipRange =>
    exact addRange_known h hT subset_rfl (fun x hx => .inl hx) hop (.inl rfl)
      (fun n hn => nomatch hn) fun result _ => by simp [Op.truth]
  | addSlice messageIds noSkipRange count =>
    exact addRange_known h hT subset_rfl (fun x hx => .inl hx) hop.1 (.inr rfl) hop.2
      fun result _ => by simp [Op.truth]
  | removeOne messageId =>
    refine Known.leaves (list.removeOne messageId)
      ⟨h.covers.removeItem messageId, fun n hn => ?_⟩
    obtain ⟨m, hm, rfl⟩ := Option.map_eq_some_iff.mp hn
    have hcard : (T.erase messageId).card = T.card - 1 := Finset.card_erase_of_mem hop
    have hpos : 0 < T.card := Finset.card_pos.mpr ⟨messageId, hop⟩
    have hm := h.count_eq m hm
    show (if 0 < m then m - 1 else m) = ((T.erase messageId).card : ℤ)
    rw [if_pos (by omega)]
    omega
  | removeAll =>
    refine Known.leaves removeAll
      ⟨⟨List.pairwise_singleton _ _, fun s hs => ?_⟩, fun n hn => ?_⟩
    · obtain rfl := List.mem_singleton.mp hs
      exact ⟨fullMsgRange_ordered, fun x => by simp [Op.truth]⟩
    · obtain rfl := Option.some.inj hn
      rfl
  | invalidateBottom =>
    exact Known.leaves list.invalidateBottom
      ⟨h.covers.invalidateBottomSlice _, fun n hn => nomatch hn⟩

/-- **What a query answers is exact.** -/
theorem snapshot_exact (h : Known T list.slices list.count) (hT : ServerIds T)
    (query : SliceQuery MsgId) : (list.snapshot query).Exact T query := by
  unfold snapshot
  split
  next slice hslice =>
    split_ifs at hslice with hzero
    obtain ⟨hmem, hhas⟩ := sliceOf_eq_some hslice
    exact (h.covers.faithful slice hmem).queryFromSlice hhas hT h.count_eq
  next => exact .of_empty h.count_eq

/-- One truthful operation on the ids there are and on the list of them. -/
def Step (s s' : Finset MsgId × SparseIdsList) : Prop :=
  ∃ op : Op, op.Truthful s.1 s.2 ∧ s'.1 = op.truth s.1 ∧
    ∃ updates, s.2.apply op = .ok (s'.2, updates)

/-- What is known stays the truth along truthful operations. -/
theorem Step.known {s s' : Finset MsgId × SparseIdsList}
    (hstep : Relation.ReflTransGen Step s s') (hT : ServerIds s.1)
    (h : Known s.1 s.2.slices s.2.count) :
    ServerIds s'.1 ∧ Known s'.1 s'.2.slices s'.2.count := by
  induction hstep with
  | refl => exact ⟨hT, h⟩
  | tail _ hlast ih =>
    obtain ⟨hT, h⟩ := ih
    obtain ⟨op, hop, htruth, updates, happly⟩ := hlast
    obtain ⟨list', updates', happly', h', -⟩ := apply_known h hT hop
    obtain ⟨hlist, -⟩ := Prod.mk.inj (Except.ok.inj (happly.symm.trans happly'))
    rw [htruth, hlist]
    exact ⟨Op.Truthful.serverIds op hop hT, h'⟩

/-- **The list refines the set of ids.**  After any run of truthful operations on a list nothing was
told to, the slices are disjoint and sorted and have exactly the ids of their ranges, the count is
that of all ids, and every query is answered exactly; a truthful operation never asserts. -/
theorem sparse_ids_list_refines {T₀ T : Finset MsgId} {list : SparseIdsList} (hT₀ : ServerIds T₀)
    (hrun : Relation.ReflTransGen Step (T₀, init) (T, list)) :
    (list.slices.Pairwise fun a b => a.range.till < b.range.start) ∧
      (∀ slice ∈ list.slices, slice.range.start ≤ slice.range.till ∧
        slice.messages = T.filter fun id => slice.range.Has id) ∧
      (∀ n, list.count = some n → n = T.card) ∧
      (∀ query, (list.snapshot query).Exact T query) ∧
      (∀ query result, list.query query = some result → result.Exact T query) ∧
      ∀ op : Op, op.Truthful T list → ∃ r, list.apply op = .ok r := by
  obtain ⟨hT, h⟩ := Step.known hrun hT₀ ⟨.nil, fun n hn => nomatch hn⟩
  refine ⟨h.covers.sorted, fun slice hslice => ?_, h.count_eq, snapshot_exact h hT, ?_, ?_⟩
  · have hfaithful := h.covers.faithful slice hslice
    refine ⟨hfaithful.ordered, ?_⟩
    ext x
    rw [hfaithful.mem_iff, Finset.mem_filter]
  · intro query result hresult
    unfold SparseIdsList.query at hresult
    dsimp only at hresult
    split_ifs at hresult
    exact Option.some.inj hresult ▸ snapshot_exact h hT query
  · intro op hop
    obtain ⟨list', updates, happly, -⟩ := apply_known h hT hop
    exact ⟨_, happly⟩

/-- Two ids told in two slices that meet. -/
theorem sparse_ids_list_refines_united :
    (snapshot ⟨[⟨{10, 20}, ⟨5, 25⟩⟩], some 3⟩ ⟨20, 0, 5⟩).Exact {10, 20, 30} ⟨20, 0, 5⟩ := by
  have hT : ServerIds {10, 20, 30} := by unfold ServerIds; decide
  have hfirst : Step ({10, 20, 30}, init) ({10, 20, 30}, ⟨[⟨{10}, ⟨5, 15⟩⟩], some 3⟩) := by
    refine ⟨.addSlice {10} ⟨5, 15⟩ (some 3), ⟨?_, fun n hn => (Option.some.inj hn).symm⟩, rfl, _, rfl⟩
    have hids : ({10, 20, 30} : Finset MsgId).filter (Range.Has ⟨5, 15⟩) = {10} := by decide
    exact hids ▸ Adds.restrict {10, 20, 30} [] ⟨5, 15⟩
  have hsecond : Step ({10, 20, 30}, ⟨[⟨{10}, ⟨5, 15⟩⟩], some 3⟩)
      ({10, 20, 30}, ⟨[⟨{10, 20}, ⟨5, 25⟩⟩], some 3⟩) := by
    refine ⟨.addSlice {10, 20} ⟨8, 25⟩ none, ⟨?_, fun n hn => nomatch hn⟩, rfl, _, rfl⟩
    have hids : ({10, 20, 30} : Finset MsgId).filter (Range.Has ⟨8, 25⟩) = {10, 20} := by decide
    exact hids ▸ Adds.restrict {10, 20, 30} [⟨{10}, ⟨5, 15⟩⟩] ⟨8, 25⟩
  exact (sparse_ids_list_refines hT (.tail (.single hfirst) hsecond)).2.2.2.1 ⟨20, 0, 5⟩

end SparseIdsList

end Yunogram.Storage
