import Yunogram.Data.MessagesList

/-!
# Data/MessagesTrim — forgetting the positions below a bound

`MessagesList::removeLessThan` drops the slices that end at the bound or below it, and cuts the one
the bound falls into.  A slice that ends exactly at the bound is dropped with its last position,
which is not below the bound: `less_than_removed` says that this is all that goes wrong.

The lists here are those any calls lead to, whether or not what they are told is true; all that is
asked of a call is that positions are in their range and in the full range. -/

namespace Yunogram.Storage

variable {α : Type} [LinearOrder α]

/-! ## What slices store -/

/-- All the ids stored. -/
def stored : List (Slice α) → Finset α
  | [] => ∅
  | slice :: slices => slice.messages ∪ stored slices

theorem mem_stored {slices : List (Slice α)} {x : α} :
    x ∈ stored slices ↔ ∃ slice ∈ slices, x ∈ slice.messages := by
  induction slices with
  | nil => simp [stored]
  | cons slice slices ih => simp [stored, ih]

variable {T : Finset α} {slices : List (Slice α)} {slice : Slice α} {id x least : α}

/-- Slices that are true of some set are true of what they store. -/
theorem Covers.stored (h : Covers T slices) : Covers (stored slices) slices := by
  refine ⟨h.sorted, fun s hs => ⟨(h.faithful s hs).ordered, fun x => ⟨fun hx => ?_, ?_⟩⟩⟩
  · exact ⟨mem_stored.mpr ⟨s, hs, hx⟩, (((h.faithful s hs).mem_iff x).mp hx).2⟩
  · rintro ⟨hx, hrange⟩
    obtain ⟨s', hs', hx⟩ := mem_stored.mp hx
    exact ((h.faithful s hs).mem_iff x).mpr ⟨(((h.faithful s' hs').mem_iff x).mp hx).1, hrange⟩

theorem Covers.tail (h : Covers T (slice :: slices)) : Covers T slices :=
  ⟨(List.pairwise_cons.mp h.sorted).2, fun s hs => h.faithful s (List.mem_cons_of_mem _ hs)⟩

/-- The slices after one start after it. -/
theorem Covers.head_till_lt (h : Covers T (slice :: slices)) :
    ∀ s ∈ slices, slice.range.till < s.range.start := (List.pairwise_cons.mp h.sorted).1

/-- **An id is in the range of one slice only.** -/
theorem Covers.eq_of_has (h : Covers T slices) {s s' : Slice α} (hs : s ∈ slices)
    (hs' : s' ∈ slices) (hx : s.range.Has x) (hx' : s'.range.Has x) : s = s' := by
  induction slices with
  | nil => exact nomatch hs
  | cons slice slices ih =>
    rcases List.mem_cons.mp hs with hs | hs <;> rcases List.mem_cons.mp hs' with hs' | hs'
    · exact hs.trans hs'.symm
    · exact absurd hx'.1 ((hs ▸ hx.2).trans_lt (h.head_till_lt s' hs')).not_ge
    · exact absurd hx.1 ((hs' ▸ hx'.2).trans_lt (h.head_till_lt s hs)).not_ge
    · exact ih h.tail hs hs'

/-- The ids of the first slice and those of the others are counted apart. -/
theorem Covers.card_stored_cons (h : Covers T (slice :: slices)) :
    (Storage.stored (slice :: slices)).card =
      slice.messages.card + (Storage.stored slices).card := by
  refine Finset.card_union_of_disjoint (Finset.disjoint_left.mpr fun x hx hx' => ?_)
  obtain ⟨s, hs, hx'⟩ := mem_stored.mp hx'
  have hhere := (((h.faithful slice List.mem_cons_self).mem_iff x).mp hx).2
  have hthere := (((h.tail.faithful s hs).mem_iff x).mp hx').2
  exact absurd hthere.1 (hhere.2.trans_lt (h.head_till_lt s hs)).not_ge

/-! ## The loop of `removeLessThan` -/

/-- The loop: the slices it leaves, and how many ids it removed. -/
def removeLessThanLoop (least id : α) : List (Slice α) → List (Slice α) × ℤ
  | [] => ([], 0)
  | slice :: slices =>
    if slice.range.till ≤ id then
      let rest := removeLessThanLoop least id slices
      (rest.1, slice.messages.card + rest.2)
    else if slice.range.start ≤ id then
      (⟨slice.messages.filter (id ≤ ·), ⟨least, slice.range.till⟩⟩ :: slices,
        (slice.messages.filter (· < id)).card)
    else (slice :: slices, 0)

/-- The slices that start at a bound or above it are true of what is not below the bound. -/
theorem Covers.above (h : Covers T slices) (hid : ∀ s ∈ slices, id ≤ s.range.start) :
    Covers (T.filter (id ≤ ·)) slices := by
  refine ⟨h.sorted, fun s hs => ⟨(h.faithful s hs).ordered, fun x => ?_⟩⟩
  rw [(h.faithful s hs).mem_iff, Finset.mem_filter]
  exact ⟨fun hx => ⟨⟨hx.1, (hid s hs).trans hx.2.1⟩, hx.2⟩, fun hx => ⟨hx.1.1, hx.2⟩⟩

/-- What the slice that is cut becomes is true of what is not below the bound. -/
theorem Faithful.cut (h : Faithful T slice) (hleast : least ≤ slice.range.start)
    (hstart : slice.range.start ≤ id) :
    Faithful (T.filter (id ≤ ·)) ⟨slice.messages.filter (id ≤ ·), ⟨least, slice.range.till⟩⟩ := by
  refine ⟨hleast.trans h.ordered, fun x => ?_⟩
  show x ∈ slice.messages.filter (id ≤ ·) ↔ _
  rw [Finset.mem_filter, Finset.mem_filter, h.mem_iff]
  constructor
  · rintro ⟨⟨hx, hrange⟩, hid⟩
    exact ⟨⟨hx, hid⟩, hleast.trans hrange.1, hrange.2⟩
  · rintro ⟨⟨hx, hid⟩, hrange⟩
    exact ⟨⟨hx, hstart.trans hid, hrange.2⟩, hid⟩

/-- **The slices that are left are true of what is not below the bound.** -/
theorem Covers.afterRemoving (h : Covers T slices) (hleast : ∀ s ∈ slices, least ≤ s.range.start) :
    Covers (T.filter (id ≤ ·)) (removeLessThanLoop least id slices).1 := by
  induction slices with
  | nil => exact .nil
  | cons slice slices ih =>
    have hfirst := h.faithful slice List.mem_cons_self
    rw [Storage.removeLessThanLoop]
    split_ifs with htill hstart
    · exact ih h.tail fun s hs => hleast s (List.mem_cons_of_mem _ hs)
    · have hrest : Covers (T.filter (id ≤ ·)) slices := by
        refine h.tail.above fun s hs => ?_
        exact (not_le.mp htill).le.trans (h.head_till_lt s hs).le
      refine ⟨List.pairwise_cons.mpr ⟨h.head_till_lt, hrest.sorted⟩, fun s hs => ?_⟩
      rcases List.mem_cons.mp hs with rfl | hs
      · exact hfirst.cut (hleast slice List.mem_cons_self) hstart
      · exact hrest.faithful s hs
    · refine h.above fun s hs => ?_
      rcases List.mem_cons.mp hs with rfl | hs
      · exact (not_le.mp hstart).le
      · exact (not_le.mp htill).le.trans (h.head_till_lt s hs).le

/-- What is left starts where it started, or at the least id. -/
theorem least_le_removeLessThanLoop (hleast : ∀ s ∈ slices, least ≤ s.range.start) :
    ∀ s ∈ (removeLessThanLoop least id slices).1, least ≤ s.range.start := by
  induction slices with
  | nil => exact fun s hs => nomatch hs
  | cons slice slices ih =>
    rw [removeLessThanLoop]
    split_ifs with htill hstart
    · exact ih fun s hs => hleast s (List.mem_cons_of_mem _ hs)
    · intro s hs
      rcases List.mem_cons.mp hs with rfl | hs
      · exact le_rfl
      · exact hleast s (List.mem_cons_of_mem _ hs)
    · exact hleast

/-- **What is left stored**: what is not below the bound, of the slices that end after it. -/
theorem Covers.mem_stored_removeLessThanLoop (h : Covers T slices) :
    x ∈ Storage.stored (removeLessThanLoop least id slices).1 ↔
      ∃ s ∈ slices, x ∈ s.messages ∧ id ≤ x ∧ id < s.range.till := by
  have hafter : ∀ slices : List (Slice α), Covers T slices → (∀ s ∈ slices, id < s.range.start) →
      (x ∈ Storage.stored slices ↔ ∃ s ∈ slices, x ∈ s.messages ∧ id ≤ x ∧ id < s.range.till) := by
    intro slices h hid
    rw [mem_stored]
    refine exists_congr fun s => and_congr_right fun hs => (and_iff_left_of_imp fun hx => ?_).symm
    have hrange := (((h.faithful s hs).mem_iff x).mp hx).2
    exact ⟨(hid s hs).le.trans hrange.1, (hid s hs).trans_le (h.faithful s hs).ordered⟩
  induction slices with
  | nil => simp [Storage.removeLessThanLoop, Storage.stored]
  | cons slice slices ih =>
    rw [Storage.removeLessThanLoop]
    split_ifs with htill hstart
    · refine (ih h.tail).trans ?_
      rw [List.exists_mem_cons_iff]
      exact (or_iff_right fun hfirst => htill.not_gt hfirst.2.2).symm
    · rw [Storage.stored, Finset.mem_union, Finset.mem_filter, List.exists_mem_cons_iff,
        hafter slices h.tail fun s hs => (not_le.mp htill).trans (h.head_till_lt s hs)]
      exact or_congr_left (and_congr_right fun _ => (and_iff_left (not_le.mp htill)).symm)
    · refine hafter _ h fun s hs => ?_
      rcases List.mem_cons.mp hs with rfl | hs
      · exact not_le.mp hstart
      · exact (not_le.mp htill).trans (h.head_till_lt s hs)

/-- **Which ids from the bound on are in the ranges that are left**: those of the slices that end
after it. -/
theorem Covers.has_removeLessThanLoop (h : Covers T slices)
    (hleast : ∀ s ∈ slices, least ≤ s.range.start) (hx : id ≤ x) :
    (∃ s ∈ (removeLessThanLoop least id slices).1, s.range.Has x) ↔
      ∃ s ∈ slices, s.range.Has x ∧ id < s.range.till := by
  induction slices with
  | nil => simp [Storage.removeLessThanLoop]
  | cons slice slices ih =>
    have hafter : ¬ slice.range.till ≤ id → ∀ s ∈ slices, id < s.range.till := fun htill s hs =>
      (not_le.mp htill).trans ((h.head_till_lt s hs).trans_le (h.tail.faithful s hs).ordered)
    have hrest : ¬ slice.range.till ≤ id → ((∃ s ∈ slices, s.range.Has x) ↔
        ∃ s ∈ slices, s.range.Has x ∧ id < s.range.till) := fun htill =>
      exists_congr fun s => and_congr_right fun hs => (and_iff_left (hafter htill s hs)).symm
    rw [Storage.removeLessThanLoop]
    split_ifs with htill hstart
    · rw [ih h.tail fun s hs => hleast s (List.mem_cons_of_mem _ hs), List.exists_mem_cons_iff]
      exact (or_iff_right fun hfirst => htill.not_gt hfirst.2).symm
    · rw [List.exists_mem_cons_iff, List.exists_mem_cons_iff, hrest htill,
        and_iff_left (not_le.mp htill)]
      refine or_congr_left ⟨fun hrange => ⟨hstart.trans hx, hrange.2⟩, fun hrange => ?_⟩
      exact ⟨(hleast slice List.mem_cons_self).trans hrange.1, hrange.2⟩
    · rw [List.exists_mem_cons_iff, List.exists_mem_cons_iff, hrest htill,
        and_iff_left (not_le.mp htill)]

/-- **The loop counts what it removes.** -/
theorem Covers.card_removeLessThanLoop (h : Covers T slices)
    (hleast : ∀ s ∈ slices, least ≤ s.range.start) :
    ((Storage.stored slices).card : ℤ) =
      (Storage.stored (removeLessThanLoop least id slices).1).card
        + (removeLessThanLoop least id slices).2 := by
  induction slices with
  | nil => rfl
  | cons slice slices ih =>
    have hleft : Covers (T.filter (id ≤ ·))
        (Storage.removeLessThanLoop least id (slice :: slices)).1 := h.afterRemoving hleast
    rw [Storage.removeLessThanLoop] at hleft ⊢
    split_ifs at hleft ⊢ with htill hstart
    · have hrest := ih h.tail fun s hs => hleast s (List.mem_cons_of_mem _ hs)
      rw [h.card_stored_cons]
      dsimp only
      omega
    · have hsplit := Finset.card_filter_add_card_filter_not (s := slice.messages) (id ≤ ·)
      simp only [not_le] at hsplit
      rw [h.card_stored_cons, hleft.card_stored_cons]
      dsimp only
      omega
    · rw [add_zero]

end Yunogram.Storage

namespace Yunogram.Data

open Machinery Storage

namespace MessagesList

/-- `removeLessThan`. -/
def removeLessThan (list : MessagesList) (messageId : MessagePosition) : MessagesList :=
  let left := removeLessThanLoop minMessagePosition messageId list.slices
  ⟨left.1, if left.2 ≠ 0 then list.count.map (· - left.2) else list.count⟩

/-! ## The lists there are -/

/-- What can be asked of a list, `removeLessThan` included. -/
inductive Call where
  | op (op : Op)
  | removeLessThan (messageId : MessagePosition)

/-- What a call makes of a list. -/
def call (list : MessagesList) : Call → Except Fault MessagesList
  | .op op => (list.apply op).map Prod.fst
  | .removeLessThan messageId => .ok (list.removeLessThan messageId)

/-- A call speaks of positions of the full range, and tells of a range the positions in it. -/
def Call.Inside : Call → Prop
  | .op (.addOne messageId) | .op (.addNew messageId) => minMessagePosition ≤ messageId
  | .op (.addSlice messageIds noSkipRange _) =>
    minMessagePosition ≤ noSkipRange.start ∧ ∀ messageId ∈ messageIds, noSkipRange.Has messageId
  | _ => True

/-- A list that calls lead to. -/
def Reachable (list : MessagesList) : Prop :=
  Relation.ReflTransGen (fun list list' => ∃ c : Call, c.Inside ∧ list.call c = .ok list') init list

/-- **What every list keeps**: the slices are disjoint and sorted, and store positions of their
ranges only. -/
structure Tidy (slices : List (Slice MessagePosition)) : Prop where
  covers : Covers (stored slices) slices
  least : ∀ slice ∈ slices, minMessagePosition ≤ slice.range.start

variable {list list' : MessagesList} {slices : List (Slice MessagePosition)}
  {messages : Finset MessagePosition} {noSkipRange : Range MessagePosition}
  {messageId : MessagePosition}

/-- Adding positions of a range keeps the slices tidy. -/
theorem Tidy.addItems (h : Tidy slices) (hr : noSkipRange.start ≤ noSkipRange.till)
    (hleast : minMessagePosition ≤ noSkipRange.start)
    (hinside : ∀ messageId ∈ messages, noSkipRange.Has messageId) :
    ∃ result, addItems slices messages noSkipRange = .ok result ∧ Tidy result.slices := by
  have hadds : Adds (stored slices ∪ messages) slices messages noSkipRange := by
    refine ⟨fun x hx => ⟨Finset.mem_union_right _ hx, hinside x hx⟩, fun x hx _ => ?_⟩
    exact (Finset.mem_union.mp hx).symm.imp_right mem_stored.mp
  obtain ⟨result, hresult, hcovers, -⟩ := h.covers.addItems hr Finset.subset_union_left
    (fun x hx => Finset.mem_union.mp hx) hadds
  refine ⟨result, hresult, hcovers.stored, fun s hs => ?_⟩
  have hordered : ∀ s ∈ slices, s.range.start ≤ s.range.till := fun s hs =>
    (h.covers.faithful s hs).ordered
  obtain ⟨lower, middle, upper, hsplit⟩ := exists_split h.covers.sorted hordered hr
  obtain ⟨merged, hull, hadd⟩ := addItems_eq messages hsplit hr hordered
  obtain rfl := Except.ok.inj (hresult.symm.trans hadd)
  have hold : ∀ s ∈ lower ++ (middle ++ upper), minMessagePosition ≤ s.range.start := fun s hs =>
    h.least s (hsplit.eq ▸ hs)
  rcases List.mem_append.mp hs with hs | hs
  · exact hold s (List.mem_append_left _ hs)
  rcases List.mem_cons.mp hs with rfl | hs
  · rcases hull.start_eq with heq | ⟨a, ha, heq⟩
    · exact heq ▸ hleast
    · exact heq ▸ hold a (List.mem_append_right _ (List.mem_append_left _ ha))
  · exact hold s (List.mem_append_right _ (List.mem_append_right _ hs))

theorem countOnly_slices (list : MessagesList) : list.countOnly.slices = list.slices := by
  unfold countOnly
  split
  · split_ifs <;> rfl
  · rfl

theorem Tidy.addRange {count : Option ℤ} {incrementCount : Bool}
    {updates : List (SliceUpdate MessagePosition)} (h : Tidy list.slices)
    (hleast : minMessagePosition ≤ noSkipRange.start)
    (hinside : noSkipRange.start ≤ noSkipRange.till →
      ∀ messageId ∈ messages, noSkipRange.Has messageId)
    (hadd : list.addRange messages noSkipRange count incrementCount = .ok (list', updates)) :
    Tidy list'.slices := by
  rw [MessagesList.addRange, expects] at hadd
  split_ifs at hadd with hargs
  · rw [ok_bind, addRangeItemsAndCountNew, expects] at hadd
    split_ifs at hadd with hr
    · obtain ⟨result, hresult, htidy⟩ := h.addItems hr hleast (hinside hr)
      rw [ok_bind, hresult, ok_bind] at hadd
      obtain ⟨rfl, -⟩ := Prod.mk.inj (Except.ok.inj hadd)
      rwa [countOnly_slices]
    · cases hadd
  · cases hadd

theorem Tidy.removeOne (h : Tidy slices) (messageId : MessagePosition) :
    Tidy (removeItem slices messageId) := by
  refine ⟨(h.covers.removeItem messageId).stored, fun s hs => ?_⟩
  rw [removeItem_eq_map h.covers] at hs
  obtain ⟨a, ha, rfl⟩ := List.mem_map.mp hs
  exact h.least a ha

theorem Tidy.invalidateBottom (h : Tidy slices) :
    Tidy (invalidateBottomSlice maxMessagePosition slices) := by
  refine ⟨(h.covers.invalidateBottomSlice _).stored, ?_⟩
  unfold invalidateBottomSlice
  cases hlast : slices.getLast? with
  | none => exact h.least
  | some last =>
    obtain ⟨initial, rfl⟩ := List.getLast?_eq_some_iff.mp hlast
    dsimp only
    split_ifs with htill
    · intro s hs
      rw [List.dropLast_concat] at hs
      rcases List.mem_append.mp hs with hs | hs
      · exact h.least s (List.mem_append_left _ hs)
      · obtain rfl := List.mem_singleton.mp hs
        exact h.least last (List.mem_append_right _ (List.mem_singleton_self _))
    · exact h.least

theorem Tidy.removeLessThan (h : Tidy list.slices) (messageId : MessagePosition) :
    Tidy (list.removeLessThan messageId).slices :=
  ⟨(h.covers.afterRemoving h.least).stored, least_le_removeLessThanLoop h.least⟩

/-- A call keeps the slices tidy. -/
theorem Tidy.call {c : Call} (h : Tidy list.slices) (hc : c.Inside)
    (hcall : list.call c = .ok list') : Tidy list'.slices := by
  cases c with
  | removeLessThan messageId =>
    obtain rfl := Except.ok.inj hcall
    exact h.removeLessThan messageId
  | op op =>
    rw [MessagesList.call] at hcall
    cases happly : list.apply op with
    | error fault =>
      rw [happly] at hcall
      exact nomatch hcall
    | ok applied =>
      obtain ⟨applied, updates⟩ := applied
      rw [happly] at hcall
      obtain rfl := Except.ok.inj hcall
      cases op with
      | addOne messageId =>
        refine h.addRange (show minMessagePosition ≤ messageId from hc) (fun hr x hx => ?_) happly
        rw [Finset.mem_singleton.mp hx]
        exact ⟨le_rfl, hr⟩
      | addNew messageId =>
        refine h.addRange (show minMessagePosition ≤ messageId from hc) (fun hr x hx => ?_) happly
        rw [Finset.mem_singleton.mp hx]
        exact ⟨le_rfl, hr⟩
      | addSlice messageIds noSkipRange count => exact h.addRange hc.1 (fun _ => hc.2) happly
      | removeOne messageId =>
        obtain ⟨rfl, -⟩ := Prod.mk.inj (Except.ok.inj happly)
        exact h.removeOne messageId
      | invalidate =>
        obtain ⟨rfl, -⟩ := Prod.mk.inj (Except.ok.inj happly)
        exact ⟨.nil, fun s hs => nomatch hs⟩
      | invalidateBottom =>
        obtain ⟨rfl, -⟩ := Prod.mk.inj (Except.ok.inj happly)
        exact h.invalidateBottom

/-- Every list is tidy. -/
theorem Reachable.tidy (h : Reachable list) : Tidy list.slices := by
  induction h with
  | refl => exact ⟨.nil, fun s hs => nomatch hs⟩
  | tail _ hstep ih =>
    obtain ⟨c, hc, hcall⟩ := hstep
    exact ih.call hc hcall

/-! ## What is removed -/

/-- Exactly the positions below the bound are removed from what is stored. -/
def RemovesLess (list : MessagesList) (messageId : MessagePosition) : Prop :=
  stored (list.removeLessThan messageId).slices = (stored list.slices).filter (messageId ≤ ·)

/-- What was in the range of a slice and is not below the bound is in the range of one still. -/
def KeepsRanges (list : MessagesList) (messageId : MessagePosition) : Prop :=
  ∀ x, messageId ≤ x → (∃ slice ∈ list.slices, slice.range.Has x) →
    ∃ slice ∈ (list.removeLessThan messageId).slices, slice.range.Has x

/-- A count that is known decreases by the number of positions removed. -/
def CountsRemoved (list : MessagesList) (messageId : MessagePosition) : Prop :=
  ∀ n, list.count = some n → (list.removeLessThan messageId).count =
    some (n - (stored list.slices \ stored (list.removeLessThan messageId).slices).card)

theorem removesLess_iff (h : Tidy list.slices) :
    list.RemovesLess messageId ↔
      ∀ slice ∈ list.slices, slice.range.till = messageId → messageId ∉ slice.messages := by
  have hleft : ∀ x, x ∈ stored (list.removeLessThan messageId).slices ↔
      ∃ s ∈ list.slices, x ∈ s.messages ∧ messageId ≤ x ∧ messageId < s.range.till := fun x =>
    h.covers.mem_stored_removeLessThanLoop
  have hrange : ∀ s ∈ list.slices, ∀ x ∈ s.messages, s.range.Has x := fun s hs x hx =>
    (((h.covers.faithful s hs).mem_iff x).mp hx).2
  constructor
  · intro hremoves s hs htill hmem
    have hkept : messageId ∈ stored (list.removeLessThan messageId).slices := by
      rw [hremoves]
      exact Finset.mem_filter.mpr ⟨mem_stored.mpr ⟨s, hs, hmem⟩, le_rfl⟩
    obtain ⟨s', hs', hmem', -, htill'⟩ := (hleft messageId).mp hkept
    obtain rfl := h.covers.eq_of_has hs hs' (hrange s hs _ hmem) (hrange s' hs' _ hmem')
    exact htill'.ne' htill
  · intro hend
    refine Finset.ext fun x => ?_
    rw [hleft, Finset.mem_filter, mem_stored]
    constructor
    · rintro ⟨s, hs, hmem, hx, -⟩
      exact ⟨⟨s, hs, hmem⟩, hx⟩
    · rintro ⟨⟨s, hs, hmem⟩, hx⟩
      have htill := (hrange s hs x hmem).2
      refine ⟨s, hs, hmem, hx, lt_of_le_of_ne (hx.trans htill) fun heq => ?_⟩
      obtain rfl := le_antisymm hx (heq ▸ htill)
      exact hend s hs heq.symm hmem

theorem keepsRanges_iff (h : Tidy list.slices) :
    list.KeepsRanges messageId ↔ ∀ slice ∈ list.slices, slice.range.till ≠ messageId := by
  constructor
  · rintro hkeeps s hs rfl
    have hhas : s.range.Has s.range.till := ⟨(h.covers.faithful s hs).ordered, le_rfl⟩
    have hleft := (h.covers.has_removeLessThanLoop h.least le_rfl).mp
      (hkeeps s.range.till le_rfl ⟨s, hs, hhas⟩)
    obtain ⟨s', hs', hhas', htill⟩ := hleft
    obtain rfl := h.covers.eq_of_has hs hs' hhas hhas'
    exact lt_irrefl _ htill
  · rintro hend x hx ⟨s, hs, hhas⟩
    refine (h.covers.has_removeLessThanLoop h.least hx).mpr ⟨s, hs, hhas, ?_⟩
    exact lt_of_le_of_ne (hx.trans hhas.2) (hend s hs).symm

/-- **The count follows what is removed**, whatever that is. -/
theorem countsRemoved (h : Tidy list.slices) : list.CountsRemoved messageId := by
  intro n hn
  have hcard : _ =
      ((stored (removeLessThanLoop minMessagePosition messageId list.slices).1).card : ℤ) + _ :=
    h.covers.card_removeLessThanLoop h.least
  have hsub : stored (list.removeLessThan messageId).slices ⊆ stored list.slices := by
    intro x hx
    obtain ⟨s, hs, hmem, -, -⟩ := h.covers.mem_stored_removeLessThanLoop.mp hx
    exact mem_stored.mpr ⟨s, hs, hmem⟩
  have hle := Finset.card_le_card hsub
  rw [Finset.card_sdiff_of_subset hsub]
  unfold removeLessThan at hle ⊢
  dsimp only at hle ⊢
  rw [hn]
  split_ifs with hzero
  · rw [Option.map_some]
    exact congrArg some (by omega)
  · rw [not_not] at hzero
    exact congrArg some (by omega)

/-- **When exactly the positions below a bound are removed.**  The bound may be any but the end of a
slice, which is dropped with its range up to the bound; where the bound itself is not stored at that
end, still no position is lost.  The count follows what is removed in any case. -/
theorem less_than_removed (h : Reachable list) (messageId : MessagePosition) :
    ((list.RemovesLess messageId ∧ list.KeepsRanges messageId ∧ list.CountsRemoved messageId) ↔
        ∀ slice ∈ list.slices, slice.range.till ≠ messageId) ∧
      (list.RemovesLess messageId ↔
        ∀ slice ∈ list.slices, slice.range.till = messageId → messageId ∉ slice.messages) ∧
      list.CountsRemoved messageId := by
  have htidy := h.tidy
  refine ⟨⟨fun hall => (keepsRanges_iff htidy).mp hall.2.1, fun hend => ?_⟩, removesLess_iff htidy,
    countsRemoved htidy⟩
  refine ⟨(removesLess_iff htidy).mpr fun s hs heq => absurd heq (hend s hs),
    (keepsRanges_iff htidy).mpr hend, countsRemoved htidy⟩

/-- The list of one position, which is told of alone. -/
theorem reachable_addOne {messageId : MessagePosition} (h : minMessagePosition ≤ messageId) :
    Reachable ⟨[⟨{messageId}, ⟨messageId, messageId⟩⟩], none⟩ := by
  refine .single ⟨.op (.addOne messageId), h, ?_⟩
  rw [call, apply, addOne, addRange, expects, if_pos (.inl rfl), ok_bind, addRangeItemsAndCountNew,
    expects, if_pos le_rfl, ok_bind]
  have hrange : ¬ (⟨messageId, messageId⟩ : Range MessagePosition) = fullMessagesRange := fun heq =>
    absurd ((congrArg Range.start heq).symm.trans (congrArg Range.till heq)) (by decide)
  show Except.ok (countOnly ⟨[⟨{messageId}, ⟨messageId, messageId⟩⟩], none⟩) = _
  rw [countOnly]
  exact congrArg Except.ok (if_neg hrange)

/-- A bound between two positions. -/
theorem less_than_removed_between :
    RemovesLess ⟨[⟨{⟨5, 1, 2⟩}, ⟨⟨5, 1, 2⟩, ⟨5, 1, 2⟩⟩⟩], none⟩ ⟨4, 1, 1⟩ :=
  ((less_than_removed (reachable_addOne (by decide)) ⟨4, 1, 1⟩).1.mpr
    (by decide)).1

/-- **The bound itself is lost where a slice ends at it.** -/
theorem bound_lost :
    Reachable ⟨[⟨{⟨5, 1, 2⟩}, ⟨⟨5, 1, 2⟩, ⟨5, 1, 2⟩⟩⟩], none⟩ ∧
      ¬ RemovesLess ⟨[⟨{⟨5, 1, 2⟩}, ⟨⟨5, 1, 2⟩, ⟨5, 1, 2⟩⟩⟩], none⟩ ⟨5, 1, 2⟩ :=
  ⟨reachable_addOne (by decide), by rw [RemovesLess]; decide⟩

end MessagesList

end Yunogram.Data
