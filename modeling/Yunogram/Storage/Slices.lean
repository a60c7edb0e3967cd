import Mathlib
import Yunogram.Machinery.Ranked
import Yunogram.Machinery.Span

/-!
# Storage/Slices — what is known of an ordered set, range by range

`SparseIdsList` and `MessagesList` know a set of ids on some ranges only.  Both keep slices, each the
ids of one closed range, sorted by their ranges, and both add ids by uniting the slices the new range
meets.  The code is the same over the two types of ids; here it is over any ordered type.

`Covers T slices` says that the slices are disjoint and sorted and that each has exactly the ids of
`T` in its range.  `addItems` keeps it when what is added is truthful (`Adds`).
-/

namespace Yunogram.Storage

open Machinery

variable {α : Type} [LinearOrder α]

/-! ## Slices -/

/-- `MsgRange` and `MessagesRange`: both ends belong to the range. -/
structure Range (α : Type) where
  start : α
  till : α
  deriving DecidableEq

/-- The ids a range has. -/
def Range.Has (range : Range α) (x : α) : Prop := range.start ≤ x ∧ x ≤ range.till

instance (range : Range α) (x : α) : Decidable (range.Has x) :=
  inferInstanceAs (Decidable (_ ∧ _))

/-- `Slice`: the ids of a range. -/
structure Slice (α : Type) where
  messages : Finset α
  range : Range α

/-- `Slice::merge`. -/
def Slice.merge (slice : Slice α) (moreMessages : Finset α) (moreNoSkipRange : Range α) :
    Except Fault (Slice α) := do
  expects (moreNoSkipRange.start ≤ slice.range.till)
  expects (slice.range.start ≤ moreNoSkipRange.till)
  .ok ⟨slice.messages ∪ moreMessages,
    ⟨min slice.range.start moreNoSkipRange.start, max slice.range.till moreNoSkipRange.till⟩⟩

/-- `ranges::lower_bound` of an id among the ends of the ranges. -/
def lowerBound (slices : List (Slice α)) (id : α) : ℕ :=
  (slices.takeWhile fun slice => slice.range.till < id).length

/-- `ranges::upper_bound` of an id among the starts of the ranges. -/
def upperBound (slices : List (Slice α)) (id : α) : ℕ :=
  (slices.takeWhile fun slice => slice.range.start ≤ id).length

/-- What adding leaves: the slices, the one the update is about, and how many ids were added. -/
structure Added (α : Type) where
  slices : List (Slice α)
  slice : Option (Slice α)
  added : ℤ

/-- `uniteAndAdd`: the first slice takes the new ids, then the other slices that are united. -/
def uniteAndAdd (slices : List (Slice α)) (uniteFrom uniteTill : ℕ) (messages : Finset α)
    (noSkipRange : Range α) : Except Fault (Added α) :=
  match (slices.take uniteTill).drop uniteFrom with
  | [] => .error .outOfBounds
  | first :: rest => do
    let slice ← first.merge messages noSkipRange
    let slice ← rest.foldlM (fun slice it => slice.merge it.messages it.range) slice
    .ok ⟨slices.take uniteFrom ++ slice :: slices.drop uniteTill, some slice,
      slice.messages.card - first.messages.card⟩

/-- `flat_set::emplace` of a slice: they are ordered by the starts of their ranges. -/
def emplaceSlice (slice : Slice α) : List (Slice α) → List (Slice α) × Slice α
  | [] => ([slice], slice)
  | it :: slices =>
    if slice.range.start < it.range.start then (slice :: it :: slices, slice)
    else if it.range.start < slice.range.start then
      (it :: (emplaceSlice slice slices).1, (emplaceSlice slice slices).2)
    else (it :: slices, it)

/-- `addRangeItemsAndCountNew`, where the range is one. -/
def addItems (slices : List (Slice α)) (messages : Finset α) (noSkipRange : Range α) :
    Except Fault (Added α) :=
  if lowerBound slices noSkipRange.start < upperBound slices noSkipRange.till then
    uniteAndAdd slices (lowerBound slices noSkipRange.start) (upperBound slices noSkipRange.till)
      messages noSkipRange
  else
    .ok ⟨(emplaceSlice ⟨messages, noSkipRange⟩ slices).1,
      some (emplaceSlice ⟨messages, noSkipRange⟩ slices).2,
      (emplaceSlice ⟨messages, noSkipRange⟩ slices).2.messages.card⟩

/-- The slice an id is in, by its position. -/
def sliceOf (slices : List (Slice α)) (id : α) : Option (Slice α) :=
  slices[lowerBound slices id]?.filter fun slice => slice.range.start ≤ id

/-- The part of `removeOne` about the slices. -/
def removeItem (slices : List (Slice α)) (id : α) : List (Slice α) :=
  match sliceOf slices id with
  | some slice =>
    slices.set (lowerBound slices id) { slice with messages := slice.messages.erase id }
  | none => slices

/-- The last id of a slice, or the start of its range. -/
def Slice.lastKnown (slice : Slice α) : α :=
  if h : slice.messages.Nonempty then slice.messages.max' h else slice.range.start

/-- The part of `invalidateBottom` about the slices: one that reached the greatest id now ends at
its last. -/
def invalidateBottomSlice (greatest : α) (slices : List (Slice α)) : List (Slice α) :=
  match slices.getLast? with
  | some last =>
    if last.range.till = greatest then
      slices.dropLast ++ [{ last with range := { last.range with till := last.lastKnown } }]
    else slices
  | none => slices

/-- `SparseIdsSliceUpdate` and `MessagesSliceUpdate`: what is fired when a slice changed. -/
structure SliceUpdate (α : Type) where
  messages : Option (Finset α)
  range : Range α
  count : Option ℤ
  deriving DecidableEq

/-- The update about the slice the ids were added to. -/
def Added.update (result : Added α) (noRange : Range α) (count : Option ℤ) : SliceUpdate α where
  messages := result.slice.map Slice.messages
  range := (result.slice.map Slice.range).getD noRange
  count := count

/-- The count after adding: the one given, or the known one and what was added. -/
def countAdded (known count : Option ℤ) (incrementCount : Bool) (added : ℤ) : Option ℤ :=
  match count with
  | some _ => count
  | none => if incrementCount ∧ 0 < added then known.map (· + added) else known

/-! ## What the slices say -/

/-- The slice has exactly the ids of `T` in its range. -/
structure Faithful (T : Finset α) (slice : Slice α) : Prop where
  ordered : slice.range.start ≤ slice.range.till
  mem_iff : ∀ x, x ∈ slice.messages ↔ x ∈ T ∧ slice.range.Has x

/-- Every slice ends before the next starts. -/
def Sorted (slices : List (Slice α)) : Prop :=
  slices.Pairwise fun a b => a.range.till < b.range.start

/-- **What is known of `T`**: the slices are disjoint and sorted, and each is faithful to it. -/
structure Covers (T : Finset α) (slices : List (Slice α)) : Prop where
  sorted : Sorted slices
  faithful : ∀ slice ∈ slices, Faithful T slice

/-- What is added to slices is truthful: of what `T` has in a range, nothing is neither stored nor
added. -/
structure Adds (T : Finset α) (slices : List (Slice α)) (messages : Finset α) (noSkipRange : Range α) :
    Prop where
  subset : ∀ x ∈ messages, x ∈ T ∧ noSkipRange.Has x
  complete : ∀ x ∈ T, noSkipRange.Has x → x ∈ messages ∨ ∃ slice ∈ slices, x ∈ slice.messages

/-- What is known of `T`, its size included where it is known. -/
structure Known (T : Finset α) (slices : List (Slice α)) (count : Option ℤ) : Prop where
  covers : Covers T slices
  count_eq : ∀ n, count = some n → n = T.card

/-- An update about `T` is true. -/
structure SliceUpdate.Truthful (T : Finset α) (update : SliceUpdate α) : Prop where
  messages : ∀ ids, update.messages = some ids → Faithful T ⟨ids, update.range⟩
  count_eq : ∀ n, update.count = some n → n = T.card

variable {T messages : Finset α} {slices lower middle upper rest : List (Slice α)}
  {slice merged s : Slice α} {r range : Range α} {id key : α}

theorem Covers.nil : Covers T [] := ⟨List.Pairwise.nil, by simp⟩

/-- A slice stored and a range meet. -/
def Slice.Meets (slice : Slice α) (r : Range α) : Prop :=
  r.start ≤ slice.range.till ∧ slice.range.start ≤ r.till

/-! ## Where a range falls among the slices -/

/-- **The slices before a range, those that meet it and those after it.** -/
structure Split (slices : List (Slice α)) (r : Range α) (lower middle upper : List (Slice α)) :
    Prop where
  eq : slices = lower ++ (middle ++ upper)
  lower_till : ∀ s ∈ lower, s.range.till < r.start
  middle_meets : ∀ s ∈ middle, s.Meets r
  upper_start : ∀ s ∈ upper, r.till < s.range.start
  lowerBound_eq : lowerBound slices r.start = lower.length
  upperBound_eq : upperBound slices r.till = lower.length + middle.length

/-- Of sorted slices, those from the first on that does not end before an id. -/
theorem dropWhile_till (hsorted : Sorted slices)
    (hordered : ∀ s ∈ slices, s.range.start ≤ s.range.till) :
    ∀ s ∈ slices.dropWhile (fun s => s.range.till < id), id ≤ s.range.till := by
  induction slices with
  | nil => exact fun s hs => nomatch hs
  | cons it slices ih =>
    obtain ⟨hit, hrest⟩ := List.pairwise_cons.mp hsorted
    by_cases h : it.range.till < id
    · rw [List.dropWhile_cons_of_pos (by simpa using h)]
      exact ih hrest fun s hs => hordered s (List.mem_cons_of_mem _ hs)
    · rw [List.dropWhile_cons_of_neg (by simpa using h)]
      intro s hs
      rcases List.mem_cons.mp hs with rfl | hs'
      · exact not_lt.mp h
      · exact (not_lt.mp h).trans ((hit s hs').le.trans (hordered s hs))

/-- Of sorted slices, those from the first on that starts after an id. -/
theorem dropWhile_start (hsorted : Sorted slices)
    (hordered : ∀ s ∈ slices, s.range.start ≤ s.range.till) :
    ∀ s ∈ slices.dropWhile (fun s => s.range.start ≤ id), id < s.range.start := by
  induction slices with
  | nil => exact fun s hs => nomatch hs
  | cons it slices ih =>
    obtain ⟨hit, hrest⟩ := List.pairwise_cons.mp hsorted
    by_cases h : it.range.start ≤ id
    · rw [List.dropWhile_cons_of_pos (by simpa using h)]
      exact ih hrest fun s hs => hordered s (List.mem_cons_of_mem _ hs)
    · rw [List.dropWhile_cons_of_neg (by simpa using h)]
      intro s hs
      rcases List.mem_cons.mp hs with rfl | hs'
      · exact not_le.mp h
      · exact (not_le.mp h).trans_le ((hordered it List.mem_cons_self).trans (hit s hs').le)

theorem exists_split (hsorted : Sorted slices)
    (hordered : ∀ s ∈ slices, s.range.start ≤ s.range.till) (hr : r.start ≤ r.till) :
    ∃ lower middle upper, Split slices r lower middle upper := by
  set p : Slice α → Bool := fun s => s.range.till < r.start with hp
  set q : Slice α → Bool := fun s => s.range.start ≤ r.till with hq
  have hlower : ∀ s ∈ slices.takeWhile p, s.range.till < r.start := fun s hs => by
    simpa [hp] using List.mem_takeWhile_imp hs
  have hupper : slices.takeWhile q = slices.takeWhile p ++ (slices.dropWhile p).takeWhile q := by
    conv_lhs => rw [← List.takeWhile_append_dropWhile (p := p) (l := slices)]
    refine List.takeWhile_append_of_pos fun s hs => ?_
    have hs' := hordered s (List.takeWhile_subset _ hs)
    simpa [hq] using hs'.trans ((hlower s hs).le.trans hr)
  have hsub : (slices.dropWhile p) <:+ slices := List.dropWhile_suffix p
  refine ⟨slices.takeWhile p, (slices.dropWhile p).takeWhile q, (slices.dropWhile p).dropWhile q,
    ?_, hlower, fun s hs => ⟨?_, ?_⟩, ?_, rfl, ?_⟩
  · rw [List.takeWhile_append_dropWhile, List.takeWhile_append_dropWhile]
  · exact dropWhile_till hsorted hordered s (List.takeWhile_subset _ hs)
  · simpa [hq] using List.mem_takeWhile_imp hs
  · exact dropWhile_start (hsorted.sublist hsub.sublist)
      fun s hs => hordered s (hsub.subset hs)
  · rw [upperBound, ← hq, hupper, List.length_append]

/-! ## Uniting -/

/-- `merged` is a range and the slices that meet it, united. -/
structure Hull (messages : Finset α) (r : Range α) (middle : List (Slice α)) (merged : Slice α) :
    Prop where
  mem_iff : ∀ x, x ∈ merged.messages ↔ x ∈ messages ∨ ∃ s ∈ middle, x ∈ s.messages
  start_le : merged.range.start ≤ r.start ∧ ∀ s ∈ middle, merged.range.start ≤ s.range.start
  le_till : r.till ≤ merged.range.till ∧ ∀ s ∈ middle, s.range.till ≤ merged.range.till
  start_eq : merged.range.start = r.start ∨ ∃ s ∈ middle, merged.range.start = s.range.start
  till_eq : merged.range.till = r.till ∨ ∃ s ∈ middle, merged.range.till = s.range.till

theorem Hull.nil : Hull messages r [] ⟨messages, r⟩ where
  mem_iff x := by simp
  start_le := ⟨le_rfl, by simp⟩
  le_till := ⟨le_rfl, by simp⟩
  start_eq := .inl rfl
  till_eq := .inl rfl

theorem merge_eq (hstart : r.start ≤ slice.range.till) (htill : slice.range.start ≤ r.till) :
    slice.merge messages r = .ok ⟨slice.messages ∪ messages,
      ⟨min slice.range.start r.start, max slice.range.till r.till⟩⟩ := by
  rw [Slice.merge, expects, if_pos hstart, ok_bind, expects, if_pos htill, ok_bind]

theorem Hull.of_merge (messages : Finset α) (h : slice.Meets r) : ∃ merged, slice.merge messages r = .ok merged ∧
    Hull messages r [slice] merged := by
  refine ⟨_, merge_eq h.1 h.2, ?_⟩
  constructor
  · intro x
    simp [or_comm]
  · exact ⟨min_le_right _ _, by simp⟩
  · exact ⟨le_max_right _ _, by simp⟩
  · rcases min_choice slice.range.start r.start with h | h
    · exact .inr ⟨slice, by simp, h⟩
    · exact .inl h
  · rcases max_choice slice.range.till r.till with h | h
    · exact .inr ⟨slice, by simp, h⟩
    · exact .inl h

/-- One more slice that meets the range. -/
theorem Hull.merge (h : Hull messages r middle merged) (hs : s.Meets r) :
    ∃ merged', merged.merge s.messages s.range = .ok merged' ∧
      Hull messages r (middle ++ [s]) merged' := by
  refine ⟨_, merge_eq (hs.2.trans h.le_till.1) (h.start_le.1.trans hs.1), ?_⟩
  constructor
  · intro x
    rw [Finset.mem_union, h.mem_iff]
    simp [or_and_right, exists_or, or_assoc]
  · refine ⟨(min_le_left _ _).trans h.start_le.1, fun a ha => ?_⟩
    rcases List.mem_append.mp ha with ha | ha
    · exact (min_le_left _ _).trans (h.start_le.2 a ha)
    · obtain rfl := List.mem_singleton.mp ha
      exact min_le_right _ _
  · refine ⟨h.le_till.1.trans (le_max_left _ _), fun a ha => ?_⟩
    rcases List.mem_append.mp ha with ha | ha
    · exact (h.le_till.2 a ha).trans (le_max_left _ _)
    · obtain rfl := List.mem_singleton.mp ha
      exact le_max_right _ _
  · rcases min_choice merged.range.start s.range.start with hmin | hmin
    · rcases h.start_eq with heq | ⟨a, ha, heq⟩
      · exact .inl (hmin.trans heq)
      · exact .inr ⟨a, List.mem_append_left _ ha, hmin.trans heq⟩
    · exact .inr ⟨s, by simp, hmin⟩
  · rcases max_choice merged.range.till s.range.till with hmax | hmax
    · rcases h.till_eq with heq | ⟨a, ha, heq⟩
      · exact .inl (hmax.trans heq)
      · exact .inr ⟨a, List.mem_append_left _ ha, hmax.trans heq⟩
    · exact .inr ⟨s, by simp, hmax⟩

/-- **Uniting slices that meet the range never asserts.** -/
theorem Hull.foldlM (h : Hull messages r middle merged) (hrest : ∀ s ∈ rest, s.Meets r) :
    ∃ merged', rest.foldlM (fun slice it => slice.merge it.messages it.range) merged
        = (.ok merged' : Except Fault (Slice α)) ∧
      Hull messages r (middle ++ rest) merged' := by
  induction rest generalizing middle merged with
  | nil => exact ⟨merged, rfl, by rwa [List.append_nil]⟩
  | cons s rest ih =>
    obtain ⟨merged', hmerge, h'⟩ := h.merge (hrest s List.mem_cons_self)
    obtain ⟨merged'', hfold, h''⟩ := ih h' fun a ha => hrest a (List.mem_cons_of_mem _ ha)
    refine ⟨merged'', ?_, by rwa [List.append_assoc] at h''⟩
    rw [List.foldlM_cons, hmerge, ok_bind, hfold]

theorem emplaceSlice_eq (hlower : ∀ s ∈ lower, s.range.start < slice.range.start)
    (hupper : ∀ s ∈ upper, slice.range.start < s.range.start) :
    emplaceSlice slice (lower ++ upper) = (lower ++ slice :: upper, slice) := by
  induction lower with
  | nil =>
    cases upper with
    | nil => rfl
    | cons it upper =>
      rw [List.nil_append, emplaceSlice, if_pos (hupper it List.mem_cons_self), List.nil_append]
  | cons it lower ih =>
    have hit := hlower it List.mem_cons_self
    rw [List.cons_append, emplaceSlice, if_neg hit.not_gt, if_pos hit,
      ih fun s hs => hlower s (List.mem_cons_of_mem _ hs), List.cons_append]

/-- **Adding puts the range united with the slices that meet it in their place.** -/
theorem addItems_eq (messages : Finset α) (h : Split slices r lower middle upper) (hr : r.start ≤ r.till)
    (hordered : ∀ s ∈ slices, s.range.start ≤ s.range.till) :
    ∃ merged, Hull messages r middle merged ∧
      addItems slices messages r = .ok ⟨lower ++ merged :: upper, some merged,
        merged.messages.card - ((middle.head?.map fun s => s.messages.card).getD 0 : ℕ)⟩ := by
  obtain ⟨heq, hlower, hmiddle, hupper, hlowerBound, hupperBound⟩ := h
  rw [addItems, hlowerBound, hupperBound]
  cases middle with
  | nil =>
    rw [if_neg (by simp), heq, List.nil_append, emplaceSlice_eq]
    · exact ⟨⟨messages, r⟩, .nil, by simp⟩
    · intro s hs
      exact (hordered s (heq ▸ List.mem_append_left _ hs)).trans_lt (hlower s hs)
    · exact fun s hs => hr.trans_lt (hupper s hs)
  | cons first rest =>
    obtain ⟨merged, hmerge, hull⟩ := Hull.of_merge messages
      (hmiddle first List.mem_cons_self)
    obtain ⟨merged', hfold, hull'⟩ := hull.foldlM fun s hs => hmiddle s (List.mem_cons_of_mem _ hs)
    refine ⟨merged', hull', ?_⟩
    have hassoc : lower ++ (first :: rest ++ upper) = (lower ++ first :: rest) ++ upper := by
      rw [List.append_assoc]
    have hlength : lower.length + (first :: rest).length = (lower ++ first :: rest).length := by
      rw [List.length_append]
    have htake : ((lower ++ (first :: rest ++ upper)).take
        (lower.length + (first :: rest).length)).drop lower.length = first :: rest := by
      rw [hassoc, hlength, List.take_left, List.drop_left]
    have hdrop : (lower ++ (first :: rest ++ upper)).drop
        (lower.length + (first :: rest).length) = upper := by
      rw [hassoc, hlength, List.drop_left]
    rw [if_pos (by simp), heq, uniteAndAdd, htake]
    dsimp only
    rw [hmerge, ok_bind, hfold, ok_bind, hdrop, List.take_left]
    rfl

/-- What the united slice has of `T`, from what the slices have of the ids known before. -/
theorem Hull.faithful {T₀ : Finset α} (hull : Hull messages r middle merged)
    (hsplit : Split slices r lower middle upper) (hr : r.start ≤ r.till) (h : Covers T₀ slices)
    (hsub : T₀ ⊆ T) (hnew : ∀ x ∈ T, x ∈ T₀ ∨ x ∈ messages) (hadds : Adds T slices messages r) :
    Faithful T merged := by
  have hmiddle : ∀ s ∈ middle, Faithful T₀ s := fun s hs =>
    h.faithful s (hsplit.eq ▸ List.mem_append_right _ (List.mem_append_left _ hs))
  -- an id of `T` in the range of a slice that is united is there or is added
  have hinside : ∀ x ∈ T, ∀ s ∈ middle, s.range.Has x → x ∈ merged.messages := by
    intro x hx s hs hsx
    rw [hull.mem_iff]
    rcases hnew x hx with hx | hx
    · exact .inr ⟨s, hs, ((hmiddle s hs).mem_iff x).mpr ⟨hx, hsx⟩⟩
    · exact .inl hx
  refine ⟨hull.start_le.1.trans (hr.trans hull.le_till.1), fun x => ⟨fun hx => ?_, ?_⟩⟩
  · rcases (hull.mem_iff x).mp hx with hx | ⟨s, hs, hx⟩
    · obtain ⟨hx, hstart, htill⟩ := hadds.subset x hx
      exact ⟨hx, hull.start_le.1.trans hstart, htill.trans hull.le_till.1⟩
    · obtain ⟨hx, hstart, htill⟩ := ((hmiddle s hs).mem_iff x).mp hx
      exact ⟨hsub hx, (hull.start_le.2 s hs).trans hstart, htill.trans (hull.le_till.2 s hs)⟩
  · rintro ⟨hx, hstart, htill⟩
    rcases lt_or_ge x r.start with hlow | hlow
    · rcases hull.start_eq with heq | ⟨s, hs, heq⟩
      · exact absurd (heq ▸ hstart) hlow.not_ge
      · exact hinside x hx s hs ⟨heq ▸ hstart, hlow.le.trans (hsplit.middle_meets s hs).1⟩
    rcases lt_or_ge r.till x with hhigh | hhigh
    · rcases hull.till_eq with heq | ⟨s, hs, heq⟩
      · exact absurd (heq ▸ htill) hhigh.not_ge
      · exact hinside x hx s hs ⟨(hsplit.middle_meets s hs).2.trans hhigh.le, heq ▸ htill⟩
    · rcases hadds.complete x hx ⟨hlow, hhigh⟩ with hmem | ⟨s, hs, hmem⟩
      · exact (hull.mem_iff x).mpr (.inl hmem)
      · obtain ⟨-, hsstart, hstill⟩ := ((h.faithful s hs).mem_iff x).mp hmem
        rw [hsplit.eq] at hs
        rcases List.mem_append.mp hs with hs | hs
        · exact absurd hlow (hstill.trans_lt (hsplit.lower_till s hs)).not_ge
        rcases List.mem_append.mp hs with hs | hs
        · exact (hull.mem_iff x).mpr (.inr ⟨s, hs, hmem⟩)
        · exact absurd hhigh ((hsplit.upper_start s hs).trans_le hsstart).not_ge

/-- A slice that does not meet the range keeps what it has. -/
theorem Faithful.of_disjoint {T₀ : Finset α} (h : Faithful T₀ s) (hsub : T₀ ⊆ T)
    (hnew : ∀ x ∈ T, x ∈ T₀ ∨ x ∈ messages) (hmessages : ∀ x ∈ messages, ¬ s.range.Has x) :
    Faithful T s := by
  refine ⟨h.ordered, fun x => ?_⟩
  rw [h.mem_iff]
  constructor
  · exact fun ⟨hx, hrange⟩ => ⟨hsub hx, hrange⟩
  · rintro ⟨hx, hrange⟩
    rcases hnew x hx with hx | hx
    · exact ⟨hx, hrange⟩
    · exact absurd hrange (hmessages x hx)

/-- **Adding what is truthful keeps the slices true**, also where some of what is added is new. -/
theorem Covers.addItems {T₀ : Finset α} (h : Covers T₀ slices) (hr : r.start ≤ r.till)
    (hsub : T₀ ⊆ T) (hnew : ∀ x ∈ T, x ∈ T₀ ∨ x ∈ messages) (hadds : Adds T slices messages r) :
    ∃ result, addItems slices messages r = .ok result ∧ Covers T result.slices ∧
      ∀ slice, result.slice = some slice → slice ∈ result.slices := by
  have hordered : ∀ s ∈ slices, s.range.start ≤ s.range.till := fun s hs => (h.faithful s hs).ordered
  obtain ⟨lower, middle, upper, hsplit⟩ := exists_split h.sorted hordered hr
  obtain ⟨merged, hull, hadd⟩ := addItems_eq messages hsplit hr hordered
  refine ⟨_, hadd, ⟨?_, ?_⟩, fun slice hslice => by simp [← Option.some.inj hslice]⟩
  · have hsorted := h.sorted
    rw [hsplit.eq] at hsorted
    obtain ⟨hlower, hrest, hcross⟩ := List.pairwise_append.mp hsorted
    obtain ⟨-, hupper, hcross'⟩ := List.pairwise_append.mp hrest
    refine List.pairwise_append.mpr ⟨hlower, List.pairwise_cons.mpr ⟨fun b hb => ?_, hupper⟩, ?_⟩
    · rcases hull.till_eq with heq | ⟨s, hs, heq⟩
      · exact heq ▸ hsplit.upper_start b hb
      · exact heq ▸ hcross' s hs b hb
    · intro a ha b hb
      rcases List.mem_cons.mp hb with rfl | hb
      · rcases hull.start_eq with heq | ⟨s, hs, heq⟩
        · exact heq ▸ hsplit.lower_till a ha
        · exact heq ▸ hcross a ha s (List.mem_append_left _ hs)
      · exact hcross a ha b (List.mem_append_right _ hb)
  · intro s hs
    rcases List.mem_append.mp hs with hs | hs
    · refine (h.faithful s (hsplit.eq ▸ List.mem_append_left _ hs)).of_disjoint hsub hnew
        fun x hx hrange => ?_
      exact absurd (hadds.subset x hx).2.1 (hrange.2.trans_lt (hsplit.lower_till s hs)).not_ge
    rcases List.mem_cons.mp hs with rfl | hs
    · exact hull.faithful hsplit hr h hsub hnew hadds
    · refine (h.faithful s (hsplit.eq ▸ List.mem_append_right _ (List.mem_append_right _ hs))).of_disjoint
        hsub hnew fun x hx hrange => ?_
      exact absurd (hadds.subset x hx).2.2 ((hsplit.upper_start s hs).trans_le hrange.1).not_ge

/-- An id added alone counts as one where it is new and as none where it is stored, if the slices
that start inside the range have none. -/
theorem Covers.addItems_added {T₀ : Finset α} {result : Added α} (h : Covers T₀ slices)
    (hr : r.start ≤ r.till) (hid : r.Has id) (hstored : id ∈ T₀ → ∃ s ∈ slices, id ∈ s.messages)
    (hinside : ∀ s ∈ slices, r.start < s.range.start → s.range.start ≤ r.till → s.messages = ∅)
    (hadd : Storage.addItems slices {id} r = .ok result) :
    result.added = if id ∈ T₀ then 0 else 1 := by
  have hordered : ∀ s ∈ slices, s.range.start ≤ s.range.till := fun s hs => (h.faithful s hs).ordered
  obtain ⟨lower, middle, upper, hsplit⟩ := exists_split h.sorted hordered hr
  obtain ⟨merged, hull, hadd'⟩ := addItems_eq {id} hsplit hr hordered
  obtain rfl := Except.ok.inj (hadd.symm.trans hadd')
  have hmiddle : ∀ s ∈ middle, s ∈ slices := fun s hs =>
    hsplit.eq ▸ List.mem_append_right _ (List.mem_append_left _ hs)
  have hstored' : id ∈ T₀ → ∃ s ∈ middle, id ∈ s.messages := by
    intro hmem
    obtain ⟨s, hs, hids⟩ := hstored hmem
    obtain ⟨-, hstart, htill⟩ := ((h.faithful s hs).mem_iff id).mp hids
    rw [hsplit.eq] at hs
    rcases List.mem_append.mp hs with hs | hs
    · exact absurd hid.1 (htill.trans_lt (hsplit.lower_till s hs)).not_ge
    rcases List.mem_append.mp hs with hs | hs
    · exact ⟨s, hs, hids⟩
    · exact absurd hid.2 ((hsplit.upper_start s hs).trans_le hstart).not_ge
  show (merged.messages.card : ℤ) - ((middle.head?.map fun s => s.messages.card).getD 0 : ℕ) = _
  cases middle with
  | nil =>
    have hmessages : merged.messages = {id} := by
      ext x
      simp [hull.mem_iff]
    rw [if_neg fun hmem => by simpa using hstored' hmem, hmessages]
    simp
  | cons first rest =>
    have hrest : ∀ s ∈ rest, s.messages = ∅ := by
      intro s hs
      have hsorted := h.sorted
      rw [hsplit.eq, List.cons_append] at hsorted
      have hfirst := (List.pairwise_cons.mp (List.pairwise_append.mp hsorted).2.1).1 s
        (List.mem_append_left _ hs)
      refine hinside s (hmiddle s (List.mem_cons_of_mem _ hs)) ?_
        (hsplit.middle_meets s (List.mem_cons_of_mem _ hs)).2
      exact (hsplit.middle_meets first List.mem_cons_self).1.trans_lt hfirst
    have hmessages : merged.messages = insert id first.messages := by
      ext x
      rw [hull.mem_iff, Finset.mem_insert, Finset.mem_singleton]
      constructor
      · rintro (hx | ⟨s, hs, hx⟩)
        · exact .inl hx
        rcases List.mem_cons.mp hs with rfl | hs
        · exact .inr hx
        · rw [hrest s hs] at hx
          exact absurd hx (Finset.notMem_empty x)
      · rintro (hx | hx)
        · exact .inl hx
        · exact .inr ⟨first, List.mem_cons_self, hx⟩
    rw [hmessages]
    split_ifs with hmem
    · obtain ⟨s, hs, hids⟩ := hstored' hmem
      rcases List.mem_cons.mp hs with rfl | hs
      · rw [Finset.insert_eq_of_mem hids]
        simp
      · rw [hrest s hs] at hids
        exact absurd hids (Finset.notMem_empty id)
    · have hfirst : id ∉ first.messages := fun hids =>
        hmem (((h.faithful first (hmiddle first List.mem_cons_self)).mem_iff id).mp hids).1
      rw [Finset.card_insert_of_notMem hfirst]
      simp

/-- **Counting what was added counts the new id.** -/
theorem Covers.card_insert_added {T₀ : Finset α} {result : Added α} (h : Covers T₀ slices)
    (hr : r.start ≤ r.till) (hid : r.Has id) (hstored : id ∈ T₀ → ∃ s ∈ slices, id ∈ s.messages)
    (hinside : ∀ s ∈ slices, r.start < s.range.start → s.range.start ≤ r.till → s.messages = ∅)
    (hadd : Storage.addItems slices {id} r = .ok result) :
    ((insert id T₀).card : ℤ) = T₀.card + if 0 < result.added then result.added else 0 := by
  rw [h.addItems_added hr hid hstored hinside hadd]
  by_cases hmem : id ∈ T₀
  · rw [if_pos hmem, Finset.insert_eq_of_mem hmem, if_neg (lt_irrefl 0), add_zero]
  · rw [if_neg hmem, Finset.card_insert_of_notMem hmem, if_pos one_pos]
    omega

/-! ## Removing -/

theorem sliceOf_cons (it : Slice α) (slices : List (Slice α)) :
    sliceOf (it :: slices) id = if it.range.till < id then sliceOf slices id
      else if it.range.start ≤ id then some it else none := by
  rcases lt_or_ge it.range.till id with h | h
  · simp [sliceOf, lowerBound, h]
  · simp [sliceOf, lowerBound, h.not_gt, Option.filter]

theorem removeItem_cons (it : Slice α) (slices : List (Slice α)) :
    removeItem (it :: slices) id = if it.range.till < id then it :: removeItem slices id
      else if it.range.start ≤ id then { it with messages := it.messages.erase id } :: slices
      else it :: slices := by
  rw [removeItem, sliceOf_cons]
  rcases lt_or_ge it.range.till id with h | h
  · rw [if_pos h, if_pos h, removeItem]
    cases sliceOf slices id with
    | none => rfl
    | some slice => simp [lowerBound, h]
  · rw [if_neg h.not_gt, if_neg h.not_gt]
    split_ifs with hstart
    · simp [lowerBound, h.not_gt]
    · rfl

/-- **The slice found for an id has it in its range.** -/
theorem sliceOf_eq_some (h : sliceOf slices id = some slice) :
    slice ∈ slices ∧ slice.range.Has id := by
  induction slices with
  | nil => exact nomatch h
  | cons it slices ih =>
    rw [sliceOf_cons] at h
    split_ifs at h with htill hstart
    · exact ⟨List.mem_cons_of_mem _ (ih h).1, (ih h).2⟩
    · obtain rfl := Option.some.inj h
      exact ⟨List.mem_cons_self, hstart, not_lt.mp htill⟩

/-- **Removing an id takes it out of every slice**: only the slice found can have it. -/
theorem removeItem_eq_map (h : Covers T slices) :
    removeItem slices id = slices.map fun s => { s with messages := s.messages.erase id } := by
  have hother : ∀ s, Faithful T s → ¬ s.range.Has id →
      { s with messages := s.messages.erase id } = s := by
    intro s hs hid
    rw [Finset.erase_eq_of_notMem fun hmem => hid ((hs.mem_iff id).mp hmem).2]
  induction slices with
  | nil => rfl
  | cons it slices ih =>
    obtain ⟨hit, hrest⟩ := List.pairwise_cons.mp h.sorted
    have hfaithful := h.faithful it List.mem_cons_self
    have hcovers : Covers T slices := ⟨hrest, fun s hs => h.faithful s (List.mem_cons_of_mem _ hs)⟩
    have hlater : id ≤ it.range.till → slices.map
        (fun s => { s with messages := s.messages.erase id }) = slices := by
      intro htill
      refine List.map_congr_left (fun s hs => ?_) |>.trans (List.map_id _)
      exact hother s (hcovers.faithful s hs) fun hid => (htill.trans_lt (hit s hs)).not_ge hid.1
    rw [removeItem_cons, List.map_cons]
    split_ifs with htill hstart
    · rw [ih hcovers, hother it hfaithful fun hid => htill.not_ge hid.2]
    · rw [hlater (not_lt.mp htill)]
    · rw [hlater (not_lt.mp htill), hother it hfaithful fun hid => hstart hid.1]

/-- **The slices without an id are what is known of the set without it.** -/
theorem Covers.removeItem (h : Covers T slices) (id : α) :
    Covers (T.erase id) (removeItem slices id) := by
  rw [removeItem_eq_map h]
  refine ⟨List.pairwise_map.mpr h.sorted, fun s hs => ?_⟩
  obtain ⟨a, ha, rfl⟩ := List.mem_map.mp hs
  refine ⟨(h.faithful a ha).ordered, fun x => ?_⟩
  show x ∈ a.messages.erase id ↔ x ∈ T.erase id ∧ a.range.Has x
  rw [Finset.mem_erase, Finset.mem_erase, (h.faithful a ha).mem_iff, and_assoc]

/-! ## Invalidating the end -/

theorem lastKnown_le (h : Faithful T slice) : slice.lastKnown ≤ slice.range.till := by
  unfold Slice.lastKnown
  split_ifs with hne
  · exact ((h.mem_iff _).mp (slice.messages.max'_mem hne)).2.2
  · exact h.ordered

theorem le_lastKnown (h : Faithful T slice) : slice.range.start ≤ slice.lastKnown := by
  unfold Slice.lastKnown
  split_ifs with hne
  · exact ((h.mem_iff _).mp (slice.messages.max'_mem hne)).2.1
  · exact le_rfl

/-- **A slice cut after its last id is faithful still.** -/
theorem Faithful.lastKnown (h : Faithful T slice) :
    Faithful T { slice with range := { slice.range with till := slice.lastKnown } } := by
  refine ⟨(le_lastKnown h : slice.range.start ≤ slice.lastKnown), fun x => ⟨fun hx => ?_, ?_⟩⟩
  · obtain ⟨hT, hstart, -⟩ := (h.mem_iff x).mp hx
    refine ⟨hT, hstart, ?_⟩
    show x ≤ slice.lastKnown
    rw [Slice.lastKnown, dif_pos ⟨x, hx⟩]
    exact slice.messages.le_max' x hx
  · rintro ⟨hT, hstart, htill⟩
    exact (h.mem_iff x).mpr ⟨hT, hstart, htill.trans (lastKnown_le h)⟩

theorem Covers.invalidateBottomSlice (h : Covers T slices) (greatest : α) :
    Covers T (invalidateBottomSlice greatest slices) := by
  unfold Storage.invalidateBottomSlice
  cases hlast : slices.getLast? with
  | none => exact h
  | some last =>
    obtain ⟨initial, rfl⟩ := List.getLast?_eq_some_iff.mp hlast
    dsimp only
    split_ifs with htill
    · rw [List.dropLast_concat]
      obtain ⟨hinitial, -, hcross⟩ := List.pairwise_append.mp h.sorted
      refine ⟨List.pairwise_append.mpr ⟨hinitial, List.pairwise_singleton _ _, ?_⟩, ?_⟩
      · intro a ha b hb
        obtain rfl := List.mem_singleton.mp hb
        exact hcross a ha last (List.mem_singleton_self _)
      · intro s hs
        rcases List.mem_append.mp hs with hs | hs
        · exact h.faithful s (List.mem_append_left _ hs)
        · obtain rfl := List.mem_singleton.mp hs
          exact (h.faithful last (List.mem_append_right _ (List.mem_singleton_self _))).lastKnown
    · exact h

/-! ## The count and the update -/

/-- The ids a set has in a range are a faithful slice of it. -/
theorem Faithful.restrict (T : Finset α) (hr : r.start ≤ r.till) :
    Faithful T ⟨T.filter fun x => r.Has x, r⟩ :=
  ⟨hr, fun _ => Finset.mem_filter⟩

/-- Adding the ids a set has in a range is truthful. -/
theorem Adds.restrict (T : Finset α) (slices : List (Slice α)) (r : Range α) :
    Adds T slices (T.filter fun x => r.Has x) r where
  subset _ hx := Finset.mem_filter.mp hx
  complete _ hx hr := .inl (Finset.mem_filter.mpr ⟨hx, hr⟩)

omit [LinearOrder α] in
/-- **The count stays exact**, where what is counted as added is what is new. -/
theorem countAdded_eq {T₀ : Finset α} {known count : Option ℤ} {incrementCount : Bool} {added : ℤ}
    (hknown : ∀ n, known = some n → n = T₀.card) (hcount : ∀ n, count = some n → n = T.card)
    (hadded : (T.card : ℤ) = T₀.card + if incrementCount ∧ 0 < added then added else 0) :
    ∀ n, countAdded known count incrementCount added = some n → n = T.card := by
  intro n hn
  cases count with
  | some total => exact hcount n hn
  | none =>
    rw [countAdded] at hn
    split_ifs at hn hadded with hincrement
    · obtain ⟨m, hm, rfl⟩ := Option.map_eq_some_iff.mp hn
      rw [hknown m hm, hadded]
    · rw [hknown n hn, hadded, add_zero]

/-- **The update about a slice of what is known is true.** -/
theorem Added.update_truthful {result : Added α} {count : Option ℤ} (h : Covers T result.slices)
    (hslice : ∀ slice, result.slice = some slice → slice ∈ result.slices) (noRange : Range α)
    (hcount : ∀ n, count = some n → n = T.card) : (result.update noRange count).Truthful T := by
  refine ⟨fun ids hids => ?_, hcount⟩
  obtain ⟨slice, hslice', rfl⟩ := Option.map_eq_some_iff.mp hids
  have hfaithful := h.faithful slice (hslice slice hslice')
  rw [Added.update, hslice']
  exact hfaithful

end Yunogram.Storage
