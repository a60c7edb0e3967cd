import Yunogram.Storage.Slices

/-!
# Storage/SliceQueries — what a query answered from a slice says of the whole set

A query takes ids around a key from the one slice that has the key in its range, and says how many
ids were left out where the slice reaches the least or the greatest id.  `SliceResult.Exact` is what
such a result promises about the set; `Faithful.queryFromSlice` is that it keeps it.
-/

namespace Yunogram.Storage

open Machinery

variable {α : Type} [LinearOrder α]

/-! ## Queries -/

/-- `SparseIdsListQuery` and `MessagesQuery`. -/
structure SliceQuery (α : Type) where
  aroundId : α
  limitBefore : ℕ
  limitAfter : ℕ

/-- `SparseIdsListResult` and `MessagesResult`. -/
structure SliceResult (α : Type) where
  count : Option ℤ
  skippedBefore : Option ℤ
  skippedAfter : Option ℤ
  messageIds : Finset α
  deriving DecidableEq

/-- A result without anything. -/
def SliceResult.empty : SliceResult α := ⟨none, none, none, ∅⟩

/-- A result completed from the count, where the count and one of the skipped numbers are known. -/
def SliceResult.withCount (result : SliceResult α) : Option ℤ → SliceResult α
  | none => result
  | some count =>
    match result.skippedBefore, result.skippedAfter with
    | none, some skippedAfter =>
      { result with
        count := some count
        skippedBefore := some (count - skippedAfter - result.messageIds.card) }
    | some skippedBefore, none =>
      { result with
        count := some count
        skippedAfter := some (count - skippedBefore - result.messageIds.card) }
    | _, _ => { result with count := some count }

/-- `queryFromSlice`, between the least and the greatest id. -/
def queryFromSlice (least greatest : α) (count : Option ℤ) (query : SliceQuery α)
    (slice : Slice α) : SliceResult α :=
  let haveBefore := below slice.messages query.aroundId
  let haveEqualOrAfter := slice.messages.card - haveBefore
  let before := min haveBefore query.limitBefore
  let equalOrAfter := min haveEqualOrAfter (query.limitAfter + 1)
  SliceResult.withCount
    ⟨none, if slice.range.start = least then some ((haveBefore - before : ℕ) : ℤ) else none,
      if slice.range.till = greatest then some ((haveEqualOrAfter - equalOrAfter : ℕ) : ℤ) else none,
      indexed slice.messages (haveBefore - before) (haveBefore + equalOrAfter)⟩ count

variable {T : Finset α} {slice : Slice α} {key : α}

/-! ## What a query says -/

/-- What of `T` under `key` a result leaves out. -/
def leftBefore (T ids : Finset α) (key : α) : ℕ := (T.filter fun x => x < key ∧ x ∉ ids).card

/-- What of `T` from `key` on a result leaves out. -/
def leftAfter (T ids : Finset α) (key : α) : ℕ := (T.filter fun x => key ≤ x ∧ x ∉ ids).card

theorem leftBefore_add_leftAfter {ids : Finset α} (key : α) (h : ids ⊆ T) :
    leftBefore T ids key + ids.card + leftAfter T ids key = T.card := by
  have hbefore : Disjoint (T.filter fun x => x < key ∧ x ∉ ids) ids :=
    Finset.disjoint_left.mpr fun x hx hxs => (Finset.mem_filter.mp hx).2.2 hxs
  have hafter : Disjoint ((T.filter fun x => x < key ∧ x ∉ ids) ∪ ids)
      (T.filter fun x => key ≤ x ∧ x ∉ ids) := by
    refine Finset.disjoint_left.mpr fun x hx hxa => ?_
    obtain ⟨-, hkey, hxs⟩ := Finset.mem_filter.mp hxa
    rcases Finset.mem_union.mp hx with hx | hx
    · exact (Finset.mem_filter.mp hx).2.1.not_ge hkey
    · exact hxs hx
  rw [leftBefore, leftAfter, ← Finset.card_union_of_disjoint hbefore,
    ← Finset.card_union_of_disjoint hafter]
  congr 1
  ext x
  simp only [Finset.mem_union, Finset.mem_filter]
  constructor
  · rintro ((⟨hx, -⟩ | hx) | ⟨hx, -⟩)
    · exact hx
    · exact h hx
    · exact hx
  · intro hx
    by_cases hxs : x ∈ ids
    · exact .inl (.inr hxs)
    · rcases lt_or_ge x key with hkey | hkey
      · exact .inl (.inl ⟨hx, hkey, hxs⟩)
      · exact .inr ⟨hx, hkey, hxs⟩

/-- **A result tells the truth about `T`**: its ids are a block of `T` around the key, no more of
them than asked for, and what it says of the rest of `T` is exact. -/
structure SliceResult.Exact (T : Finset α) (query : SliceQuery α) (result : SliceResult α) : Prop where
  block : IsBlock T result.messageIds
  reaches_before : ∀ a ∈ result.messageIds, ∀ x ∈ T, a ≤ x → x < query.aroundId →
    x ∈ result.messageIds
  reaches_after : ∀ a ∈ result.messageIds, ∀ x ∈ T, query.aroundId ≤ x → x ≤ a →
    x ∈ result.messageIds
  few_before : below result.messageIds query.aroundId ≤ query.limitBefore
  few_after : (result.messageIds.filter (query.aroundId ≤ ·)).card ≤ query.limitAfter + 1
  count : ∀ n, result.count = some n → n = T.card
  before_eq : ∀ n, result.skippedBefore = some n → result.messageIds.Nonempty →
    n = before T result.messageIds
  after_eq : ∀ n, result.skippedAfter = some n → result.messageIds.Nonempty →
    n = after T result.messageIds
  before_empty : ∀ n, result.skippedBefore = some n → result.messageIds = ∅ →
    n = below T query.aroundId
  after_empty : ∀ n, result.skippedAfter = some n → result.messageIds = ∅ →
    n = (T.filter (query.aroundId ≤ ·)).card

/-- **What is left out on the two sides of the key, where the ids reach it, is what `T` has before
and after them.** -/
theorem SliceResult.Exact.of_left {query : SliceQuery α} {result : SliceResult α}
    (block : IsBlock T result.messageIds)
    (reaches_before : ∀ a ∈ result.messageIds, ∀ x ∈ T, a ≤ x → x < query.aroundId →
      x ∈ result.messageIds)
    (reaches_after : ∀ a ∈ result.messageIds, ∀ x ∈ T, query.aroundId ≤ x → x ≤ a →
      x ∈ result.messageIds)
    (few_before : below result.messageIds query.aroundId ≤ query.limitBefore)
    (few_after : (result.messageIds.filter (query.aroundId ≤ ·)).card ≤ query.limitAfter + 1)
    (count : ∀ n, result.count = some n → n = T.card)
    (hbefore : ∀ n, result.skippedBefore = some n →
      n = leftBefore T result.messageIds query.aroundId)
    (hafter : ∀ n, result.skippedAfter = some n → n = leftAfter T result.messageIds query.aroundId) :
    result.Exact T query where
  block := block
  reaches_before := reaches_before
  reaches_after := reaches_after
  few_before := few_before
  few_after := few_after
  count := count
  before_eq n hn hne := by
    obtain ⟨b, hb⟩ := hne
    rw [hbefore n hn, leftBefore, before]
    congr 2
    refine Finset.filter_congr fun x hx => ⟨fun h a ha => ?_, fun hlt => ?_⟩
    · obtain ⟨hkey, hxs⟩ := h
      exact not_le.mp fun hax => hxs (reaches_before a ha x hx hax hkey)
    · refine ⟨not_le.mp fun hkey => ?_, fun hxs => lt_irrefl x (hlt x hxs)⟩
      exact lt_irrefl x (hlt x (reaches_after b hb x hx hkey (hlt b hb).le))
  after_eq n hn hne := by
    obtain ⟨b, hb⟩ := hne
    rw [hafter n hn, leftAfter, after]
    congr 2
    refine Finset.filter_congr fun x hx => ⟨fun h a ha => ?_, fun hlt => ?_⟩
    · obtain ⟨hkey, hxs⟩ := h
      exact not_le.mp fun hxa => hxs (reaches_after a ha x hx hkey hxa)
    · refine ⟨not_lt.mp fun hkey => ?_, fun hxs => lt_irrefl x (hlt x hxs)⟩
      exact lt_irrefl x (hlt x (reaches_before b hb x hx (hlt b hb).le hkey))
  before_empty n hn hempty := by
    rw [hbefore n hn, hempty, leftBefore, below]
    simp
  after_empty n hn hempty := by
    rw [hafter n hn, hempty, leftAfter]
    simp

variable {least greatest : α} {count : Option ℤ} {query : SliceQuery α}

/-- What is stored of a slice is a block of the set. -/
theorem Faithful.isBlock (h : Faithful T slice) : IsBlock T slice.messages where
  subset x hx := ((h.mem_iff x).mp hx).1
  between a ha b hb x hx hax hxb := (h.mem_iff x).mpr
    ⟨hx, ((h.mem_iff a).mp ha).2.1.trans hax, hxb.trans ((h.mem_iff b).mp hb).2.2⟩

section

variable {i j : ℕ}

/-- **A range of positions around where the key stands leaves out those under it…** -/
theorem Faithful.leftBefore_indexed (h : Faithful T slice) (hkey : slice.range.Has key)
    (hleast : ∀ x ∈ T, slice.range.start ≤ x) (hi : i ≤ below slice.messages key)
    (hj : below slice.messages key ≤ j) : leftBefore T (indexed slice.messages i j) key = i := by
  have hfilter : (T.filter fun x => x < key ∧ x ∉ indexed slice.messages i j)
      = indexed slice.messages 0 i := by
    ext x
    constructor
    · intro hx
      obtain ⟨hx, hlt, hout⟩ := Finset.mem_filter.mp hx
      have hxm := (h.mem_iff x).mpr ⟨hx, hleast x hx, hlt.le.trans hkey.2⟩
      have hpos := (below_lt_below_iff hxm).mpr hlt
      refine mem_indexed.mpr ⟨hxm, Nat.zero_le _, not_le.mp fun hlow => hout ?_⟩
      exact mem_indexed.mpr ⟨hxm, hlow, hpos.trans_le hj⟩
    · intro hx
      obtain ⟨hx, -, hlow⟩ := mem_indexed.mp hx
      refine Finset.mem_filter.mpr ⟨((h.mem_iff x).mp hx).1, ?_, fun hin => ?_⟩
      · exact (below_lt_below_iff hx).mp (hlow.trans_le hi)
      · exact (mem_indexed.mp hin).2.1.not_gt hlow
  rw [leftBefore, hfilter, card_indexed (hi.trans below_le_card), Nat.sub_zero]

/-- **…and those over it.** -/
theorem Faithful.leftAfter_indexed (h : Faithful T slice) (hkey : slice.range.Has key)
    (hgreatest : ∀ x ∈ T, x ≤ slice.range.till) (hi : i ≤ below slice.messages key)
    (hj : below slice.messages key ≤ j) :
    leftAfter T (indexed slice.messages i j) key = slice.messages.card - j := by
  have hfilter : (T.filter fun x => key ≤ x ∧ x ∉ indexed slice.messages i j)
      = indexed slice.messages j slice.messages.card := by
    ext x
    constructor
    · intro hx
      obtain ⟨hx, hge, hout⟩ := Finset.mem_filter.mp hx
      have hxm := (h.mem_iff x).mpr ⟨hx, hkey.1.trans hge, hgreatest x hx⟩
      refine mem_indexed.mpr ⟨hxm, not_lt.mp fun hhigh => hout ?_, below_lt_card hxm⟩
      exact mem_indexed.mpr ⟨hxm, hi.trans (below_mono hge), hhigh⟩
    · intro hx
      obtain ⟨hx, hhigh, -⟩ := mem_indexed.mp hx
      refine Finset.mem_filter.mpr ⟨((h.mem_iff x).mp hx).1, not_lt.mp fun hlt => ?_, fun hin => ?_⟩
      · exact ((below_lt_below_iff hx).mpr hlt).not_ge (hj.trans hhigh)
      · exact (mem_indexed.mp hin).2.2.not_ge hhigh
  rw [leftAfter, hfilter, card_indexed le_rfl]

/-- How many ids of a range of positions are not under the key. -/
theorem card_filter_indexed {messages : Finset α} (hi : i ≤ below messages key)
    (hj : below messages key ≤ j) (hcard : j ≤ messages.card) :
    ((indexed messages i j).filter (key ≤ ·)).card = j - below messages key := by
  have htotal := Finset.card_filter_add_card_filter_not (s := indexed messages i j) (· < key)
  simp only [not_lt] at htotal
  have hbelow := below_indexed (s := messages) (i := i) (j := j) (k := key) hcard
  rw [card_indexed hcard] at htotal
  rw [below] at hbelow
  omega

/-- The ids at a range of positions around where the key stands reach it. -/
theorem Faithful.reaches_indexed (h : Faithful T slice) (hkey : slice.range.Has key)
    (hi : i ≤ below slice.messages key) (hj : below slice.messages key ≤ j) :
    (∀ a ∈ indexed slice.messages i j, ∀ x ∈ T, a ≤ x → x < key →
        x ∈ indexed slice.messages i j) ∧
      ∀ a ∈ indexed slice.messages i j, ∀ x ∈ T, key ≤ x → x ≤ a →
        x ∈ indexed slice.messages i j := by
  constructor
  · intro a ha x hx hax hlt
    obtain ⟨ham, hai, -⟩ := mem_indexed.mp ha
    have hxm := (h.mem_iff x).mpr ⟨hx, ((h.mem_iff a).mp ham).2.1.trans hax, hlt.le.trans hkey.2⟩
    exact mem_indexed.mpr ⟨hxm, hai.trans (below_mono hax), (below_lt_below hxm hlt).trans_le hj⟩
  · intro a ha x hx hge hxa
    obtain ⟨ham, -, haj⟩ := mem_indexed.mp ha
    have hxm := (h.mem_iff x).mpr ⟨hx, hkey.1.trans hge, hxa.trans ((h.mem_iff a).mp ham).2.2⟩
    exact mem_indexed.mpr ⟨hxm, hi.trans (below_mono hge), (below_mono hxa).trans_lt haj⟩

end

/-- What a result says of what it leaves out is exact. -/
structure SliceResult.Left (T : Finset α) (key : α) (result : SliceResult α) : Prop where
  count : ∀ n, result.count = some n → n = T.card
  before : ∀ n, result.skippedBefore = some n → n = leftBefore T result.messageIds key
  after : ∀ n, result.skippedAfter = some n → n = leftAfter T result.messageIds key

omit [LinearOrder α] in
@[simp] theorem SliceResult.withCount_messageIds (result : SliceResult α) (count : Option ℤ) :
    (result.withCount count).messageIds = result.messageIds := by
  unfold SliceResult.withCount
  split
  · rfl
  · split <;> rfl

/-- **Completing a result from an exact count keeps it exact.** -/
theorem SliceResult.Left.withCount {result : SliceResult α} (h : result.Left T key)
    (hsub : result.messageIds ⊆ T) (hcount : ∀ n, count = some n → n = T.card) :
    (result.withCount count).Left T key := by
  have htotal := leftBefore_add_leftAfter key hsub
  obtain ⟨known, skippedBefore, skippedAfter, ids⟩ := result
  obtain ⟨hknown, hbefore, hafter⟩ := h
  dsimp only at hbefore hafter htotal
  cases count with
  | none => exact ⟨hknown, hbefore, hafter⟩
  | some total =>
    obtain rfl := hcount total rfl
    have hsome : ∀ n, some (T.card : ℤ) = some n → n = T.card := fun n hn => (Option.some.inj hn).symm
    cases skippedBefore with
    | none =>
      cases skippedAfter with
      | none => exact ⟨hsome, hbefore, hafter⟩
      | some a =>
        refine ⟨hsome, fun n hn => ?_, hafter⟩
        have ha := hafter a rfl
        obtain rfl := Option.some.inj hn
        show (T.card : ℤ) - a - ids.card = leftBefore T ids key
        omega
    | some b =>
      cases skippedAfter with
      | none =>
        refine ⟨hsome, hbefore, fun n hn => ?_⟩
        have hb := hbefore b rfl
        obtain rfl := Option.some.inj hn
        show (T.card : ℤ) - b - ids.card = leftAfter T ids key
        omega
      | some a => exact ⟨hsome, hbefore, hafter⟩

/-- **A query answered from a faithful slice is exact**, where the set lies between the least and
the greatest id. -/
theorem Faithful.queryFromSlice (h : Faithful T slice) (hkey : slice.range.Has query.aroundId)
    (hbounds : ∀ x ∈ T, least ≤ x ∧ x ≤ greatest)
    (hcount : ∀ n, count = some n → n = T.card) :
    (queryFromSlice least greatest count query slice).Exact T query := by
  have hhave : below slice.messages query.aroundId ≤ slice.messages.card := below_le_card
  unfold Storage.queryFromSlice
  dsimp only
  set haveBefore := below slice.messages query.aroundId with hhaveBefore
  set lower := haveBefore - min haveBefore query.limitBefore with hlower
  set upper := haveBefore + min (slice.messages.card - haveBefore) (query.limitAfter + 1) with hupper
  have hi : lower ≤ haveBefore := Nat.sub_le _ _
  have hj : haveBefore ≤ upper := Nat.le_add_right _ _
  have hcard : upper ≤ slice.messages.card := by omega
  have hsub : indexed slice.messages lower upper ⊆ T := indexed_subset.trans h.isBlock.subset
  set result : SliceResult α := ⟨none,
    if slice.range.start = least then some (lower : ℤ) else none,
    if slice.range.till = greatest then
      some ((slice.messages.card - haveBefore
        - min (slice.messages.card - haveBefore) (query.limitAfter + 1) : ℕ) : ℤ)
    else none, indexed slice.messages lower upper⟩ with hresult
  have hleft : result.Left T query.aroundId := by
    refine ⟨fun n hn => (nomatch hn), fun n hn => ?_, fun n hn => ?_⟩
    · simp only [hresult] at hn ⊢
      split_ifs at hn with hstart
      obtain rfl := Option.some.inj hn
      rw [h.leftBefore_indexed hkey (fun x hx => hstart ▸ (hbounds x hx).1) hi hj]
    · simp only [hresult] at hn ⊢
      split_ifs at hn with htill
      obtain rfl := Option.some.inj hn
      rw [h.leftAfter_indexed hkey (fun x hx => htill ▸ (hbounds x hx).2) hi hj]
      congr 1
      omega
  obtain ⟨hcount', hbefore, hafter⟩ := hleft.withCount hsub hcount
  obtain ⟨hreaches, hreaches'⟩ := h.reaches_indexed hkey hi hj
  rw [SliceResult.withCount_messageIds] at hbefore hafter
  refine .of_left ?_ ?_ ?_ ?_ ?_ hcount' ?_ ?_
  all_goals rw [SliceResult.withCount_messageIds]
  · exact h.isBlock.indexed
  · exact hreaches
  · exact hreaches'
  · show below (indexed slice.messages lower upper) query.aroundId ≤ query.limitBefore
    rw [below_indexed hcard]
    omega
  · show ((indexed slice.messages lower upper).filter (query.aroundId ≤ ·)).card ≤ query.limitAfter + 1
    rw [card_filter_indexed hi hj hcard]
    omega
  · exact hbefore
  · exact hafter

/-- A result with no ids, and a count or nothing, is exact. -/
theorem SliceResult.Exact.of_empty (hcount : ∀ n, count = some n → n = T.card) :
    SliceResult.Exact T query ⟨count, none, none, ∅⟩ := by
  refine .of_left .empty ?_ ?_ ?_ ?_ hcount ?_ ?_
  · exact fun a ha => absurd ha (Finset.notMem_empty a)
  · exact fun a ha => absurd ha (Finset.notMem_empty a)
  · simp [below]
  · simp
  · exact fun n hn => by cases hn
  · exact fun n hn => by cases hn

end Yunogram.Storage
