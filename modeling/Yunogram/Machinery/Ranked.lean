import Mathlib

/-!
# Machinery/Ranked — positions in a finite ordered set, and blocks of it

A finite set kept in order has an element at every position below its size: `below s k` counts what
lies under `k`, so it is the position of an element and where a missing one would stand.  `indexed`
takes a range of positions.

`IsBlock T s` says that `s` is a contiguous part of `T`; `before` and `after` count what `T` has on
its two sides, and with the block they make up `T`.
-/

namespace Machinery

variable {α : Type*} [LinearOrder α]

/-! ## Positions -/

/-- How many elements lie under `k`. -/
def below (s : Finset α) (k : α) : ℕ := (s.filter (· < k)).card

/-- The elements at the positions from `i` on, up to `j`. -/
def indexed (s : Finset α) (i j : ℕ) : Finset α :=
  s.filter fun x => i ≤ below s x ∧ below s x < j

variable {s : Finset α} {x y k : α} {i j : ℕ}

theorem below_mono (h : x ≤ y) : below s x ≤ below s y :=
  Finset.card_le_card fun _ hz =>
    Finset.mem_filter.mpr ⟨(Finset.mem_filter.mp hz).1, (Finset.mem_filter.mp hz).2.trans_le h⟩

theorem below_le_card : below s k ≤ s.card := Finset.card_filter_le _ _

theorem below_lt_below (hx : x ∈ s) (h : x < k) : below s x < below s k := by
  have hsubset : s.filter (· < x) ⊆ s.filter (· < k) := fun z hz =>
    Finset.mem_filter.mpr ⟨(Finset.mem_filter.mp hz).1, (Finset.mem_filter.mp hz).2.trans h⟩
  exact Finset.card_lt_card ((Finset.ssubset_iff_of_subset hsubset).mpr
    ⟨x, Finset.mem_filter.mpr ⟨hx, h⟩, fun hxx => lt_irrefl x (Finset.mem_filter.mp hxx).2⟩)

/-- **An element lies under `k` exactly when its position does.** -/
theorem below_lt_below_iff (hx : x ∈ s) : below s x < below s k ↔ x < k :=
  ⟨fun h => not_le.mp fun hk => h.not_ge (below_mono hk), below_lt_below hx⟩

theorem below_lt_card (hx : x ∈ s) : below s x < s.card :=
  Finset.card_lt_card (Finset.filter_ssubset.mpr ⟨x, hx, lt_irrefl x⟩)

theorem below_injOn : Set.InjOn (below s) s := by
  intro x hx y hy h
  rcases lt_trichotomy x y with hlt | heq | hlt
  · exact absurd h (below_lt_below hx hlt).ne
  · exact heq
  · exact absurd h (below_lt_below hy hlt).ne'

/-- **Every position is taken.** -/
theorem image_below : s.image (below s) = Finset.range s.card := by
  refine Finset.eq_of_subset_of_card_le (fun n hn => ?_) ?_
  · obtain ⟨x, hx, rfl⟩ := Finset.mem_image.mp hn
    exact Finset.mem_range.mpr (below_lt_card hx)
  · rw [Finset.card_image_of_injOn below_injOn, Finset.card_range]

theorem mem_indexed : x ∈ indexed s i j ↔ x ∈ s ∧ i ≤ below s x ∧ below s x < j :=
  Finset.mem_filter

theorem indexed_subset : indexed s i j ⊆ s := Finset.filter_subset _ _

@[simp] theorem indexed_all : indexed s 0 s.card = s :=
  Finset.filter_true_of_mem fun _ hx => ⟨Nat.zero_le _, below_lt_card hx⟩

theorem card_indexed (h : j ≤ s.card) : (indexed s i j).card = j - i := by
  have himage : (indexed s i j).image (below s) = Finset.Ico i j := by
    ext n
    rw [Finset.mem_image, Finset.mem_Ico]
    constructor
    · rintro ⟨x, hx, rfl⟩
      exact (mem_indexed.mp hx).2
    · rintro ⟨hi, hj⟩
      obtain ⟨x, hx, rfl⟩ := Finset.mem_image.mp
        (image_below (s := s) ▸ Finset.mem_range.mpr (hj.trans_le h))
      exact ⟨x, mem_indexed.mpr ⟨hx, hi, hj⟩, rfl⟩
  rw [← Nat.card_Ico, ← himage, Finset.card_image_of_injOn
    (below_injOn.mono (Finset.coe_subset.mpr indexed_subset))]

/-- Of a range of positions, the part under `k` is a range of positions. -/
theorem filter_indexed : (indexed s i j).filter (· < k) = indexed s i (min j (below s k)) := by
  ext x
  rw [Finset.mem_filter, mem_indexed, mem_indexed, lt_min_iff]
  constructor
  · rintro ⟨⟨hx, hi, hj⟩, hk⟩
    exact ⟨hx, hi, hj, below_lt_below hx hk⟩
  · rintro ⟨hx, hi, hj, hk⟩
    exact ⟨⟨hx, hi, hj⟩, (below_lt_below_iff hx).mp hk⟩

theorem below_indexed (h : j ≤ s.card) : below (indexed s i j) k = min j (below s k) - i := by
  rw [below, filter_indexed, card_indexed ((min_le_left _ _).trans h)]

/-! ## Blocks -/

/-- A contiguous part of a set. -/
structure IsBlock (T s : Finset α) : Prop where
  subset : s ⊆ T
  between : ∀ a ∈ s, ∀ b ∈ s, ∀ x ∈ T, a ≤ x → x ≤ b → x ∈ s

instance [DecidableEq α] (T s : Finset α) : Decidable (IsBlock T s) :=
  decidable_of_iff (s ⊆ T ∧ ∀ a ∈ s, ∀ b ∈ s, ∀ x ∈ T, a ≤ x → x ≤ b → x ∈ s)
    ⟨fun h => ⟨h.1, h.2⟩, fun h => ⟨h.subset, h.between⟩⟩

/-- What lies under all of a part. -/
def before (T s : Finset α) : ℕ := (T.filter fun x => ∀ a ∈ s, x < a).card

/-- What lies above all of a part. -/
def after (T s : Finset α) : ℕ := (T.filter fun x => ∀ a ∈ s, a < x).card

variable {T : Finset α}

theorem IsBlock.empty : IsBlock T ∅ :=
  ⟨Finset.empty_subset T, fun _ ha => absurd ha (Finset.notMem_empty _)⟩

theorem IsBlock.singleton (h : x ∈ T) : IsBlock T {x} where
  subset := Finset.singleton_subset_iff.mpr h
  between a ha b hb y _ hay hyb := by
    obtain rfl := Finset.mem_singleton.mp ha
    obtain rfl := Finset.mem_singleton.mp hb
    exact Finset.mem_singleton.mpr (le_antisymm hyb hay)

theorem IsBlock.refl : IsBlock T T := ⟨subset_rfl, fun _ _ _ _ _ hx _ _ => hx⟩

/-- **A range of positions of a block is a block.** -/
theorem IsBlock.indexed (h : IsBlock T s) : IsBlock T (indexed s i j) where
  subset := indexed_subset.trans h.subset
  between a ha b hb x hx hax hxb := by
    obtain ⟨ha, hai, -⟩ := mem_indexed.mp ha
    obtain ⟨hb, -, hbj⟩ := mem_indexed.mp hb
    exact mem_indexed.mpr ⟨h.between a ha b hb x hx hax hxb, hai.trans (below_mono hax),
      (below_mono hxb).trans_lt hbj⟩

/-- **A block and its two sides make up the set.** -/
theorem IsBlock.card (h : IsBlock T s) (hne : s.Nonempty) :
    before T s + s.card + after T s = T.card := by
  obtain ⟨a, ha⟩ := hne
  have hbefore : Disjoint (T.filter fun x => ∀ a ∈ s, x < a) s :=
    Finset.disjoint_left.mpr fun x hx hxs => lt_irrefl x ((Finset.mem_filter.mp hx).2 x hxs)
  have hafter : Disjoint ((T.filter fun x => ∀ a ∈ s, x < a) ∪ s)
      (T.filter fun x => ∀ a ∈ s, a < x) := by
    refine Finset.disjoint_left.mpr fun x hx hxa => ?_
    have hxa := (Finset.mem_filter.mp hxa).2
    rcases Finset.mem_union.mp hx with hx | hx
    · exact lt_asymm (hxa a ha) ((Finset.mem_filter.mp hx).2 a ha)
    · exact lt_irrefl x (hxa x hx)
  have hunion : ((T.filter fun x => ∀ a ∈ s, x < a) ∪ s) ∪ (T.filter fun x => ∀ a ∈ s, a < x)
      = T := by
    ext x
    simp only [Finset.mem_union, Finset.mem_filter]
    constructor
    · rintro ((⟨hx, -⟩ | hx) | ⟨hx, -⟩)
      · exact hx
      · exact h.subset hx
      · exact hx
    · intro hx
      by_cases hlow : ∀ a ∈ s, x < a
      · exact .inl (.inl ⟨hx, hlow⟩)
      by_cases hhigh : ∀ a ∈ s, a < x
      · exact .inr ⟨hx, hhigh⟩
      push Not at hlow hhigh
      obtain ⟨b, hb, hbx⟩ := hlow
      obtain ⟨c, hc, hxc⟩ := hhigh
      exact .inl (.inr (h.between b hb c hc x hx hbx hxc))
  rw [before, after, ← Finset.card_union_of_disjoint hbefore,
    ← Finset.card_union_of_disjoint hafter, hunion]

/-- **What lies under a range of positions of a block…** -/
theorem IsBlock.before_indexed (h : IsBlock T s) (hij : i < j) (hj : j ≤ s.card) :
    before T (Machinery.indexed s i j) = before T s + i := by
  have hfirst : (Machinery.indexed s i j).Nonempty := by
    rw [← Finset.card_pos, card_indexed hj]
    omega
  obtain ⟨a, ha⟩ := hfirst
  obtain ⟨has, hai, haj⟩ := mem_indexed.mp ha
  have hdisjoint : Disjoint (T.filter fun x => ∀ a ∈ s, x < a) (Machinery.indexed s 0 i) :=
    Finset.disjoint_left.mpr fun x hx hxs =>
      lt_irrefl x ((Finset.mem_filter.mp hx).2 x (indexed_subset hxs))
  have hunion : (T.filter fun x => ∀ a ∈ Machinery.indexed s i j, x < a)
      = (T.filter fun x => ∀ a ∈ s, x < a) ∪ Machinery.indexed s 0 i := by
    ext x
    rw [Finset.mem_union, Finset.mem_filter, Finset.mem_filter, mem_indexed]
    constructor
    · rintro ⟨hx, hlt⟩
      by_cases hxs : x ∈ s
      · refine .inr ⟨hxs, Nat.zero_le _, not_le.mp fun hi => ?_⟩
        have hxj : below s x < j := ((below_lt_below_iff hxs).mpr (hlt a ha)).trans haj
        exact lt_irrefl x (hlt x (mem_indexed.mpr ⟨hxs, hi, hxj⟩))
      · refine .inl ⟨hx, fun b hb => not_le.mp fun hbx => hxs ?_⟩
        exact h.between b hb a has x hx hbx (hlt a ha).le
    · rintro (⟨hx, hlt⟩ | ⟨hxs, -, hxi⟩)
      · exact ⟨hx, fun b hb => hlt b (indexed_subset hb)⟩
      · refine ⟨h.subset hxs, fun b hb => (below_lt_below_iff hxs).mp ?_⟩
        exact hxi.trans_le (mem_indexed.mp hb).2.1
  rw [before, hunion, Finset.card_union_of_disjoint hdisjoint,
    card_indexed (hij.le.trans hj), before, Nat.sub_zero]

/-- **…and above it.** -/
theorem IsBlock.after_indexed (h : IsBlock T s) (hij : i < j) (hj : j ≤ s.card) :
    after T (Machinery.indexed s i j) = after T s + (s.card - j) := by
  have hne : s.Nonempty := Finset.card_pos.mp (by omega)
  have hpart : (Machinery.indexed s i j).Nonempty := by
    rw [← Finset.card_pos, card_indexed hj]
    omega
  have htotal := h.card hne
  have htotal' := (h.indexed (i := i) (j := j)).card hpart
  rw [h.before_indexed hij hj, card_indexed hj] at htotal'
  omega

variable {u v T' : Finset α}

/-! ## Neighbouring blocks -/

section

variable (hu : IsBlock T u) (hv : IsBlock T v) (hne : u.Nonempty)
include hu hv hne

/-- **Two blocks with nothing between them make up a block**, the second under the first… -/
theorem IsBlock.union_below (hlt : ∀ x ∈ v, ∀ y ∈ u, x < y)
    (hgap : ∀ t ∈ T, (∀ y ∈ u, t < y) → ∃ x ∈ v, t ≤ x) :
    IsBlock T (u ∪ v) ∧ before T (u ∪ v) + v.card = before T u ∧
      after T (u ∪ v) = after T u := by
  obtain ⟨c, hc⟩ := hne
  have hblock : IsBlock T (u ∪ v) := by
    refine ⟨Finset.union_subset hu.subset hv.subset, fun a ha b hb t ht hat htb => ?_⟩
    by_cases hlow : ∃ y ∈ u, y ≤ t
    · obtain ⟨y, hy, hyt⟩ := hlow
      refine Finset.mem_union_left v ?_
      rcases Finset.mem_union.mp hb with hb | hb
      · exact hu.between y hy b hb t ht hyt htb
      · exact absurd (hyt.trans htb) (hlt b hb y hy).not_ge
    · have hunder : ∀ y ∈ u, t < y := fun y hy => not_le.mp fun hyt => hlow ⟨y, hy, hyt⟩
      obtain ⟨x, hx, htx⟩ := hgap t ht hunder
      refine Finset.mem_union_right u ?_
      rcases Finset.mem_union.mp ha with ha | ha
      · exact absurd hat (hunder a ha).not_ge
      · exact hv.between a ha x hx t ht hat htx
  have hafter : after T (u ∪ v) = after T u := by
    rw [after, after]
    congr 1
    ext t
    rw [Finset.mem_filter, Finset.mem_filter]
    refine and_congr_right fun _ =>
      ⟨fun h a ha => h a (Finset.mem_union_left v ha), fun h a ha => ?_⟩
    rcases Finset.mem_union.mp ha with ha | ha
    · exact h a ha
    · exact (hlt a ha c hc).trans (h c hc)
  have hdisjoint : Disjoint u v :=
    Finset.disjoint_left.mpr fun x hxu hxv => lt_irrefl x (hlt x hxv x hxu)
  have hcard := hu.card ⟨c, hc⟩
  have hcard' := hblock.card ⟨c, Finset.mem_union_left v hc⟩
  rw [Finset.card_union_of_disjoint hdisjoint, hafter] at hcard'
  exact ⟨hblock, by omega, hafter⟩

/-- **…and above it.** -/
theorem IsBlock.union_above (hlt : ∀ x ∈ v, ∀ y ∈ u, y < x)
    (hgap : ∀ t ∈ T, (∀ y ∈ u, y < t) → ∃ x ∈ v, x ≤ t) :
    IsBlock T (u ∪ v) ∧ before T (u ∪ v) = before T u ∧
      after T (u ∪ v) + v.card = after T u := by
  obtain ⟨c, hc⟩ := hne
  have hblock : IsBlock T (u ∪ v) := by
    refine ⟨Finset.union_subset hu.subset hv.subset, fun a ha b hb t ht hat htb => ?_⟩
    by_cases hhigh : ∃ y ∈ u, t ≤ y
    · obtain ⟨y, hy, hty⟩ := hhigh
      refine Finset.mem_union_left v ?_
      rcases Finset.mem_union.mp ha with ha | ha
      · exact hu.between a ha y hy t ht hat hty
      · exact absurd (hat.trans hty) (hlt a ha y hy).not_ge
    · have habove : ∀ y ∈ u, y < t := fun y hy => not_le.mp fun hty => hhigh ⟨y, hy, hty⟩
      obtain ⟨x, hx, hxt⟩ := hgap t ht habove
      refine Finset.mem_union_right u ?_
      rcases Finset.mem_union.mp hb with hb | hb
      · exact absurd htb (habove b hb).not_ge
      · exact hv.between x hx b hb t ht hxt htb
  have hbefore : before T (u ∪ v) = before T u := by
    rw [before, before]
    congr 1
    ext t
    rw [Finset.mem_filter, Finset.mem_filter]
    refine and_congr_right fun _ =>
      ⟨fun h a ha => h a (Finset.mem_union_left v ha), fun h a ha => ?_⟩
    rcases Finset.mem_union.mp ha with ha | ha
    · exact h a ha
    · exact (h c hc).trans (hlt a ha c hc)
  have hdisjoint : Disjoint u v :=
    Finset.disjoint_left.mpr fun x hxu hxv => lt_irrefl x (hlt x hxv x hxu)
  have hcard := hu.card ⟨c, hc⟩
  have hcard' := hblock.card ⟨c, Finset.mem_union_left v hc⟩
  rw [Finset.card_union_of_disjoint hdisjoint, hbefore] at hcard'
  exact ⟨hblock, hbefore, by omega⟩

end

/-! ## Parts of a block, and sets that change -/

/-- **What lies under a part of a block lies under the block or in it…** -/
theorem before_of_subset (hu : IsBlock T u) (hsub : s ⊆ u) (hne : s.Nonempty) :
    before T s = before T u + below u (s.min' hne) := by
  have hdisjoint : Disjoint (T.filter fun x => ∀ a ∈ u, x < a) (u.filter (· < s.min' hne)) :=
    Finset.disjoint_left.mpr fun x hx hxu =>
      lt_irrefl x ((Finset.mem_filter.mp hx).2 x (Finset.mem_filter.mp hxu).1)
  rw [before, before, below, ← Finset.card_union_of_disjoint hdisjoint]
  congr 1
  ext x
  rw [Finset.mem_union, Finset.mem_filter, Finset.mem_filter, Finset.mem_filter]
  constructor
  · rintro ⟨hx, hlt⟩
    have hmin : x < s.min' hne := hlt _ (s.min'_mem hne)
    by_cases hin : x ∈ u
    · exact .inr ⟨hin, hmin⟩
    · refine .inl ⟨hx, fun a ha => not_le.mp fun hax => hin ?_⟩
      exact hu.between a ha _ (hsub (s.min'_mem hne)) x hx hax hmin.le
  · rintro (⟨hx, hlt⟩ | ⟨hx, hlt⟩)
    · exact ⟨hx, fun a ha => hlt a (hsub ha)⟩
    · exact ⟨hu.subset hx, fun a ha => hlt.trans_le (s.min'_le a ha)⟩

/-- **…and above it likewise.** -/
theorem after_of_subset (hu : IsBlock T u) (hsub : s ⊆ u) (hne : s.Nonempty) :
    after T s = after T u + (u.card - below u (s.max' hne) - 1) := by
  have hmax : s.max' hne ∈ u := hsub (s.max'_mem hne)
  have hdisjoint : Disjoint (T.filter fun x => ∀ a ∈ u, a < x) (u.filter (s.max' hne < ·)) :=
    Finset.disjoint_left.mpr fun x hx hxu =>
      lt_irrefl x ((Finset.mem_filter.mp hx).2 x (Finset.mem_filter.mp hxu).1)
  have hcount : (u.filter (s.max' hne < ·)).card = u.card - below u (s.max' hne) - 1 := by
    have hsplit := Finset.card_filter_add_card_filter_not (s := u) (· < s.max' hne)
    have hge : u.filter (fun x => ¬ x < s.max' hne)
        = insert (s.max' hne) (u.filter (s.max' hne < ·)) := by
      ext x
      rw [Finset.mem_filter, Finset.mem_insert, Finset.mem_filter, not_lt, le_iff_eq_or_lt]
      constructor
      · rintro ⟨hx, heq | hlt⟩
        · exact .inl heq.symm
        · exact .inr ⟨hx, hlt⟩
      · rintro (rfl | ⟨hx, hlt⟩)
        · exact ⟨hmax, .inl rfl⟩
        · exact ⟨hx, .inr hlt⟩
    rw [hge, Finset.card_insert_of_notMem fun h => lt_irrefl _ (Finset.mem_filter.mp h).2] at hsplit
    change below u (s.max' hne) + ((u.filter fun x => s.max' hne < x).card + 1) = u.card at hsplit
    omega
  rw [after, after, ← hcount, ← Finset.card_union_of_disjoint hdisjoint]
  congr 1
  ext x
  rw [Finset.mem_union, Finset.mem_filter, Finset.mem_filter, Finset.mem_filter]
  constructor
  · rintro ⟨hx, hlt⟩
    have hmax' : s.max' hne < x := hlt _ (s.max'_mem hne)
    by_cases hin : x ∈ u
    · exact .inr ⟨hin, hmax'⟩
    · refine .inl ⟨hx, fun a ha => not_le.mp fun hxa => hin ?_⟩
      exact hu.between _ hmax a ha x hx hmax'.le hxa
  · rintro (⟨hx, hlt⟩ | ⟨hx, hlt⟩)
    · exact ⟨hx, fun a ha => hlt a (hsub ha)⟩
    · exact ⟨hu.subset hx, fun a ha => (s.le_max' a ha).trans_lt hlt⟩

/-- **A set that grows over a part only has the same under it…** -/
theorem before_grown (hsub : T ⊆ T') (hnew : ∀ x ∈ T', x ∉ T → ∃ a ∈ s, a ≤ x) :
    before T' s = before T s := by
  rw [before, before]
  congr 1
  ext x
  rw [Finset.mem_filter, Finset.mem_filter]
  constructor
  · rintro ⟨hx, hlt⟩
    refine ⟨by_contra fun hx' => ?_, hlt⟩
    obtain ⟨a, ha, hax⟩ := hnew x hx hx'
    exact hax.not_gt (hlt a ha)
  · exact fun ⟨hx, hlt⟩ => ⟨hsub hx, hlt⟩

/-- **…and under it only, the same above.** -/
theorem after_grown (hsub : T ⊆ T') (hnew : ∀ x ∈ T', x ∉ T → ∃ a ∈ s, x ≤ a) :
    after T' s = after T s := by
  rw [after, after]
  congr 1
  ext x
  rw [Finset.mem_filter, Finset.mem_filter]
  constructor
  · rintro ⟨hx, hlt⟩
    refine ⟨by_contra fun hx' => ?_, hlt⟩
    obtain ⟨a, ha, hxa⟩ := hnew x hx hx'
    exact hxa.not_gt (hlt a ha)
  · exact fun ⟨hx, hlt⟩ => ⟨hsub hx, hlt⟩

theorem before_eq_zero_iff : before T s = 0 ↔ ∀ x ∈ T, ∃ a ∈ s, a ≤ x := by
  rw [before, Finset.card_eq_zero, Finset.filter_eq_empty_iff]
  simp only [not_forall, not_lt, exists_prop]

theorem after_eq_zero_iff : after T s = 0 ↔ ∀ x ∈ T, ∃ a ∈ s, x ≤ a := by
  rw [after, Finset.card_eq_zero, Finset.filter_eq_empty_iff]
  simp only [not_forall, not_lt, exists_prop]

theorem before_empty : before T ∅ = T.card := by
  rw [before, Finset.filter_true_of_mem fun x _ a ha => absurd ha (Finset.notMem_empty a)]

theorem before_le_of_subset (h : T ⊆ T') : before T s ≤ before T' s :=
  Finset.card_le_card (Finset.filter_subset_filter _ h)

theorem after_le_of_subset (h : T ⊆ T') : after T s ≤ after T' s :=
  Finset.card_le_card (Finset.filter_subset_filter _ h)

/-- **What lies under a block without one of its ids.** -/
theorem before_erase (h : IsBlock T s) (hid : y ∈ s) (hne : (s.erase y).Nonempty) :
    before (T.erase y) (s.erase y) = before T s := by
  obtain ⟨c, hc⟩ := hne
  rw [before, before]
  congr 1
  ext x
  rw [Finset.mem_filter, Finset.mem_filter, Finset.mem_erase]
  constructor
  · rintro ⟨⟨hne, hx⟩, hlt⟩
    refine ⟨hx, fun a ha => not_le.mp fun hax => lt_irrefl x (hlt x ?_)⟩
    exact Finset.mem_erase.mpr ⟨hne,
      h.between a ha c (Finset.mem_of_mem_erase hc) x hx hax (hlt c hc).le⟩
  · rintro ⟨hx, hlt⟩
    exact ⟨⟨(hlt y hid).ne, hx⟩, fun a ha => hlt a (Finset.mem_of_mem_erase ha)⟩

/-- **…and above it.** -/
theorem after_erase (h : IsBlock T s) (hid : y ∈ s) (hne : (s.erase y).Nonempty) :
    after (T.erase y) (s.erase y) = after T s := by
  obtain ⟨c, hc⟩ := hne
  rw [after, after]
  congr 1
  ext x
  rw [Finset.mem_filter, Finset.mem_filter, Finset.mem_erase]
  constructor
  · rintro ⟨⟨hne, hx⟩, hlt⟩
    refine ⟨hx, fun a ha => not_le.mp fun hxa => lt_irrefl x (hlt x ?_)⟩
    exact Finset.mem_erase.mpr ⟨hne,
      h.between c (Finset.mem_of_mem_erase hc) a ha x hx (hlt c hc).le hxa⟩
  · rintro ⟨hx, hlt⟩
    exact ⟨⟨(hlt y hid).ne', hx⟩, fun a ha => hlt a (Finset.mem_of_mem_erase ha)⟩

theorem IsBlock.erase (h : IsBlock T s) : IsBlock (T.erase y) (s.erase y) where
  subset := Finset.erase_subset_erase _ h.subset
  between a ha b hb x hx hax hxb := by
    obtain ⟨hne, hx⟩ := Finset.mem_erase.mp hx
    exact Finset.mem_erase.mpr ⟨hne, h.between a (Finset.mem_of_mem_erase ha) b
      (Finset.mem_of_mem_erase hb) x hx hax hxb⟩

/-- What lies under a part without an id of its own, after an id is taken away. -/
theorem before_erase_of_notMem (hid : y ∈ T) :
    (before (T.erase y) s : ℤ)
      = before T s - if ∀ a ∈ s, y < a then 1 else 0 := by
  rw [before, before, Finset.filter_erase]
  split_ifs with hlt
  · have hmem : y ∈ T.filter fun x => ∀ a ∈ s, x < a := Finset.mem_filter.mpr ⟨hid, hlt⟩
    have hpos := Finset.card_pos.mpr ⟨y, hmem⟩
    rw [Finset.card_erase_of_mem hmem]
    omega
  · rw [Finset.erase_eq_of_notMem fun hmem => hlt (Finset.mem_filter.mp hmem).2, sub_zero]

theorem after_erase_of_notMem (hid : y ∈ T) :
    (after (T.erase y) s : ℤ)
      = after T s - if ∀ a ∈ s, a < y then 1 else 0 := by
  rw [after, after, Finset.filter_erase]
  split_ifs with hlt
  · have hmem : y ∈ T.filter fun x => ∀ a ∈ s, a < x := Finset.mem_filter.mpr ⟨hid, hlt⟩
    have hpos := Finset.card_pos.mpr ⟨y, hmem⟩
    rw [Finset.card_erase_of_mem hmem]
    omega
  · rw [Finset.erase_eq_of_notMem fun hmem => hlt (Finset.mem_filter.mp hmem).2, sub_zero]

end Machinery
