import Mathlib

/-!
# Machinery/GapCounter — knowing that nothing is missing from two sums

A stream of pieces `(a, b]` of the line arrives in any order.  The counter keeps no set: only the
greatest end `last` it saw, the start plus the sum `count` of the lengths it saw, and the point `good`
up to which it knows the line to be covered.  When `last = count` it moves `good` to `last`.

For pieces that do not overlap this is sound and complete (`Sound`): the pieces seen lie in
`(p₀, last]` and their lengths add up to `count - p₀`, so `last = count` says they fill it.
-/

namespace Machinery

/-- A piece of the line: it ends at `till` and has `length` positions. -/
structure Piece where
  till : ℤ
  length : ℤ
  deriving DecidableEq

namespace Piece

/-- Where the piece starts: its positions are above. -/
def start (u : Piece) : ℤ := u.till - u.length

/-- The positions of a piece.  The order of `ℤ` is named so that the set computes. -/
def span (u : Piece) : Finset ℤ :=
  @Finset.Ioc ℤ Int.instLinearOrder.toPreorder Int.instLocallyFiniteOrder u.start u.till

@[simp] theorem mem_span {u : Piece} {p : ℤ} : p ∈ u.span ↔ u.start < p ∧ p ≤ u.till :=
  Finset.mem_Ioc

theorem card_span {u : Piece} (h : 0 ≤ u.length) : (u.span.card : ℤ) = u.length := by
  rw [span, Int.card_Ioc, Int.toNat_of_nonneg] <;> simp only [start] <;> omega

end Piece

/-- The position is in one of the pieces. -/
def Covered (us : List Piece) (p : ℤ) : Prop := ∃ u ∈ us, p ∈ u.span

instance (us : List Piece) (p : ℤ) : Decidable (Covered us p) :=
  inferInstanceAs (Decidable (∃ u ∈ us, _))

theorem Covered.concat {us : List Piece} {p : ℤ} (h : Covered us p) (u : Piece) :
    Covered (us ++ [u]) p := by
  obtain ⟨v, hv, hp⟩ := h
  exact ⟨v, List.mem_append_left _ hv, hp⟩

theorem covered_concat {us : List Piece} {u : Piece} {p : ℤ} :
    Covered (us ++ [u]) p ↔ Covered us p ∨ p ∈ u.span := by
  simp only [Covered, List.mem_append, List.mem_singleton, or_and_right, exists_or, exists_eq_left]

/-- The positions above `p₀` in one of the pieces. -/
def positions (p₀ : ℤ) (us : List Piece) : Finset ℤ :=
  us.toFinset.biUnion fun u => u.span.filter (p₀ < ·)

theorem mem_positions {p₀ : ℤ} {us : List Piece} {p : ℤ} :
    p ∈ positions p₀ us ↔ p₀ < p ∧ Covered us p := by
  simp only [positions, Finset.mem_biUnion, List.mem_toFinset, Finset.mem_filter, Covered]
  exact ⟨fun ⟨u, hu, hp, h⟩ => ⟨h, u, hu, hp⟩, fun ⟨h, u, hu, hp⟩ => ⟨u, hu, hp, h⟩⟩

/-- The numbers of the counter. -/
structure GapCounter where
  good : ℤ
  last : ℤ
  count : ℤ
  deriving DecidableEq

namespace GapCounter

/-- The counter that starts at `p₀`. -/
def start (p₀ : ℤ) : GapCounter := ⟨p₀, p₀, p₀⟩

/-- Take a piece into account, unless it ends where everything is covered. -/
def receive (t : GapCounter) (u : Piece) : GapCounter :=
  if u.till ≤ t.good ∧ 0 < u.length then t
  else if max t.last u.till = t.count + u.length then
    ⟨max t.last u.till, max t.last u.till, t.count + u.length⟩
  else ⟨t.good, max t.last u.till, t.count + u.length⟩

/-- **What the numbers mean**, for the pieces `us` received since the start `p₀`. -/
structure Sound (p₀ : ℤ) (us : List Piece) (t : GapCounter) : Prop where
  start_le : p₀ ≤ t.good
  good_le : t.good ≤ t.last
  /-- The positions seen lie in `(p₀, last]`… -/
  le_last : ∀ p ∈ positions p₀ us, p ≤ t.last
  /-- …and there are `count - p₀` of them. -/
  count_eq : t.count = p₀ + (positions p₀ us).card
  covered : ∀ p, p₀ < p → p ≤ t.good → Covered us p
  good_of_full : t.last = t.count → t.good = t.last
  last_seen : t.last = p₀ ∨ ∃ u ∈ us, u.till = t.last

theorem sound_start (p₀ : ℤ) : Sound p₀ [] (start p₀) where
  start_le := le_refl _
  good_le := le_refl _
  le_last := by simp [positions]
  count_eq := by simp [start, positions]
  covered := fun p h h' => absurd h' (not_le.mpr h)
  good_of_full := fun _ => rfl
  last_seen := Or.inl rfl

variable {p₀ : ℤ} {us : List Piece} {t : GapCounter} {u : Piece}

/-- What a piece must be for the counter to count it rightly: it is known already, or empty, or new
and above the start. -/
def Admits (p₀ : ℤ) (us : List Piece) (t : GapCounter) (u : Piece) : Prop :=
  (u.till ≤ t.good ∧ 0 < u.length) ∨ u.length = 0 ∨
    (0 < u.length ∧ p₀ ≤ u.start ∧ ∀ p ∈ u.span, ¬ Covered us p)

theorem positions_subset (h : Sound p₀ us t) : positions p₀ us ⊆ Finset.Ioc p₀ t.last :=
  fun p hp => Finset.mem_Ioc.mpr ⟨(mem_positions.mp hp).1, h.le_last p hp⟩

/-- The sum of the lengths never passes the greatest end. -/
theorem Sound.count_le_last (h : Sound p₀ us t) : t.count ≤ t.last := by
  have hc := Finset.card_le_card (positions_subset h)
  rw [Int.card_Ioc] at hc
  have := h.count_eq
  have := h.start_le
  have := h.good_le
  omega

/-- **When the sums agree nothing is missing.** -/
theorem positions_eq_of_full {S : Finset ℤ} {last : ℤ} (hsub : S ⊆ Finset.Ioc p₀ last)
    (hle : p₀ ≤ last) (hcard : last = p₀ + S.card) : S = Finset.Ioc p₀ last := by
  refine Finset.eq_of_subset_of_card_le hsub ?_
  rw [Int.card_Ioc]
  omega

/-- A piece that ends where everything is covered adds no position. -/
theorem Sound.positions_known (h : Sound p₀ us t) (hu : u.till ≤ t.good) :
    positions p₀ (us ++ [u]) = positions p₀ us := by
  ext p
  rw [mem_positions, mem_positions, covered_concat]
  refine and_congr_right fun hp => ⟨?_, Or.inl⟩
  rintro (hc | hs)
  · exact hc
  · exact h.covered p hp (le_trans (Piece.mem_span.mp hs).2 hu)

theorem positions_empty (hu : u.length = 0) : positions p₀ (us ++ [u]) = positions p₀ us := by
  ext p
  have hs : p ∉ u.span := fun hs => by
    rw [Piece.mem_span, Piece.start] at hs
    omega
  simp only [mem_positions, covered_concat, hs, or_false]

theorem positions_new (hstart : p₀ ≤ u.start) :
    positions p₀ (us ++ [u]) = positions p₀ us ∪ u.span := by
  ext p
  rw [Finset.mem_union, mem_positions, mem_positions, covered_concat]
  constructor
  · rintro ⟨hp, hc | hs⟩
    · exact Or.inl ⟨hp, hc⟩
    · exact Or.inr hs
  · rintro (⟨hp, hc⟩ | hs)
    · exact ⟨hp, Or.inl hc⟩
    · exact ⟨lt_of_le_of_lt hstart (Piece.mem_span.mp hs).1, Or.inr hs⟩

/-- The counting step: the piece is counted, `last` and `count` move, and `good` follows when they
agree. -/
theorem Sound.counted (h : Sound p₀ us t)
    (hcard : ((positions p₀ (us ++ [u])).card : ℤ) = (positions p₀ us).card + u.length)
    (hle : ∀ p ∈ positions p₀ (us ++ [u]), p ≤ max t.last u.till) :
    Sound p₀ (us ++ [u])
      (if max t.last u.till = t.count + u.length then
        ⟨max t.last u.till, max t.last u.till, t.count + u.length⟩
      else ⟨t.good, max t.last u.till, t.count + u.length⟩) := by
  have hlast : t.last ≤ max t.last u.till := le_max_left _ _
  have hcount : t.count + u.length = p₀ + (positions p₀ (us ++ [u])).card := by
    rw [hcard, h.count_eq, add_assoc]
  have hseen : max t.last u.till = p₀ ∨ ∃ v ∈ us ++ [u], v.till = max t.last u.till := by
    rcases max_choice t.last u.till with hm | hm
    · rw [hm]
      exact h.last_seen.imp_right fun ⟨v, hv, hvt⟩ => ⟨v, List.mem_append_left _ hv, hvt⟩
    · rw [hm]
      exact Or.inr ⟨u, List.mem_append_right _ (List.mem_singleton_self u), rfl⟩
  have hp₀ : p₀ ≤ max t.last u.till := le_trans h.start_le (le_trans h.good_le hlast)
  split_ifs with hfull
  · have hall := positions_eq_of_full
      (fun p hp => Finset.mem_Ioc.mpr ⟨(mem_positions.mp hp).1, hle p hp⟩) hp₀
      (hfull.trans hcount)
    exact
      { start_le := hp₀
        good_le := le_refl _
        le_last := hle
        count_eq := hcount
        covered := fun p hp hg =>
          (mem_positions.mp (hall ▸ Finset.mem_Ioc.mpr ⟨hp, hg⟩)).2
        good_of_full := fun _ => rfl
        last_seen := hseen }
  · exact
      { start_le := h.start_le
        good_le := le_trans h.good_le hlast
        le_last := hle
        count_eq := hcount
        covered := fun p hp hg => (h.covered p hp hg).concat u
        good_of_full := fun hf => absurd hf hfull
        last_seen := hseen }

/-- **One step keeps the meaning of the numbers.** -/
theorem Sound.receive (h : Sound p₀ us t) (hu : Admits p₀ us t u) :
    Sound p₀ (us ++ [u]) (t.receive u) := by
  have hold : ∀ p ∈ positions p₀ us, p ≤ max t.last u.till := fun p hp =>
    le_trans (h.le_last p hp) (le_max_left _ _)
  rw [GapCounter.receive]
  by_cases hk : u.till ≤ t.good ∧ 0 < u.length
  · rw [if_pos hk]
    have hpos := h.positions_known hk.1
    exact
      { h with
        le_last := by rw [hpos]; exact h.le_last
        count_eq := by rw [hpos]; exact h.count_eq
        covered := fun p hp hg => (h.covered p hp hg).concat u
        last_seen := h.last_seen.imp_right fun ⟨v, hv, hvt⟩ => ⟨v, List.mem_append_left _ hv, hvt⟩ }
  · rw [if_neg hk]
    rcases hu with hk' | hz | ⟨hpos, hstart, hnew⟩
    · exact absurd hk' hk
    · have hp : positions p₀ (us ++ [u]) = positions p₀ us := positions_empty hz
      exact h.counted (by rw [hp, hz, add_zero]) (by rw [hp]; exact hold)
    · have hp : positions p₀ (us ++ [u]) = positions p₀ us ∪ u.span := positions_new hstart
      refine h.counted ?_ ?_
      · have hdis : Disjoint (positions p₀ us) u.span := Finset.disjoint_left.mpr fun p hp' hs =>
          hnew p hs (mem_positions.mp hp').2
        rw [hp, Finset.card_union_of_disjoint hdis, Nat.cast_add, Piece.card_span hpos.le]
      · rw [hp]
        intro p hp'
        rcases Finset.mem_union.mp hp' with hm | hm
        · exact hold p hm
        · exact le_trans (Piece.mem_span.mp hm).2 (le_max_right _ _)

/-- `good` never moves back. -/
theorem Sound.good_le_receive (h : Sound p₀ us t) (u : Piece) : t.good ≤ (t.receive u).good := by
  rw [GapCounter.receive]
  split_ifs
  · exact le_refl _
  · exact le_trans h.good_le (le_max_left _ _)
  · exact le_refl _

theorem receive_good_of_gap {t : GapCounter} {u : Piece}
    (h : (t.receive u).last ≠ (t.receive u).count) : (t.receive u).good = t.good := by
  rw [GapCounter.receive] at h ⊢
  split_ifs at h ⊢ with hk hf
  · rfl
  · exact absurd hf h
  · rfl

/-- **Completeness**: when the pieces cover `(p₀, P]` and none ends above `P`, the counter knows. -/
theorem Sound.good_eq (h : Sound p₀ us t) {P : ℤ} (hP : p₀ ≤ P)
    (hcov : ∀ p, p₀ < p → p ≤ P → Covered us p) (habove : ∀ u ∈ us, u.till ≤ P) : t.good = P := by
  have hle : t.last ≤ P := by
    rcases h.last_seen with hl | ⟨u, hu, hl⟩
    · exact hl ▸ hP
    · exact hl ▸ habove u hu
  have hsub : Finset.Ioc p₀ P ⊆ positions p₀ us := fun p hp => by
    obtain ⟨h1, h2⟩ := Finset.mem_Ioc.mp hp
    exact mem_positions.mpr ⟨h1, hcov p h1 h2⟩
  have hcard := Finset.card_le_card hsub
  rw [Int.card_Ioc] at hcard
  have hc := h.count_eq
  have hcl := h.count_le_last
  have hfull : t.last = t.count := by omega
  have := h.good_of_full hfull
  omega

end GapCounter

end Machinery
