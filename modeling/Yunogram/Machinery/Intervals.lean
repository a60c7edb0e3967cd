import Mathlib

/-!
# Machinery/Intervals — sets of points kept as lists of intervals

A list of half-open intervals covers the points that are in one of them.  A list is `Separated` when
its intervals are not empty and each ends before the next starts: such a list is its set of points,
and a run of integers that it covers is in one of its intervals (`Separated.exists_of_run`).

`push` puts an interval on a stack of intervals, the last one first, and unites it with the last one
where they touch.  It keeps a stack separated, and covers what was covered.
-/

namespace Machinery

variable {α : Type*}

/-- The points from `start` up to `till`, without it. -/
@[ext] structure HalfOpen (α : Type*) where
  start : α
  till : α
  deriving DecidableEq

namespace HalfOpen

variable [LinearOrder α]

instance : Membership α (HalfOpen α) := ⟨fun i x => i.start ≤ x ∧ x < i.till⟩

@[simp] theorem mem_iff {i : HalfOpen α} {x : α} : x ∈ i ↔ i.start ≤ x ∧ x < i.till := Iff.rfl

/-- The point is in one of the intervals. -/
def Covers (l : List (HalfOpen α)) (x : α) : Prop := ∃ i ∈ l, x ∈ i

/-- **Intervals that are not empty, of which each ends before the next starts.** -/
structure Separated (l : List (HalfOpen α)) : Prop where
  nonempty : ∀ i ∈ l, i.start < i.till
  apart : l.Pairwise fun i j => i.till < j.start

variable {l l' : List (HalfOpen α)} {i j : HalfOpen α} {x : α}

/-! ## What a list covers -/

@[simp] theorem covers_nil : ¬ Covers ([] : List (HalfOpen α)) x := by simp [Covers]

@[simp] theorem covers_cons : Covers (i :: l) x ↔ x ∈ i ∨ Covers l x := by simp [Covers]

@[simp] theorem covers_append : Covers (l ++ l') x ↔ Covers l x ∨ Covers l' x := by
  simp [Covers, or_and_right, exists_or]

theorem covers_congr (h : ∀ i, i ∈ l ↔ i ∈ l') : Covers l x ↔ Covers l' x := by
  simp only [Covers, h]

theorem covers_flatMap {β : Type*} {f : β → List (HalfOpen α)} {m : List β} :
    Covers (m.flatMap f) x ↔ ∃ b ∈ m, Covers (f b) x := by
  simp only [Covers, List.mem_flatMap]
  exact ⟨fun ⟨i, ⟨b, hb, hi⟩, hx⟩ => ⟨b, hb, i, hi, hx⟩,
    fun ⟨b, hb, i, hi, hx⟩ => ⟨i, ⟨b, hb, hi⟩, hx⟩⟩

/-! ## Separated lists -/

namespace Separated

theorem nil : Separated ([] : List (HalfOpen α)) := ⟨by simp, List.Pairwise.nil⟩

theorem filter (h : Separated l) (p : HalfOpen α → Bool) : Separated (l.filter p) where
  nonempty i hi := h.nonempty i (List.mem_filter.mp hi).1
  apart := h.apart.filter p

/-- One of two intervals ends before the other starts. -/
theorem apart_of_ne (h : Separated l) (hi : i ∈ l) (hj : j ∈ l) (hne : i ≠ j) :
    i.till < j.start ∨ j.till < i.start := by
  have : Std.Symm fun i j : HalfOpen α => i.till < j.start ∨ j.till < i.start :=
    ⟨fun _ _ => Or.symm⟩
  have hpairwise : l.Pairwise fun i j => i.till < j.start ∨ j.till < i.start := h.apart.imp Or.inl
  exact hpairwise.forall hi hj hne

/-- **A point is in one interval at most.** -/
theorem eq_of_mem (h : Separated l) (hi : i ∈ l) (hj : j ∈ l) (hxi : x ∈ i) (hxj : x ∈ j) :
    i = j := by
  by_contra hne
  rcases h.apart_of_ne hi hj hne with hlt | hlt
  · exact absurd (hxi.2.trans (hlt.trans_le hxj.1)) (lt_irrefl _)
  · exact absurd (hxj.2.trans (hlt.trans_le hxi.1)) (lt_irrefl _)

/-- **Where an interval ends nothing is covered.** -/
theorem not_covers_till (h : Separated l) (hi : i ∈ l) : ¬ Covers l i.till := by
  rintro ⟨j, hj, hx⟩
  rcases eq_or_ne i j with rfl | hne
  · exact absurd hx.2 (lt_irrefl _)
  · rcases h.apart_of_ne hi hj hne with hlt | hlt
    · exact absurd (hlt.trans_le hx.1) (lt_irrefl _)
    · exact absurd ((hx.2.trans hlt).trans (h.nonempty i hi)) (lt_irrefl _)

/-- The last interval ends last. -/
theorem till_le_last (h : Separated (l ++ [j])) (hi : i ∈ l ++ [j]) : i.till ≤ j.till := by
  rcases List.mem_append.mp hi with hi' | hi'
  · have hlt := (List.pairwise_append.mp h.apart).2.2 i hi' j (List.mem_singleton_self j)
    exact (hlt.trans (h.nonempty j (by simp))).le
  · rw [List.mem_singleton.mp hi']

theorem eq_singleton (h : Separated l) (hi : i ∈ l) (hsame : ∀ j ∈ l, j = i) : l = [i] := by
  cases l with
  | nil => exact absurd hi List.not_mem_nil
  | cons j l =>
    have hnil : l = [] := List.eq_nil_iff_forall_not_mem.mpr fun k hk => by
      have hlt := (List.pairwise_cons.mp h.apart).1 k hk
      rw [hsame k (List.mem_cons_of_mem _ hk), hsame j (List.mem_cons_self ..)] at hlt
      exact absurd (hlt.trans (h.nonempty i hi)) (lt_irrefl _)
    rw [hnil, hsame j (List.mem_cons_self ..)]

/-- The intervals are where the integers are that they cover. -/
theorem within {l : List (HalfOpen ℤ)} {i : HalfOpen ℤ} {a b : ℤ} (h : Separated l)
    (hcovered : ∀ x, Covers l x → a ≤ x ∧ x < b) (hi : i ∈ l) : a ≤ i.start ∧ i.till ≤ b := by
  have hnonempty := h.nonempty i hi
  have hstart := hcovered i.start ⟨i, hi, le_refl _, hnonempty⟩
  have hlast := hcovered (i.till - 1) ⟨i, hi, by omega, by omega⟩
  omega

/-- **A run of integers that is covered is in one interval.** -/
theorem exists_of_run {l : List (HalfOpen ℤ)} (h : Separated l) {a b : ℤ} (hab : a ≤ b)
    (hrun : ∀ x, a ≤ x → x ≤ b → Covers l x) : ∃ i ∈ l, i.start ≤ a ∧ b < i.till := by
  induction b, hab using Int.leInduction with
  | base =>
    obtain ⟨i, hi, hstart, htill⟩ := hrun a (le_refl a) (le_refl a)
    exact ⟨i, hi, hstart, htill⟩
  | succ b hab ih =>
    obtain ⟨i, hi, hstart, htill⟩ := ih fun x hax hxb => hrun x hax (hxb.trans (by omega))
    refine ⟨i, hi, hstart, ?_⟩
    by_contra hle
    have heq : i.till = b + 1 := by omega
    exact h.not_covers_till hi (heq ▸ hrun (b + 1) (by omega) (le_refl _))

end Separated

/-! ## Stacks -/

/-- An interval is put on a stack of intervals, the last one first. -/
def push (stack : List (HalfOpen α)) (i : HalfOpen α) : List (HalfOpen α) :=
  match stack with
  | [] => [i]
  | last :: stack =>
    if i.start ≤ last.till then ⟨last.start, max last.till i.till⟩ :: stack
    else i :: last :: stack

/-- A pushed interval is covered, with what was covered before. -/
theorem covers_push (h : ∀ last ∈ l.head?, last.start ≤ i.start) :
    Covers (push l i) x ↔ Covers l x ∨ x ∈ i := by
  cases l with
  | nil => simp [push]
  | cons last l =>
    have hstart : last.start ≤ i.start := h last rfl
    unfold push
    dsimp only
    split_ifs with htouch
    · rw [covers_cons, covers_cons, or_right_comm]
      refine or_congr_left ⟨fun hx => ?_, fun hx => ?_⟩
      · rcases lt_or_ge x last.till with hlt | hge
        · exact Or.inl ⟨hx.1, hlt⟩
        · exact Or.inr ⟨htouch.trans hge, (lt_max_iff.mp hx.2).resolve_left hge.not_gt⟩
      · rcases hx with hx | hx
        · exact ⟨hx.1, lt_max_of_lt_left hx.2⟩
        · exact ⟨hstart.trans hx.1, lt_max_of_lt_right hx.2⟩
    · rw [covers_cons, or_comm]

/-- **A pushed interval keeps a stack separated.** -/
theorem Separated.push (h : Separated l.reverse) (hi : i.start < i.till) :
    Separated (push l i).reverse := by
  cases l with
  | nil => exact ⟨by simpa [HalfOpen.push] using hi, List.pairwise_singleton _ _⟩
  | cons last l =>
    obtain ⟨hlast, hl⟩ := List.pairwise_cons.mp (List.pairwise_reverse.mp h.apart)
    have hnonempty : ∀ j ∈ last :: l, j.start < j.till := fun j hj =>
      h.nonempty j (List.mem_reverse.mpr hj)
    unfold HalfOpen.push
    dsimp only
    split_ifs with htouch
    · refine ⟨fun j hj => ?_, List.pairwise_reverse.mpr (List.pairwise_cons.mpr ⟨hlast, hl⟩)⟩
      rcases List.mem_cons.mp (List.mem_reverse.mp hj) with rfl | hj
      · exact lt_max_of_lt_left (hnonempty last (List.mem_cons_self ..))
      · exact hnonempty j (List.mem_cons_of_mem _ hj)
    · refine ⟨fun j hj => ?_, List.pairwise_reverse.mpr (List.pairwise_cons.mpr
        ⟨fun j hj => ?_, List.pairwise_cons.mpr ⟨hlast, hl⟩⟩)⟩
      · rcases List.mem_cons.mp (List.mem_reverse.mp hj) with rfl | hj
        · exact hi
        · exact hnonempty j hj
      · rcases List.mem_cons.mp hj with rfl | hj
        · exact not_le.mp htouch
        · exact ((hlast j hj).trans (hnonempty last (List.mem_cons_self ..))).trans
            (not_le.mp htouch)

end HalfOpen

end Machinery
