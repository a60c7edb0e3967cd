import Mathlib
import Yunogram.Machinery.Span

/-!
# Machinery/Splice — ranges of a list replaced, and where positions go

A `Splice` is a range of a list with what stands in its place.  They come with the last one first,
so that one more, behind all of them, is a `cons`.  `before l cuts p` is the list up to `p` after
the cuts that start there, `whole` all of it, and `pos` how far `p` has come.

Behind the last cut nothing is changed (`before_of_le`, `whole_eq`), a position that is inside of
no cut keeps its order with those after it (`pos_le_pos`), and the text of a cut stands where its
start has come (`slice_whole`).
-/

namespace Machinery

variable {α : Type*}

/-- A range of a list with what replaces it. -/
structure Splice (α : Type*) where
  start : ℕ
  till : ℕ
  text : List α

namespace Splice

/-- The list up to a position, with the cuts before it made. -/
def before (l : List α) : List (Splice α) → ℕ → List α
  | [], p => l.take p
  | c :: cuts, p =>
    if c.start < p then before l cuts c.start ++ c.text ++ (l.take p).drop c.till
    else before l cuts p

/-- The list with all the cuts made. -/
def whole (l : List α) : List (Splice α) → List α
  | [] => l
  | c :: cuts => before l cuts c.start ++ c.text ++ l.drop c.till

/-- Where a position has come. -/
def pos (l : List α) (cuts : List (Splice α)) (p : ℕ) : ℕ := (before l cuts p).length

/-- The cuts are in the list and apart, the last one first. -/
structure Ordered (l : List α) (cuts : List (Splice α)) : Prop where
  apart : cuts.Pairwise fun c c' => c'.till ≤ c.start ∧ c'.start < c.start
  inRange : ∀ c ∈ cuts, c.start ≤ c.till ∧ c.till ≤ l.length

/-- The cuts are all before a position. -/
def AllBefore (cuts : List (Splice α)) (p : ℕ) : Prop := ∀ c ∈ cuts, c.till ≤ p ∧ c.start < p

/-- A position is inside of no cut. -/
def Outside (cuts : List (Splice α)) (p : ℕ) : Prop := ∀ c ∈ cuts, p ≤ c.start ∨ c.till ≤ p

variable {l : List α} {c : Splice α} {cuts : List (Splice α)} {p q : ℕ}

theorem AllBefore.mono (h : AllBefore cuts p) (hpq : p ≤ q) : AllBefore cuts q := fun c hc =>
  ⟨(h c hc).1.trans hpq, (h c hc).2.trans_le hpq⟩

theorem Ordered.tail (h : Ordered l (c :: cuts)) : Ordered l cuts :=
  ⟨(List.pairwise_cons.1 h.apart).2, fun c hc => h.inRange c (List.mem_cons_of_mem _ hc)⟩

theorem Ordered.allBefore (h : Ordered l (c :: cuts)) : AllBefore cuts c.start := fun c' hc' =>
  (List.pairwise_cons.1 h.apart).1 c' hc'

theorem drop_eq_append {k : ℕ} (hk : k ≤ p) (l : List α) :
    l.drop k = (l.take p).drop k ++ l.drop p := by
  have hsum : k + (p - k) = p := Nat.add_sub_cancel' hk
  calc l.drop k = (l.drop k).take (p - k) ++ (l.drop k).drop (p - k) :=
        (List.take_append_drop ..).symm
    _ = (l.take p).drop k ++ l.drop p := by rw [List.take_drop, List.drop_drop, hsum]

/-- **Behind all the cuts nothing is changed.** -/
theorem before_of_le (h : AllBefore cuts p) (hpq : p ≤ q) :
    before l cuts q = before l cuts p ++ (l.take q).drop p := by
  have htake : l.take p = (l.take q).take p := by rw [List.take_take, Nat.min_eq_left hpq]
  cases cuts with
  | nil =>
    rw [before, before, htake, List.take_append_drop]
  | cons c cuts =>
    obtain ⟨htill, hstart⟩ := h c List.mem_cons_self
    rw [before, before, if_pos (hstart.trans_le hpq), if_pos hstart,
      drop_eq_append htill (l.take q), ← htake]
    simp only [List.append_assoc]

theorem whole_eq (h : AllBefore cuts p) : whole l cuts = before l cuts p ++ l.drop p := by
  cases cuts with
  | nil => exact (List.take_append_drop p l).symm
  | cons c cuts =>
    obtain ⟨htill, hstart⟩ := h c List.mem_cons_self
    rw [whole, before, if_pos hstart, drop_eq_append htill l]
    simp only [List.append_assoc]

theorem pos_of_le (h : AllBefore cuts p) (hpq : p ≤ q) (hq : q ≤ l.length) :
    pos l cuts q = pos l cuts p + (q - p) := by
  rw [pos, before_of_le h hpq, List.length_append, List.length_drop, List.length_take,
    Nat.min_eq_left hq, pos]

theorem pos_cons_of_le (hp : p ≤ c.start) : pos l (c :: cuts) p = pos l cuts p := by
  rw [pos, before, if_neg (Nat.not_lt.2 hp), pos]

theorem pos_cons_of_lt (hp : c.start < p) (hq : p ≤ l.length) :
    pos l (c :: cuts) p = pos l cuts c.start + c.text.length + (p - c.till) := by
  rw [pos, before, if_pos hp, List.length_append, List.length_append, List.length_drop,
    List.length_take, Nat.min_eq_left hq, pos]

/-- **A position outside of the cuts keeps its order with those after it.** -/
theorem pos_le_pos (hout : Outside cuts p) (hpq : p ≤ q) (hq : q ≤ l.length) :
    pos l cuts p ≤ pos l cuts q := by
  induction cuts generalizing p q with
  | nil =>
    rw [pos, pos, before, before, List.length_take, List.length_take]
    omega
  | cons c cuts ih =>
    have htail : Outside cuts p := fun c' hc' => hout c' (List.mem_cons_of_mem _ hc')
    by_cases hstart : c.start < q
    · rw [pos_cons_of_lt hstart hq]
      rcases hout c List.mem_cons_self with hp | hp
      · rw [pos_cons_of_le hp]
        have hle := ih htail hp (hstart.le.trans hq)
        omega
      · by_cases hp' : c.start < p
        · rw [pos_cons_of_lt hp' (hpq.trans hq)]
          omega
        · rw [pos_cons_of_le (Nat.not_lt.1 hp')]
          have hle := ih htail (Nat.not_lt.1 hp') (hstart.le.trans hq)
          omega
    · rw [pos_cons_of_le (Nat.not_lt.1 hstart), pos_cons_of_le (hpq.trans (Nat.not_lt.1 hstart))]
      exact ih htail hpq hq

/-- Up to a later position there is the text of a cut, where its start has come. -/
theorem prefix_before (h : Ordered l cuts) (hc : c ∈ cuts) (hp : c.start < p) :
    before l cuts c.start ++ c.text <+: before l cuts p := by
  induction cuts generalizing p with
  | nil => exact absurd hc List.not_mem_nil
  | cons d cuts ih =>
    rcases List.mem_cons.1 hc with rfl | hc'
    · rw [before, before, if_neg (Nat.lt_irrefl _), if_pos hp]
      exact List.prefix_append ..
    · have hlt := (h.allBefore c hc').2
      rw [before, before, if_neg (Nat.not_lt.2 hlt.le)]
      split_ifs
      · rw [List.append_assoc]
        exact (ih h.tail hc' hlt).trans (List.prefix_append ..)
      · exact ih h.tail hc' hp

/-- **In the end the text of a cut stands where its start has come.** -/
theorem slice_whole (h : Ordered l cuts) (hc : c ∈ cuts) :
    slice (whole l cuts) (pos l cuts c.start) c.text.length = c.text := by
  have hprefix : before l cuts c.start ++ c.text <+: whole l cuts := by
    cases cuts with
    | nil => exact absurd hc List.not_mem_nil
    | cons d cuts =>
      rcases List.mem_cons.1 hc with rfl | hc'
      · rw [whole, before, if_neg (Nat.lt_irrefl _)]
        exact List.prefix_append ..
      · have hlt := (h.allBefore c hc').2
        rw [whole, before, if_neg (Nat.not_lt.2 hlt.le), List.append_assoc]
        exact (prefix_before h.tail hc' hlt).trans (List.prefix_append ..)
  obtain ⟨rest, hrest⟩ := hprefix
  rw [← hrest, slice, pos, List.append_assoc, List.drop_left, List.take_left]

end Splice

end Machinery
