import Mathlib

/-!
# Machinery/TrimEdges — a list without what it does not need at its edges

What such a predicate holds of is left out at the end of a list, and on request at its front too.

* `exists_trimEdges` — only such elements are left out, and only at the edges.
* `trimEdges_trimEdges` — trimming twice is trimming once.
* `flatMap_trimEdges`, `any_trimEdges` — what no such element adds to stays the same. -/

namespace Machinery

variable {α β : Type*} (atFront : Bool) (p : α → Bool)

/-- The list without such elements at its end and, if asked for, at its front. -/
def trimEdges (l : List α) : List α := (if atFront then l.dropWhile p else l).rdropWhile p

@[simp] theorem trimEdges_nil : trimEdges atFront p [] = [] := by
  cases atFront <;> simp [trimEdges]

/-- An element that stays keeps its place at the front. -/
theorem rdropWhile_cons_of_neg {p : α → Bool} {a : α} (h : p a = false) (l : List α) :
    (a :: l).rdropWhile p = a :: l.rdropWhile p := by
  rw [List.rdropWhile, List.rdropWhile, List.reverse_cons, List.dropWhile_append]
  split
  · next hnil => simp [List.isEmpty_iff.1 hnil, h]
  · simp

/-- Only such elements are left out, and only at the edges. -/
theorem exists_trimEdges (l : List α) :
    ∃ front back, l = front ++ trimEdges atFront p l ++ back ∧
      (∀ a ∈ front, p a) ∧ ∀ a ∈ back, p a := by
  have hback : ∀ m : List α, ∃ back, m = m.rdropWhile p ++ back ∧ ∀ a ∈ back, p a := by
    intro m
    refine ⟨(m.reverse.takeWhile p).reverse, ?_, fun a ha => ?_⟩
    · rw [List.rdropWhile, ← List.reverse_append, List.takeWhile_append_dropWhile,
        List.reverse_reverse]
    · exact List.mem_takeWhile_imp (List.mem_reverse.1 ha)
  cases atFront
  · obtain ⟨back, hl, hback⟩ := hback l
    exact ⟨[], back, by simpa [trimEdges] using hl, by simp, hback⟩
  · obtain ⟨back, hl, hback⟩ := hback (l.dropWhile p)
    refine ⟨l.takeWhile p, back, ?_, fun a ha => List.mem_takeWhile_imp ha, hback⟩
    rw [trimEdges, if_pos rfl, List.append_assoc, ← hl, List.takeWhile_append_dropWhile]

theorem trimEdges_sublist (l : List α) : (trimEdges atFront p l).Sublist l := by
  obtain ⟨front, back, hl, -, -⟩ := exists_trimEdges atFront p l
  conv_rhs => rw [hl]
  exact (List.sublist_append_right _ _).trans (List.sublist_append_left _ _)

theorem mem_of_mem_trimEdges {l : List α} {a : α} (h : a ∈ trimEdges atFront p l) : a ∈ l :=
  (trimEdges_sublist atFront p l).mem h

/-- Nothing is left of a list exactly when there are only such elements. -/
theorem trimEdges_eq_nil_iff {l : List α} : trimEdges atFront p l = [] ↔ ∀ a ∈ l, p a := by
  refine ⟨fun h => ?_, fun h => ?_⟩
  · obtain ⟨front, back, hl, hfront, hback⟩ := exists_trimEdges atFront p l
    intro a ha
    rw [h] at hl
    rw [hl, List.append_nil] at ha
    rcases List.mem_append.1 ha with ha | ha
    · exact hfront a ha
    · exact hback a ha
  · rw [List.eq_nil_iff_forall_not_mem]
    intro a ha
    have hall : ∀ b ∈ (if atFront then l.dropWhile p else l), p b := by
      intro b hb
      split at hb
      · exact h b ((List.dropWhile_sublist p).mem hb)
      · exact h b hb
    rw [trimEdges, List.rdropWhile_eq_nil_iff.2 hall] at ha
    exact List.not_mem_nil ha

/-- **Trimming twice is trimming once.** -/
theorem trimEdges_trimEdges (l : List α) :
    trimEdges atFront p (trimEdges atFront p l) = trimEdges atFront p l := by
  cases atFront
  · exact List.rdropWhile_idempotent p l
  · have hfront : (trimEdges true p l).dropWhile p = trimEdges true p l := by
      rcases hm : trimEdges true p l with _ | ⟨a, m⟩
      · rfl
      · obtain ⟨back, hback⟩ := List.rdropWhile_prefix p (l.dropWhile p)
        have hl : l.dropWhile p = a :: (m ++ back) := by
          rw [← hback, ← List.cons_append, ← hm, trimEdges, if_pos rfl]
        have ha : p a = false := by
          have hhead := List.head_dropWhile_not p (l := l) (by simp [hl])
          simpa [hl] using hhead
        rw [List.dropWhile_cons_of_neg (by simp [ha])]
    rw [trimEdges, if_pos rfl, hfront]
    exact List.rdropWhile_idempotent p _

/-- What no such element adds to is the same of the trimmed list. -/
theorem flatMap_trimEdges {f : α → List β} {l : List α} (h : ∀ a ∈ l, p a → f a = []) :
    (trimEdges atFront p l).flatMap f = l.flatMap f := by
  obtain ⟨front, back, hl, hfront, hback⟩ := exists_trimEdges atFront p l
  have hnil : ∀ m : List α, (∀ a ∈ m, a ∈ l) → (∀ a ∈ m, p a) → m.flatMap f = [] := by
    intro m hmem hm
    rw [List.flatMap_eq_nil_iff]
    exact fun a ha => h a (hmem a ha) (hm a ha)
  conv_rhs => rw [hl]
  rw [List.flatMap_append, List.flatMap_append,
    hnil front (fun a ha => by rw [hl]; simp [ha]) hfront,
    hnil back (fun a ha => by rw [hl]; simp [ha]) hback, List.nil_append, List.append_nil]

/-- A test that no such element passes says the same of the trimmed list. -/
theorem any_trimEdges {f : α → Bool} {l : List α} (h : ∀ a ∈ l, p a → f a = false) :
    (trimEdges atFront p l).any f = l.any f := by
  obtain ⟨front, back, hl, hfront, hback⟩ := exists_trimEdges atFront p l
  have hnone : ∀ m : List α, (∀ a ∈ m, a ∈ l) → (∀ a ∈ m, p a) → m.any f = false := by
    intro m hmem hm
    rw [List.any_eq_false]
    exact fun a ha => by simp [h a (hmem a ha) (hm a ha)]
  conv_rhs => rw [hl]
  rw [List.any_append, List.any_append,
    hnone front (fun a ha => by rw [hl]; simp [ha]) hfront,
    hnone back (fun a ha => by rw [hl]; simp [ha]) hback, Bool.false_or, Bool.or_false]

end Machinery
