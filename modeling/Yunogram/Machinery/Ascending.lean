import Mathlib

/-!
# Machinery/Ascending — where a sequence stops ascending

A list ascends when each element is below the next.  `afterDescent` is what follows the first element
that is not, `none` when there is no such element; so a list is an ascending list and what is after
its descent.
-/

namespace Machinery

variable {α : Type*} [LinearOrder α] {l l' : List α}

/-- Each element is below the next. -/
abbrev Ascending (l : List α) : Prop := l.IsChain (· < ·)

/-- What follows the first element that is not below the next. -/
def afterDescent : List α → Option (List α)
  | a :: b :: l => if b ≤ a then some (b :: l) else afterDescent (b :: l)
  | _ => none

/-- **A list without a descent ascends.** -/
theorem afterDescent_eq_none : afterDescent l = none ↔ Ascending l := by
  fun_induction afterDescent l with
  | case1 a b l h => simp [h]
  | case2 a b l h ih => simp [ih, not_le.mp h]
  | case3 l h =>
    rcases l with _ | ⟨a, _ | ⟨b, l⟩⟩
    · exact iff_of_true rfl .nil
    · exact iff_of_true rfl (.singleton a)
    · exact absurd rfl (h a b l)

/-- **What is after a descent** follows an ascending list, whose last element is not below it. -/
theorem afterDescent_eq_some :
    afterDescent l = some l' ↔ ∃ front a b rest, l = front ++ a :: l' ∧ l' = b :: rest ∧ b ≤ a ∧
      Ascending (front ++ [a]) := by
  fun_induction afterDescent l with
  | case1 a b l h =>
    constructor
    · intro heq
      exact ⟨[], a, b, l, by rw [Option.some.inj heq, List.nil_append],
        (Option.some.inj heq).symm, h, .singleton a⟩
    · rintro ⟨_ | ⟨c, front⟩, a', b', rest, hl, rfl, hle, hascending⟩
      · exact congrArg some (List.cons.inj hl).2
      · obtain ⟨rfl, htail⟩ := List.cons.inj hl
        rcases front with _ | ⟨d, front⟩
        · obtain ⟨rfl, -⟩ := List.cons.inj htail
          exact absurd (List.isChain_cons_cons.mp hascending).1 (not_lt.mpr h)
        · obtain ⟨rfl, -⟩ := List.cons.inj htail
          exact absurd (List.isChain_cons_cons.mp hascending).1 (not_lt.mpr h)
  | case2 a b l h ih =>
    rw [ih]
    constructor
    · rintro ⟨front, a', b', rest, hl, hl', hle, hascending⟩
      refine ⟨a :: front, a', b', rest, by rw [hl, List.cons_append], hl', hle, ?_⟩
      rcases front with _ | ⟨d, front⟩
      · obtain ⟨rfl, -⟩ := List.cons.inj hl
        exact .cons_cons (not_le.mp h) hascending
      · obtain ⟨rfl, -⟩ := List.cons.inj hl
        exact .cons_cons (not_le.mp h) hascending
    · rintro ⟨_ | ⟨c, front⟩, a', b', rest, hl, rfl, hle, hascending⟩
      · obtain ⟨rfl, htail⟩ := List.cons.inj hl
        obtain ⟨rfl, -⟩ := List.cons.inj htail
        exact absurd hle h
      · obtain ⟨rfl, htail⟩ := List.cons.inj hl
        exact ⟨front, a', b', rest, htail, rfl, hle, hascending.tail⟩
  | case3 l h =>
    refine iff_of_false (fun heq => nomatch heq) ?_
    rintro ⟨_ | ⟨c, front⟩, a, b, rest, rfl, rfl, -, -⟩
    · exact h a b rest rfl
    · rcases front with _ | ⟨d, front⟩
      · exact h c a (b :: rest) rfl
      · exact h c d (front ++ a :: b :: rest) rfl

theorem not_ascending {front rest : List α} {a b : α} (h : b ≤ a) :
    ¬ Ascending (front ++ a :: b :: rest) := fun hascending =>
  absurd (List.isChain_cons_cons.mp hascending.right_of_append).1 (not_lt.mpr h)

/-- **Two ascending halves meet at the descent.** -/
theorem eq_of_descent {front rest front' back' : List α} {a b : α} (h : b ≤ a)
    (heq : front ++ a :: b :: rest = front' ++ back') (hfront : Ascending front')
    (hback : Ascending back') : front' = front ++ [a] := by
  rcases List.append_eq_append_iff.mp heq with ⟨between, rfl, hrest⟩ | ⟨between, rfl, rfl⟩
  · rcases between with _ | ⟨c, _ | ⟨d, between⟩⟩
    · rw [List.nil_append] at hrest
      exact absurd (hrest ▸ hback) fun hback => not_ascending h (hback : Ascending ([] ++ _))
    · rw [(List.cons.inj hrest).1]
    · obtain ⟨rfl, htail⟩ := List.cons.inj hrest
      obtain ⟨rfl, -⟩ := List.cons.inj htail
      exact absurd hfront (not_ascending h)
  · exact absurd hback (not_ascending h)

/-- Elements that are removed leave an ascending list. -/
theorem Ascending.sublist (h : Ascending l) (hsub : l'.Sublist l) : Ascending l' :=
  List.IsChain.sublist h hsub

end Machinery
