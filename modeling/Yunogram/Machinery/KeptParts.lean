import Mathlib

/-!
# Machinery/KeptParts — lists put together of what is kept of their parts

Each part of a list is kept as a sublist.  What is put together of them is a sublist of the list,
and it is the whole list exactly when every part is kept whole. -/

namespace Machinery

variable {α β : Type*}

theorem append_eq_append_iff {a' a b' b : List α} (ha : a'.Sublist a) (hb : b'.Sublist b) :
    a' ++ b' = a ++ b ↔ a' = a ∧ b' = b := by
  refine ⟨fun h => ?_, fun ⟨ha, hb⟩ => by rw [ha, hb]⟩
  have hlength := congrArg List.length h
  rw [List.length_append, List.length_append] at hlength
  have hfront := ha.length_le
  have hback := hb.length_le
  exact ⟨ha.eq_of_length (by omega), hb.eq_of_length (by omega)⟩

/-- **The parts kept make up the list exactly when each is kept whole.** -/
theorem flatMap_eq_flatMap_iff {l : List β} {f g : β → List α}
    (h : ∀ x ∈ l, (f x).Sublist (g x)) :
    l.flatMap f = l.flatMap g ↔ ∀ x ∈ l, f x = g x := by
  induction l with
  | nil => simp
  | cons x rest ih =>
    have hrest : ∀ y ∈ rest, (f y).Sublist (g y) := fun y hy => h y (by simp [hy])
    rw [List.flatMap_cons, List.flatMap_cons,
      append_eq_append_iff (h x (by simp)) (List.Sublist.flatMap_right rest hrest), ih hrest,
      List.forall_mem_cons]

end Machinery
