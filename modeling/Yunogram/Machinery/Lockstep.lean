import Yunogram.Machinery.Span

/-!
# Machinery/Lockstep — a loop that can fail next to one that cannot

What one step of the first keeps between the two, whenever it does not fail, holds after the loops;
and a loop fails only as one of its steps does.  Two loops of which both can fail are in step when
their steps fail together (`foldlM_related`).
-/

namespace Machinery

variable {ε : Type*} {α β γ : Type} {step : β → α → Except ε β} {list : List α} {b b' : β} {c : γ}

theorem of_bind_error {x : Except ε α} {f : α → Except ε β} {e : ε} (h : (x >>= f) = .error e) :
    x = .error e ∨ ∃ a, x = .ok a ∧ f a = .error e := by
  cases x with
  | error e' => exact .inl (congrArg Except.error (Except.error.inj h))
  | ok a => exact .inr ⟨a, rfl, h⟩

/-- **Two loops in step**, of which the first did not fail. -/
theorem foldlM_follows {other : γ → α → γ} {R : β → γ → Prop}
    (hstep : ∀ a ∈ list, ∀ b c b', R b c → step b a = .ok b' → R b' (other c a))
    (h : R b c) (hrun : list.foldlM step b = .ok b') : R b' (list.foldl other c) := by
  induction list generalizing b c with
  | nil =>
    obtain rfl := Except.ok.inj hrun
    exact h
  | cons a list ih =>
    rw [List.foldlM_cons] at hrun
    obtain ⟨next, hfirst, hrest⟩ := bind_ok hrun
    exact ih (fun a hmem => hstep a (List.mem_cons_of_mem _ hmem))
      (hstep a (List.mem_cons_self ..) b c next h hfirst) hrest

/-- **A loop fails as one of its steps does.** -/
theorem foldlM_error {E : ε → Prop} (hstep : ∀ a ∈ list, ∀ b e, step b a = .error e → E e) {e : ε}
    (hrun : list.foldlM step b = .error e) : E e := by
  induction list generalizing b with
  | nil => exact absurd hrun (fun h => nomatch h)
  | cons a list ih =>
    rw [List.foldlM_cons] at hrun
    rcases of_bind_error hrun with hfirst | ⟨next, -, hrest⟩
    · exact hstep a (List.mem_cons_self ..) b e hfirst
    · exact ih (fun a hmem => hstep a (List.mem_cons_of_mem _ hmem)) hrest

/-- **Two loops that fail together**, with related values while they do not. -/
theorem foldlM_related {f : β → α → Option β} {g : γ → α → Option γ} {R : β → γ → Prop}
    (hstep : ∀ a ∈ list, ∀ b c, R b c → Option.Rel R (f b a) (g c a)) (h : R b c) :
    Option.Rel R (list.foldlM f b) (list.foldlM g c) := by
  induction list generalizing b c with
  | nil => exact .some h
  | cons a list ih =>
    rw [List.foldlM_cons, List.foldlM_cons]
    have hfirst := hstep a List.mem_cons_self b c h
    revert hfirst
    generalize f b a = x
    generalize g c a = y
    intro hfirst
    cases hfirst with
    | some h => exact ih (fun a hmem => hstep a (List.mem_cons_of_mem _ hmem)) h
    | none => exact .none

theorem rel_imp {R S : β → γ → Prop} {x : Option β} {y : Option γ} (h : Option.Rel R x y)
    (himp : ∀ b c, R b c → S b c) : Option.Rel S x y := by
  cases h with
  | some h => exact .some (himp _ _ h)
  | none => exact .none

theorem rel_isSome {R : β → γ → Prop} {x : Option β} {y : Option γ} (h : Option.Rel R x y) :
    x.isSome = y.isSome := by
  cases h with
  | some h => rfl
  | none => rfl

end Machinery
