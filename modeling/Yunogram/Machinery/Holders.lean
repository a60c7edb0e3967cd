import Mathlib

/-!
# Machinery/Holders — flags that are set while someone holds them

A table of flags, and for each party the flag that it holds, if any.  `Exclusive` says that a flag
is set exactly while one party holds it.  Taking a flag that is not set and giving one back keep it;
a party that forgets what it holds does not.
-/

namespace Machinery

variable {ι σ : Type*} {flags : ι → Bool} {holds : σ → Option ι} {i : ι} {a : σ}

/-- **A flag is set exactly while one party holds it.** -/
structure Exclusive (flags : ι → Bool) (holds : σ → Option ι) : Prop where
  set_iff : ∀ i, flags i = true ↔ ∃ a, holds a = some i
  unique : ∀ i a b, holds a = some i → holds b = some i → a = b

/-- Nothing is held at the start. -/
theorem Exclusive.start : Exclusive (fun _ : ι => false) (fun _ : σ => none) where
  set_iff _ := ⟨fun h => (nomatch h), fun ⟨_, h⟩ => (nomatch h)⟩
  unique _ _ _ h := nomatch h

section

variable [DecidableEq σ]

/-- **A flag that is not set is taken.** -/
theorem Exclusive.take [DecidableEq ι] (h : Exclusive flags holds) (hflag : flags i = false)
    (hnone : holds a = none) :
    Exclusive (Function.update flags i true) (Function.update holds a (some i)) where
  set_iff j := by
    by_cases hj : j = i
    · rw [hj, Function.update_self]
      exact ⟨fun _ => ⟨a, Function.update_self ..⟩, fun _ => rfl⟩
    · rw [Function.update_of_ne hj, h.set_iff]
      refine exists_congr fun b => ?_
      by_cases hb : b = a
      · rw [hb, Function.update_self, hnone, Option.some.injEq]
        exact ⟨fun hnot => (nomatch hnot), fun hij => absurd hij.symm hj⟩
      · rw [Function.update_of_ne hb]
  unique j b c hb hc := by
    have hfree : ∀ d, holds d ≠ some i := fun d hd =>
      absurd ((h.set_iff i).mpr ⟨d, hd⟩) (by simp [hflag])
    rw [Function.update_apply] at hb hc
    split_ifs at hb hc with hba hca hca
    · rw [hba, hca]
    · exact absurd (Option.some.inj hb ▸ hc) (hfree c)
    · exact absurd (Option.some.inj hc ▸ hb) (hfree b)
    · exact h.unique j b c hb hc

/-- **A flag that is held is given back.** -/
theorem Exclusive.give [DecidableEq ι] (h : Exclusive flags holds) (hheld : holds a = some i) :
    Exclusive (Function.update flags i false) (Function.update holds a none) where
  set_iff j := by
    by_cases hj : j = i
    · rw [hj, Function.update_self]
      refine ⟨fun hnot => (nomatch hnot), fun ⟨b, hb⟩ => ?_⟩
      rw [Function.update_apply] at hb
      split_ifs at hb with hba
      exact absurd (h.unique i b a hb hheld) hba
    · rw [Function.update_of_ne hj, h.set_iff]
      refine exists_congr fun b => ?_
      by_cases hb : b = a
      · rw [hb, Function.update_self, hheld, Option.some.injEq]
        exact ⟨fun hij => absurd hij.symm hj, fun hnot => nomatch hnot⟩
      · rw [Function.update_of_ne hb]
  unique j b c hb hc := by
    rw [Function.update_apply] at hb hc
    split_ifs at hb hc
    exact h.unique j b c hb hc

/-- **What is held is not to be forgotten**: the flag would stay set for nobody. -/
theorem Exclusive.not_forget (h : Exclusive flags holds) (hheld : holds a = some i) :
    flags i = true ∧ ∀ b, Function.update holds a none b ≠ some i := by
  refine ⟨(h.set_iff i).mpr ⟨a, hheld⟩, fun b hb => ?_⟩
  rw [Function.update_apply] at hb
  split_ifs at hb with hba
  exact hba (h.unique i b a hb hheld)

end

end Machinery
