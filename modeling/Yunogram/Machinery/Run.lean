import Mathlib

/-!
# Machinery/Run — runs of a step function, and the rule for what holds along them

A machine is a step function `σ → ι → σ × List ω`: on an input it changes the state and emits
effects.  `run` folds it over a list of inputs and concatenates the effects.  `run_induction` is the
one induction every invariant of a run goes through: the invariant speaks about the inputs taken so
far, the state and all effects emitted so far, and a guard restricts the inputs a state may be
offered.  `everyState_iff` is for a condition on steps that is exact for a property of states.
`Advances` is for a value that is only ever replaced by one of a greater rank; `became` finds in a
run of a relation the step at which something came to be so. -/

namespace Machinery

variable {σ ι ω : Type*}

/-- The state a list of inputs leads to, and the effects emitted on the way. -/
def run (step : σ → ι → σ × List ω) (s : σ) : List ι → σ × List ω
  | [] => (s, [])
  | x :: xs => ((run step (step s x).1 xs).1, (step s x).2 ++ (run step (step s x).1 xs).2)

section

variable {step : σ → ι → σ × List ω} {s : σ}

@[simp] theorem run_nil : run step s [] = (s, []) := rfl

theorem run_cons (x : ι) (xs : List ι) :
    run step s (x :: xs)
      = ((run step (step s x).1 xs).1, (step s x).2 ++ (run step (step s x).1 xs).2) := rfl

/-- **A run of a concatenation is one run after the other.** -/
theorem run_append (xs ys : List ι) :
    run step s (xs ++ ys)
      = ((run step (run step s xs).1 ys).1, (run step s xs).2 ++ (run step (run step s xs).1 ys).2) := by
  induction xs generalizing s with
  | nil => simp
  | cons x xs ih => simp only [List.cons_append, run_cons, ih, List.append_assoc]

/-- **The last step of a run.** -/
theorem run_concat (xs : List ι) (x : ι) :
    run step s (xs ++ [x])
      = ((step (run step s xs).1 x).1, (run step s xs).2 ++ (step (run step s xs).1 x).2) := by
  rw [run_append, run_cons, run_nil, List.append_nil]

/-- Every input of a run meets the guard in the state it is offered to; the guard may also look at
the inputs taken before. -/
def Guarded (step : σ → ι → σ × List ω) (ok : List ι → σ → ι → Prop) (s : σ) (xs : List ι) : Prop :=
  ∀ ys x zs, xs = ys ++ x :: zs → ok ys (run step s ys).1 x

variable {ok : List ι → σ → ι → Prop}

theorem Guarded.nil : Guarded step ok s [] := fun ys x zs h => by simp at h

theorem Guarded.of_append {xs xs' : List ι} (h : Guarded step ok s (xs ++ xs')) :
    Guarded step ok s xs :=
  fun ys y zs hxs => h ys y (zs ++ xs') (by rw [hxs, List.append_assoc, List.cons_append])

theorem Guarded.last {xs : List ι} {x : ι} (h : Guarded step ok s (xs ++ [x])) :
    ok xs (run step s xs).1 x := h xs x [] rfl

theorem Guarded.concat {xs : List ι} {x : ι} (h : Guarded step ok s xs)
    (hx : ok xs (run step s xs).1 x) : Guarded step ok s (xs ++ [x]) := by
  intro ys y zs hxs
  rcases List.eq_nil_or_concat zs with rfl | ⟨zs, z, rfl⟩
  · obtain ⟨rfl, h'⟩ := List.append_inj' hxs rfl
    obtain rfl := (List.cons.inj h').1
    exact hx
  · have h' : xs ++ [x] = (ys ++ y :: zs) ++ [z] := by simpa using hxs
    exact h ys y zs (List.append_inj' h' rfl).1

/-- **What the start satisfies and every guarded step preserves holds of every guarded run.** -/
theorem run_induction (Inv : List ι → σ → List ω → Prop) (start : Inv [] s [])
    (preserve : ∀ xs s t x, Inv xs s t → ok xs s x →
      Inv (xs ++ [x]) (step s x).1 (t ++ (step s x).2))
    {xs : List ι} (h : Guarded step ok s xs) : Inv xs (run step s xs).1 (run step s xs).2 := by
  induction xs using List.reverseRecOn with
  | nil => exact start
  | append_singleton xs x ih =>
    rw [run_concat]
    exact preserve xs _ _ x (ih h.of_append) h.last

end

/-! ## Steps that can fail -/

/-- A run that stops at the first step that fails. -/
def runChecked {ε : Type*} (step : σ → ι → Except ε (σ × List ω)) (s : σ) :
    List ι → Except ε (σ × List ω)
  | [] => .ok (s, [])
  | x :: xs =>
    match step s x with
    | .error e => .error e
    | .ok (s, out) => (runChecked step s xs).map fun (s, outs) => (s, out ++ outs)

/-- **Where no step fails that starts from the invariant, and each keeps it, no run fails.** -/
theorem runChecked_induction {ε : Type*} {step : σ → ι → Except ε (σ × List ω)} {s : σ}
    (Inv : List ι → σ → List ω → Prop) (start : Inv [] s [])
    (preserve : ∀ xs s t x, Inv xs s t →
      ∃ s' out, step s x = .ok (s', out) ∧ Inv (xs ++ [x]) s' (t ++ out))
    (xs : List ι) : ∃ s' t, runChecked step s xs = .ok (s', t) ∧ Inv xs s' t := by
  have hrun : ∀ ys s t, Inv ys s t →
      ∃ s' t', runChecked step s xs = .ok (s', t') ∧ Inv (ys ++ xs) s' (t ++ t') := by
    induction xs with
    | nil => exact fun ys s t h => ⟨s, [], rfl, by rwa [List.append_nil, List.append_nil]⟩
    | cons x xs ih =>
      intro ys s t h
      obtain ⟨s', out, hstep, h'⟩ := preserve ys s t x h
      obtain ⟨s'', outs, hrest, h''⟩ := ih (ys ++ [x]) s' (t ++ out) h'
      refine ⟨s'', out ++ outs, ?_, ?_⟩
      · rw [runChecked, hstep]
        dsimp only
        rw [hrest]
        rfl
      · rwa [List.append_assoc, List.append_assoc] at h''
  exact hrun [] s [] start

section

variable {ε : Type*} {step : σ → ι → Except ε (σ × List ω)} {s s' s'' : σ} {xs : List ι} {x : ι}
  {t out : List ω} {e : ε}

/-- **The last step of a run.** -/
theorem runChecked_concat (h : runChecked step s xs = .ok (s', t)) (x : ι) :
    runChecked step s (xs ++ [x]) = (step s' x).map fun r => (r.1, t ++ r.2) := by
  induction xs generalizing s t with
  | nil =>
    obtain ⟨rfl, rfl⟩ := Prod.mk.inj (Except.ok.inj h)
    rw [List.nil_append, runChecked]
    cases step s x with
    | error e => rfl
    | ok r =>
      show Except.ok (r.1, r.2 ++ []) = Except.ok (r.1, [] ++ r.2)
      rw [List.append_nil, List.nil_append]
  | cons y xs ih =>
    rw [runChecked] at h
    rw [List.cons_append, runChecked]
    cases hstep : step s y with
    | error e => rw [hstep] at h; exact nomatch h
    | ok r =>
      rw [hstep] at h
      dsimp only at h ⊢
      cases hrest : runChecked step r.1 xs with
      | error e => rw [hrest] at h; exact nomatch h
      | ok r' =>
        rw [hrest] at h
        obtain ⟨rfl, rfl⟩ := Prod.mk.inj (Except.ok.inj h)
        rw [ih hrest]
        cases step r'.1 x with
        | error e => rfl
        | ok r'' =>
          show Except.ok (r''.1, r.2 ++ (r'.2 ++ r''.2)) = Except.ok (r''.1, r.2 ++ r'.2 ++ r''.2)
          rw [List.append_assoc]

/-- **What the start satisfies and every step that succeeds preserves holds where a run ends.** -/
theorem runChecked_invariant (Inv : σ → Prop) (start : Inv s)
    (preserve : ∀ s x s' out, Inv s → step s x = .ok (s', out) → Inv s')
    (h : runChecked step s xs = .ok (s', t)) : Inv s' := by
  induction xs generalizing s t with
  | nil =>
    obtain ⟨rfl, -⟩ := Prod.mk.inj (Except.ok.inj h)
    exact start
  | cons x xs ih =>
    rw [runChecked] at h
    cases hstep : step s x with
    | error e => rw [hstep] at h; exact nomatch h
    | ok r =>
      rw [hstep] at h
      dsimp only at h
      cases hrest : runChecked step r.1 xs with
      | error e => rw [hrest] at h; exact nomatch h
      | ok r' =>
        rw [hrest] at h
        obtain ⟨rfl, -⟩ := Prod.mk.inj (Except.ok.inj h)
        exact ih (preserve s x r.1 r.2 start hstep) hrest

/-- A run that failed stays failed. -/
theorem runChecked_append_error (h : runChecked step s xs = .error e) (ys : List ι) :
    runChecked step s (xs ++ ys) = .error e := by
  induction xs generalizing s with
  | nil => exact nomatch h
  | cons y xs ih =>
    rw [runChecked] at h
    rw [List.cons_append, runChecked]
    cases hstep : step s y with
    | error e' =>
      rw [hstep] at h
      exact congrArg _ (Except.error.inj h)
    | ok r =>
      rw [hstep] at h
      dsimp only at h ⊢
      cases hrest : runChecked step r.1 xs with
      | error e' =>
        rw [hrest] at h
        obtain rfl := Except.error.inj h
        rw [ih hrest]
        rfl
      | ok r' =>
        rw [hrest] at h
        exact nomatch h

end

/-! ## Steps that may not happen -/

section

/-- Something holds in every state of a run, which ends where a step does not happen. -/
def EveryState (step : σ → ι → Option σ) (P : σ → Prop) (s : σ) : List ι → Prop
  | [] => P s
  | x :: xs => P s ∧ ∀ s', step s x = some s' → EveryState step P s' xs

/-- Something holds of every step of a run, in the state it is taken from. -/
def EveryStep (step : σ → ι → Option σ) (C : σ → ι → Prop) (s : σ) : List ι → Prop
  | [] => True
  | x :: xs => C s x ∧ ∀ s', step s x = some s' → EveryStep step C s' xs

variable {step : σ → ι → Option σ} {Inv P : σ → Prop} {C : σ → ι → Prop} {s : σ}

/-- **A condition on steps that is exact for a property of states**: it keeps an invariant that
implies the property, and a step that does not meet it leads to a state without the property. -/
theorem everyState_iff (hsafe : ∀ s, Inv s → P s)
    (hkeep : ∀ s x s', Inv s → C s x → step s x = some s' → Inv s')
    (hbreak : ∀ s x, Inv s → ¬ C s x → ∃ s', step s x = some s' ∧ ¬ P s') (hs : Inv s)
    (xs : List ι) : EveryState step P s xs ↔ EveryStep step C s xs := by
  induction xs generalizing s with
  | nil => exact ⟨fun _ => trivial, fun _ => hsafe s hs⟩
  | cons x xs ih =>
    constructor
    · rintro ⟨-, hall⟩
      have hmeets : C s x := by
        by_contra hnot
        obtain ⟨s', hstep, hbad⟩ := hbreak s x hs hnot
        have hstate := hall s' hstep
        cases xs with
        | nil => exact hbad hstate
        | cons y ys => exact hbad hstate.1
      exact ⟨hmeets, fun s' hstep => (ih (hkeep s x s' hs hmeets hstep)).mp (hall s' hstep)⟩
    · rintro ⟨hmeets, hrest⟩
      exact ⟨hsafe s hs, fun s' hstep =>
        (ih (hkeep s x s' hs hmeets hstep)).mpr (hrest s' hstep)⟩

end

/-! ## Values that only move forward -/

section

variable {α β : Type*} [Preorder β]

/-- A value stays, or one of a greater rank replaces it. -/
def Advances (rank : α → β) (a b : α) : Prop := a = b ∨ rank a < rank b

variable {rank : α → β} {a b c : α}

theorem Advances.refl (a : α) : Advances rank a a := .inl rfl

theorem Advances.trans (h : Advances rank a b) (h' : Advances rank b c) : Advances rank a c := by
  rcases h with rfl | h
  · exact h'
  · rcases h' with rfl | h'
    · exact .inr h
    · exact .inr (h.trans h')

theorem Advances.rank_le (h : Advances rank a b) : rank a ≤ rank b := by
  rcases h with rfl | h
  · exact le_rfl
  · exact h.le

end

/-! ## Runs of a relation -/

/-- **What was not so and is so became so at some step.** -/
theorem became {α : Type*} {r : α → α → Prop} {p : α → Prop} {a b : α}
    (h : Relation.ReflTransGen r a b) (ha : ¬p a) (hb : p b) :
    ∃ x y, Relation.ReflTransGen r a x ∧ r x y ∧ Relation.ReflTransGen r y b ∧ ¬p x ∧ p y := by
  induction h with
  | refl => exact absurd hb ha
  | @tail x y hsteps hstep ih =>
    by_cases hx : p x
    · obtain ⟨x', y', hx', hstep', hy', hnot, hp⟩ := ih hx
      exact ⟨x', y', hx', hstep', hy'.tail hstep, hnot, hp⟩
    · exact ⟨x, y, hsteps, hstep, .refl, hx, hb⟩

end Machinery
