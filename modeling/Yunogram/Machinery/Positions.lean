import Mathlib

/-!
# Machinery/Positions — lists changed at positions

What is kept of a list at some of its positions.  Erasing a position, where all up to it are still
kept, keeps the others; so positions are erased with the last one first.
-/

namespace Machinery

variable {α : Type*} {l : List α} {keep keep' : ℕ → Bool} {i : ℕ}

/-- The elements at the positions that are kept. -/
def keepAt (keep : ℕ → Bool) (l : List α) : List α :=
  (l.zipIdx.filter fun x => keep x.2).map Prod.fst

theorem keepAt_cons (keep : ℕ → Bool) (a : α) (l : List α) :
    keepAt keep (a :: l) =
      if keep 0 then a :: keepAt (fun i => keep (i + 1)) l
      else keepAt (fun i => keep (i + 1)) l := by
  have hrest : ((l.zipIdx 1).filter fun x => keep x.2).map Prod.fst =
      keepAt (fun i => keep (i + 1)) l := by
    rw [keepAt, List.zipIdx_succ, List.filter_map, List.map_map]
    rfl
  rw [keepAt, List.zipIdx_cons, List.filter_cons]
  split_ifs
  · rw [List.map_cons, hrest]
  · exact hrest

theorem keepAt_true (l : List α) : keepAt (fun _ => true) l = l := by
  rw [keepAt, List.filter_true, List.zipIdx_map_fst]

theorem keepAt_congr (h : ∀ i < l.length, keep i = keep' i) : keepAt keep l = keepAt keep' l := by
  refine congrArg (List.map Prod.fst) (List.filter_congr fun x hmem => h x.2 ?_)
  have hlt := List.snd_lt_of_mem_zipIdx hmem
  omega

/-- **A position is erased** where all up to it are kept. -/
theorem eraseIdx_keepAt (hlt : i < l.length) (hkept : ∀ j ≤ i, keep j) :
    (keepAt keep l).eraseIdx i = keepAt (fun j => keep j && !decide (j = i)) l := by
  induction l generalizing keep i with
  | nil => exact absurd hlt (Nat.not_lt_zero i)
  | cons a l ih =>
    rw [keepAt_cons, keepAt_cons, if_pos (hkept 0 (Nat.zero_le i))]
    cases i with
    | zero =>
      rw [List.eraseIdx_zero, List.tail_cons, if_neg (by simp)]
      exact keepAt_congr fun j _ => by simp
    | succ i =>
      rw [List.length_cons, Nat.succ_lt_succ_iff] at hlt
      rw [List.eraseIdx_cons_succ, ih hlt fun j hle => hkept (j + 1) (Nat.succ_le_succ hle),
        if_pos (by simp [hkept 0 (Nat.zero_le _)])]
      congr 1
      exact keepAt_congr fun j _ => by simp

/-- The positions stay where they are when one of the elements is changed. -/
theorem zipIdx_modify (l : List α) (i : ℕ) (change : α → α) :
    (l.modify i change).zipIdx =
      l.zipIdx.map fun x => (if x.2 = i then change x.1 else x.1, x.2) := by
  refine List.ext_getElem? fun j => ?_
  rw [List.getElem?_map, List.getElem?_zipIdx, List.getElem?_zipIdx, List.getElem?_modify]
  cases l[j]? with
  | none => rfl
  | some a =>
    simp only [Option.map_some, Nat.zero_add]
    by_cases hij : i = j
    · simp [hij]
    · simp [hij, Ne.symm hij]

/-- A fold that no element of a list takes part in. -/
theorem foldl_eq_self {β : Type*} {step : β → α → β} {b : β} (h : ∀ x ∈ l, step b x = b) :
    l.foldl step b = b := by
  induction l with
  | nil => rfl
  | cons x l ih =>
    obtain ⟨hx, h⟩ := List.forall_mem_cons.1 h
    rw [List.foldl_cons, hx, ih h]

/-- A fold that only one element of a list without repetition takes part in. -/
theorem foldl_eq_of_unique {β : Type*} {step : β → α → β} {a : α} {b : β} (hnodup : l.Nodup)
    (hmem : a ∈ l) (hother : ∀ x ∈ l, x ≠ a → step b x = b)
    (hother' : ∀ x ∈ l, x ≠ a → step (step b a) x = step b a) : l.foldl step b = step b a := by
  obtain ⟨front, back, rfl⟩ := List.append_of_mem hmem
  obtain ⟨-, hback, hfront⟩ := List.nodup_append.1 hnodup
  have hnotBack := (List.nodup_cons.1 hback).1
  rw [List.foldl_append, List.foldl_cons, foldl_eq_self (l := front), foldl_eq_self (l := back)]
  · exact fun x hx => hother' x (by simp [hx]) fun heq => hnotBack (heq ▸ hx)
  · exact fun x hx => hother x (by simp [hx]) fun heq =>
      hfront x hx a (List.mem_cons_self ..) heq

/-- Conditions that agree on a list take the same elements of its front. -/
theorem takeWhile_congr {p q : α → Bool} (h : ∀ a ∈ l, p a = q a) :
    l.takeWhile p = l.takeWhile q := by
  induction l with
  | nil => rfl
  | cons a l ih =>
    obtain ⟨ha, h⟩ := List.forall_mem_cons.1 h
    rw [List.takeWhile_cons, List.takeWhile_cons, ha, ih h]

/-- An element is put between those before a position and the others. -/
theorem insertIdx_eq_take_append_drop (h : i ≤ l.length) (a : α) :
    l.insertIdx i a = l.take i ++ a :: l.drop i := by
  induction l generalizing i with
  | nil =>
    obtain rfl := Nat.le_zero.1 h
    rfl
  | cons b l ih =>
    cases i with
    | zero => rfl
    | succ i =>
      rw [List.insertIdx_succ_cons, ih (Nat.le_of_succ_le_succ h), List.take_succ_cons,
        List.drop_succ_cons, List.cons_append]

end Machinery
