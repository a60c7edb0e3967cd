import Yunogram.Machinery.FlatMap

/-!
# Machinery/FlatTotals — what a sorted map adds up to, and loops over it

`total f m` is the sum of `f` over the values of a map.  What is stored under a key may be set aside
(`perm_erase`), so a total changes by what is put, replaced or taken out (`total_emplace`,
`total_assign`, `total_erase`).  A loop over the entries that changes, at each, no more than what is
stored under its key meets every value as it was (`foldl_entries`).
-/

namespace Machinery

namespace FlatMap

variable {κ ν : Type*} [LinearOrder κ] {m : FlatMap κ ν} {k : κ} {v w : ν}

theorem nodup_entries (m : FlatMap κ ν) : m.entries.Nodup := m.nodup_keys.of_map

/-- **A value that is stored, set aside.** -/
theorem perm_erase (h : m.find? k = some v) : m.entries.Perm ((k, v) :: (m.erase k).entries) := by
  have hnot : (k, v) ∉ (m.erase k).entries := fun hmem => by
    rw [← find?_eq_some, find?_erase_self] at hmem
    cases hmem
  refine (List.perm_ext_iff_of_nodup m.nodup_entries
    (List.nodup_cons.2 ⟨hnot, nodup_entries _⟩)).2 fun e => ?_
  rw [List.mem_cons, ← Prod.mk.eta (p := e), ← find?_eq_some, ← find?_eq_some, find?_erase]
  by_cases he : e.1 = k
  · rw [if_pos he, he, h]
    simp [eq_comm]
  · have hne : e ≠ (k, v) := fun heq => he (congrArg Prod.fst heq)
    simp [he, hne]

/-- There is one entry under a key that is stored, and none under another. -/
theorem filter_entries (m : FlatMap κ ν) (k : κ) :
    m.entries.filter (fun e => decide (e.1 = k)) = ((m.find? k).map (Prod.mk k)).toList := by
  have hnil : ∀ m : FlatMap κ ν, m.find? k = none →
      m.entries.filter (fun e => decide (e.1 = k)) = [] := fun m hnone =>
    List.filter_eq_nil_iff.2 fun e he heq => find?_eq_none.1 hnone
      (of_decide_eq_true heq ▸ List.mem_map_of_mem he)
  cases h : m.find? k with
  | none => exact hnil m h
  | some v =>
    have hperm := (perm_erase h).filter fun e => decide (e.1 = k)
    rw [List.filter_cons_of_pos (by simp), hnil _ (find?_erase_self m k)] at hperm
    exact List.perm_singleton.1 hperm

theorem erase_assign (m : FlatMap κ ν) (k : κ) (v : ν) : (m.assign k v).erase k = m.erase k :=
  ext_find? fun k' => by
    rw [find?_erase, find?_erase, find?_assign]
    split_ifs <;> rfl

/-! ## Totals -/

variable {M : Type*} [AddCommGroup M] (f : ν → M)

/-- The sum over the values. -/
def total (m : FlatMap κ ν) : M := (m.entries.map fun e => f e.2).sum

@[simp] theorem total_empty : (empty : FlatMap κ ν).total f = 0 := rfl

theorem total_eq (h : m.find? k = some v) : m.total f = f v + (m.erase k).total f := by
  rw [total, ((perm_erase h).map _).sum_eq, List.map_cons, List.sum_cons, total]

theorem total_emplace (h : m.find? k = none) (v : ν) :
    (m.emplace k v).total f = f v + m.total f := by
  rw [total, ((perm_emplace h v).map _).sum_eq, List.map_cons, List.sum_cons, total]

theorem total_erase (h : m.find? k = some v) : (m.erase k).total f = m.total f - f v := by
  rw [total_eq f h, add_sub_cancel_left]

theorem total_assign (h : m.find? k = some w) (v : ν) :
    (m.assign k v).total f = m.total f - f w + f v := by
  have hassign : (m.assign k v).find? k = some v := by rw [find?_assign, if_pos rfl]
  rw [total_eq f hassign, erase_assign, total_erase f h, add_comm]

theorem total_nonneg {g : ν → ℤ} (h : ∀ k v, m.find? k = some v → 0 ≤ g v) : 0 ≤ m.total g :=
  List.sum_nonneg (List.forall_mem_map.2 fun e he => h e.1 e.2 (find?_eq_some.2 he))

/-! ## Loops -/

/-- **A loop over the entries** whose step at a key changes no more than what is stored there. -/
theorem foldl_entries {β : Type*} (m : FlatMap κ ν) (read : β → FlatMap κ ν) (P : β → Prop)
    {step : β → κ × ν → β} {b : β} (hread : read b = m) (hb : P b)
    (hstep : ∀ b k v, m.find? k = some v → P b → (read b).find? k = some v →
      P (step b (k, v)) ∧ ∀ k' ≠ k, (read (step b (k, v))).find? k' = (read b).find? k') :
    P (m.entries.foldl step b) := by
  suffices H : ∀ (l : List (κ × ν)) (b : β), (l.map Prod.fst).Nodup → P b →
      (∀ e ∈ l, m.find? e.1 = some e.2 ∧ (read b).find? e.1 = some e.2) → P (l.foldl step b) from
    H m.entries b m.nodup_keys hb fun e he => by rwa [hread, and_self, find?_eq_some]
  intro l
  induction l with
  | nil => exact fun b _ hb _ => hb
  | cons e l ih =>
    intro b hnodup hb hl
    rw [List.map_cons, List.nodup_cons] at hnodup
    have hfirst := hl e List.mem_cons_self
    obtain ⟨hnext, hothers⟩ := hstep b e.1 e.2 hfirst.1 hb hfirst.2
    refine ih _ hnodup.2 hnext fun e' he' => ?_
    have hne : e'.1 ≠ e.1 := fun heq => hnodup.1 (heq ▸ List.mem_map_of_mem he')
    have hlater := hl e' (List.mem_cons_of_mem e he')
    exact ⟨hlater.1, (hothers e'.1 hne).trans hlater.2⟩

end FlatMap

end Machinery
