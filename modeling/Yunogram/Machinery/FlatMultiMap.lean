import Mathlib

/-!
# Machinery/FlatMultiMap — pairs kept as a vector sorted by key

`FlatMultiMap κ ν` is a list of key–value pairs sorted by key, where a key may repeat.  A pair is
put behind those of its key, and the pairs are taken from the front, so that the front has the
smallest key. -/

namespace Machinery

variable {κ ν : Type*} [LinearOrder κ]

/-- Pairs in a vector that is sorted by key. -/
structure FlatMultiMap (κ ν : Type*) [LinearOrder κ] where
  entries : List (κ × ν)
  sorted : entries.Pairwise fun a b => a.1 ≤ b.1

namespace FlatMultiMap

/-- The map with no entry. -/
def empty : FlatMultiMap κ ν := ⟨[], List.Pairwise.nil⟩

/-- The number of entries. -/
def size (m : FlatMultiMap κ ν) : ℕ := m.entries.length

/-- The entry with the smallest key. -/
def front? (m : FlatMultiMap κ ν) : Option (κ × ν) := m.entries.head?

/-- The map without its front. -/
def popFront (m : FlatMultiMap κ ν) : FlatMultiMap κ ν := ⟨m.entries.tail, m.sorted.tail⟩

instance : Membership (κ × ν) (FlatMultiMap κ ν) := ⟨fun m e => e ∈ m.entries⟩

theorem mem_def {m : FlatMultiMap κ ν} {e : κ × ν} : e ∈ m ↔ e ∈ m.entries := Iff.rfl

theorem not_mem_empty (e : κ × ν) : e ∉ (empty : FlatMultiMap κ ν) := List.not_mem_nil

/-- A pair goes behind those whose key is not greater. -/
def emplace (m : FlatMultiMap κ ν) (k : κ) (v : ν) : FlatMultiMap κ ν where
  entries :=
    m.entries.takeWhile (fun e => e.1 ≤ k) ++ (k, v) :: m.entries.dropWhile fun e => e.1 ≤ k
  sorted := by
    have hsorted := m.sorted
    generalize m.entries = l at hsorted ⊢
    induction l with
    | nil => exact List.pairwise_singleton _ _
    | cons e l ih =>
      obtain ⟨he, hl⟩ := List.pairwise_cons.mp hsorted
      by_cases hk : e.1 ≤ k
      · rw [List.takeWhile_cons_of_pos (by simpa using hk),
          List.dropWhile_cons_of_pos (by simpa using hk), List.cons_append]
        refine List.pairwise_cons.mpr ⟨fun x hx => ?_, ih hl⟩
        rcases List.mem_append.mp hx with hx | hx
        · exact he x (List.takeWhile_subset _ hx)
        · rcases List.mem_cons.mp hx with rfl | hx
          · exact hk
          · exact he x (List.dropWhile_subset _ hx)
      · rw [List.takeWhile_cons_of_neg (by simpa using hk),
          List.dropWhile_cons_of_neg (by simpa using hk), List.nil_append]
        refine List.pairwise_cons.mpr ⟨fun x hx => ?_, hsorted⟩
        rcases List.mem_cons.mp hx with rfl | hx
        · exact (not_le.mp hk).le
        · exact (not_le.mp hk).le.trans (he x hx)

variable {m : FlatMultiMap κ ν} {e e' : κ × ν} {k : κ} {v : ν}

/-- **An emplaced pair is there, with what was there before.** -/
theorem mem_emplace : e ∈ m.emplace k v ↔ e = (k, v) ∨ e ∈ m := by
  rw [mem_def, mem_def, emplace, List.mem_append, List.mem_cons, or_left_comm, ← List.mem_append,
    List.takeWhile_append_dropWhile]

theorem size_emplace : (m.emplace k v).size = m.size + 1 := by
  rw [size, size, emplace, List.length_append, List.length_cons, ← Nat.add_assoc,
    ← List.length_append, List.takeWhile_append_dropWhile]

/-- **The front is before the rest.** -/
theorem mem_iff_of_front (h : m.front? = some e) : e' ∈ m ↔ e' = e ∨ e' ∈ m.popFront := by
  obtain ⟨l, hl⟩ := List.head?_eq_some_iff.mp h
  show e' ∈ m.entries ↔ e' = e ∨ e' ∈ m.entries.tail
  rw [hl, List.mem_cons, List.tail_cons]

theorem size_popFront (h : m.front? = some e) : m.popFront.size + 1 = m.size := by
  obtain ⟨l, hl⟩ := List.head?_eq_some_iff.mp h
  show m.entries.tail.length + 1 = m.entries.length
  rw [hl, List.length_cons, List.tail_cons]

/-- **The front has the smallest key.** -/
theorem front_le (h : m.front? = some e) (he' : e' ∈ m) : e.1 ≤ e'.1 := by
  obtain ⟨l, hl⟩ := List.head?_eq_some_iff.mp h
  rw [mem_def, hl, List.mem_cons] at he'
  rcases he' with rfl | he'
  · exact le_refl _
  · exact (List.pairwise_cons.mp (hl ▸ m.sorted)).1 e' he'

theorem not_mem_of_front (h : m.front? = none) : e ∉ m := by
  rw [mem_def, List.head?_eq_none_iff.mp h]
  exact List.not_mem_nil

end FlatMultiMap

end Machinery
