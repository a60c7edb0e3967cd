import Mathlib

/-!
# Machinery/FlatMap — a map kept as a vector sorted by key

`FlatMap κ ν` is a list of key–value pairs with strictly increasing keys, the order being a field:
an unsorted or repeating map cannot be built.  `find?` reads it as a partial function and
`FlatMap.ext` says nothing else matters, so every operation is specified by its `find?`:

* `emplace` keeps a value already stored (`find?_emplace`), `assign` replaces it (`find?_assign`);
* `erase`, `filter`, `mapValues` act pointwise;
* `dropFront n` removes the `n` smallest keys (`keys_dropFront`).
-/

namespace Machinery

variable {κ ν : Type*} [LinearOrder κ]

/-- A map whose entries are a vector strictly sorted by key. -/
@[ext] structure FlatMap (κ ν : Type*) [LinearOrder κ] where
  entries : List (κ × ν)
  sorted : entries.Pairwise fun a b => a.1 < b.1

namespace FlatMap

instance [DecidableEq ν] : DecidableEq (FlatMap κ ν) := fun m m' =>
  decidable_of_iff (m.entries = m'.entries) FlatMap.ext_iff.symm

/-! ## Reading -/

/-- The map with no entry. -/
def empty : FlatMap κ ν := ⟨[], List.Pairwise.nil⟩

instance : Inhabited (FlatMap κ ν) := ⟨empty⟩

/-- The value stored under a key. -/
def find? (m : FlatMap κ ν) (k : κ) : Option ν :=
  (m.entries.find? fun e => e.1 = k).map Prod.snd

/-- Whether a key is stored. -/
def contains (m : FlatMap κ ν) (k : κ) : Bool := (m.find? k).isSome

/-- The number of entries. -/
def size (m : FlatMap κ ν) : ℕ := m.entries.length

/-- Whether the map has no entry. -/
def isEmpty (m : FlatMap κ ν) : Bool := m.entries.isEmpty

/-- The stored keys, increasing. -/
def keys (m : FlatMap κ ν) : List κ := m.entries.map Prod.fst

/-- Two entries of a sorted vector with one key are one entry. -/
theorem eq_of_mem {l : List (κ × ν)} (hl : l.Pairwise fun a b => a.1 < b.1) {k : κ} {v w : ν}
    (hv : (k, v) ∈ l) (hw : (k, w) ∈ l) : v = w := by
  induction l with
  | nil => simp at hv
  | cons e l ih =>
    obtain ⟨he, hl⟩ := List.pairwise_cons.mp hl
    rcases List.mem_cons.mp hv with h | hv' <;> rcases List.mem_cons.mp hw with h' | hw'
    · exact (Prod.mk.inj (h.trans h'.symm)).2
    · exact absurd ((congrArg Prod.fst h).trans_lt (he _ hw')) (lt_irrefl k)
    · exact absurd ((congrArg Prod.fst h').trans_lt (he _ hv')) (lt_irrefl k)
    · exact ih hl hv' hw'

/-- **`find?` reads the entries.** -/
theorem find?_eq_some {m : FlatMap κ ν} {k : κ} {v : ν} :
    m.find? k = some v ↔ (k, v) ∈ m.entries := by
  constructor
  · intro h
    obtain ⟨⟨k', w⟩, he, rfl⟩ := Option.map_eq_some_iff.mp h
    have hk : k' = k := by simpa using List.find?_some he
    exact hk ▸ List.mem_of_find?_eq_some he
  · intro h
    have hsome : (m.entries.find? fun e => decide (e.1 = k)).isSome :=
      List.find?_isSome.mpr ⟨_, h, by simp⟩
    obtain ⟨⟨k', w⟩, he⟩ := Option.isSome_iff_exists.mp hsome
    have hk : k' = k := by simpa using List.find?_some he
    subst hk
    rw [find?, he, Option.map_some, eq_of_mem m.sorted (List.mem_of_find?_eq_some he) h]

theorem find?_eq_none {m : FlatMap κ ν} {k : κ} : m.find? k = none ↔ k ∉ m.keys := by
  rw [← not_iff_not, not_not, ← ne_eq, Option.ne_none_iff_exists']
  simp only [find?_eq_some, keys, List.mem_map, Prod.exists, exists_and_right, exists_eq_right]

theorem contains_iff {m : FlatMap κ ν} {k : κ} : m.contains k = true ↔ ∃ v, m.find? k = some v :=
  Option.isSome_iff_exists

theorem contains_eq_false {m : FlatMap κ ν} {k : κ} :
    m.contains k = false ↔ m.find? k = none := by simp [contains]

theorem mem_keys {m : FlatMap κ ν} {k : κ} : k ∈ m.keys ↔ ∃ v, m.find? k = some v := by
  rw [← Option.ne_none_iff_exists', ne_eq, find?_eq_none, not_not]

@[simp] theorem find?_empty (k : κ) : (empty : FlatMap κ ν).find? k = none := rfl

theorem isEmpty_iff {m : FlatMap κ ν} : m.isEmpty = true ↔ m.entries = [] :=
  List.isEmpty_iff

/-- Sorted vectors with the same entries are equal. -/
theorem eq_of_mem_iff {l l' : List (κ × ν)} (hl : l.Pairwise fun a b => a.1 < b.1)
    (hl' : l'.Pairwise fun a b => a.1 < b.1) (h : ∀ e, e ∈ l ↔ e ∈ l') : l = l' := by
  have hn : l.Nodup := hl.imp fun hab => fun h => lt_irrefl _ (h ▸ hab)
  have hn' : l'.Nodup := hl'.imp fun hab => fun h => lt_irrefl _ (h ▸ hab)
  refine List.Perm.eq_of_pairwise (fun a b _ _ hab hba => ?_) hl hl'
    ((List.perm_ext_iff_of_nodup hn hn').mpr h)
  exact absurd (lt_trans hab hba) (lt_irrefl _)

/-- **A map is its partial function.** -/
theorem ext_find? {m m' : FlatMap κ ν} (h : ∀ k, m.find? k = m'.find? k) : m = m' := by
  refine FlatMap.ext (eq_of_mem_iff m.sorted m'.sorted fun ⟨k, v⟩ => ?_)
  rw [← find?_eq_some, ← find?_eq_some, h]

theorem nodup_keys (m : FlatMap κ ν) : m.keys.Nodup :=
  List.Pairwise.map Prod.fst (fun _ _ h => ne_of_lt h) m.sorted

theorem sorted_keys (m : FlatMap κ ν) : m.keys.Pairwise (· < ·) :=
  List.Pairwise.map Prod.fst (fun _ _ h => h) m.sorted

/-! ## Inserting -/

/-- Insertion into a sorted vector; `replace` says what becomes of a value already stored. -/
def insertWith (replace : ν → ν) (k : κ) (v : ν) : List (κ × ν) → List (κ × ν)
  | [] => [(k, v)]
  | e :: l =>
    if k < e.1 then (k, v) :: e :: l
    else if k = e.1 then (e.1, replace e.2) :: l
    else e :: insertWith replace k v l

theorem mem_insertWith_fst {replace : ν → ν} {k : κ} {v : ν} {l : List (κ × ν)} {e : κ × ν}
    (h : e ∈ insertWith replace k v l) : e.1 = k ∨ ∃ e' ∈ l, e'.1 = e.1 := by
  induction l with
  | nil => exact Or.inl (by simpa [insertWith] using congrArg Prod.fst (List.mem_singleton.mp h))
  | cons a l ih =>
    simp only [insertWith] at h
    split_ifs at h with h1 h2
    · rcases List.mem_cons.mp h with rfl | h
      · exact Or.inl rfl
      · exact Or.inr ⟨e, h, rfl⟩
    · rcases List.mem_cons.mp h with rfl | h
      · exact Or.inl h2.symm
      · exact Or.inr ⟨e, List.mem_cons_of_mem _ h, rfl⟩
    · rcases List.mem_cons.mp h with rfl | h
      · exact Or.inr ⟨e, List.mem_cons_self, rfl⟩
      · exact (ih h).imp_right fun ⟨e', he', hk⟩ => ⟨e', List.mem_cons_of_mem _ he', hk⟩

theorem sorted_insertWith (replace : ν → ν) (k : κ) (v : ν) {l : List (κ × ν)}
    (hl : l.Pairwise fun a b => a.1 < b.1) :
    (insertWith replace k v l).Pairwise fun a b => a.1 < b.1 := by
  induction l with
  | nil => exact List.pairwise_singleton _ _
  | cons a l ih =>
    obtain ⟨ha, hl'⟩ := List.pairwise_cons.mp hl
    simp only [insertWith]
    split_ifs with h1 h2
    · refine List.pairwise_cons.mpr ⟨fun b hb => ?_, hl⟩
      rcases List.mem_cons.mp hb with rfl | hb
      · exact h1
      · exact lt_trans h1 (ha b hb)
    · exact List.pairwise_cons.mpr ⟨ha, hl'⟩
    · refine List.pairwise_cons.mpr ⟨fun b hb => ?_, ih hl'⟩
      rcases mem_insertWith_fst hb with hk | ⟨e', he', hk⟩
      · rw [hk]
        exact lt_of_le_of_ne (not_lt.mp h1) (Ne.symm h2)
      · exact hk ▸ ha e' he'

theorem find?_insertWith (replace : ν → ν) (k k' : κ) (v : ν) {l : List (κ × ν)}
    (hl : l.Pairwise fun a b => a.1 < b.1) :
    ((insertWith replace k v l).find? fun e => e.1 = k').map Prod.snd
      = if k' = k then some (((l.find? fun e => e.1 = k).map fun e => replace e.2).getD v)
        else (l.find? fun e => e.1 = k').map Prod.snd := by
  induction l with
  | nil => by_cases h : k' = k <;> simp [insertWith, h, Ne.symm]
  | cons a l ih =>
    obtain ⟨ha, hl'⟩ := List.pairwise_cons.mp hl
    have hnone : k ≤ a.1 → (l.find? fun e => decide (e.1 = k)) = none := fun hk =>
      List.find?_eq_none.mpr fun b hb => by
        simpa using ne_of_gt (lt_of_le_of_lt hk (ha b hb))
    simp only [insertWith]
    by_cases h1 : k < a.1
    · have hne : ¬ a.1 = k := ne_of_gt h1
      by_cases h : k' = k
      · subst h
        simp [h1, hne, hnone h1.le]
      · simp [h1, h, Ne.symm h]
    · by_cases h2 : k = a.1
      · subst h2
        by_cases h : k' = a.1
        · subst h
          simp
        · simp [h, Ne.symm h]
      · rw [if_neg h1, if_neg h2]
        by_cases h : k' = k
        · subst h
          simpa [Ne.symm h2] using ih hl'
        · by_cases hak : a.1 = k'
          · simp [h, hak]
          · simpa [h, hak] using ih hl'

/-- Store `v` under `k` unless `k` is stored already. -/
def emplace (m : FlatMap κ ν) (k : κ) (v : ν) : FlatMap κ ν :=
  ⟨insertWith id k v m.entries, sorted_insertWith _ k v m.sorted⟩

/-- Store `v` under `k`, replacing a value stored before. -/
def assign (m : FlatMap κ ν) (k : κ) (v : ν) : FlatMap κ ν :=
  ⟨insertWith (fun _ => v) k v m.entries, sorted_insertWith _ k v m.sorted⟩

/-- **`emplace` keeps what is stored.** -/
theorem find?_emplace (m : FlatMap κ ν) (k k' : κ) (v : ν) :
    (m.emplace k v).find? k' = if k' = k then some ((m.find? k).getD v) else m.find? k' :=
  (find?_insertWith id k k' v m.sorted).trans (by simp [find?])

/-- **`assign` replaces it.** -/
theorem find?_assign (m : FlatMap κ ν) (k k' : κ) (v : ν) :
    (m.assign k v).find? k' = if k' = k then some v else m.find? k' := by
  refine (find?_insertWith (fun _ => v) k k' v m.sorted).trans ?_
  cases m.entries.find? fun e => decide (e.1 = k) <;> simp [find?]

theorem find?_emplace_of_none {m : FlatMap κ ν} {k : κ} (h : m.find? k = none) (k' : κ) (v : ν) :
    (m.emplace k v).find? k' = if k' = k then some v else m.find? k' := by
  rw [find?_emplace, h, Option.getD_none]

theorem emplace_of_contains {m : FlatMap κ ν} {k : κ} {w : ν} (h : m.find? k = some w) (v : ν) :
    m.emplace k v = m := by
  refine ext_find? fun k' => ?_
  rw [find?_emplace]
  split_ifs with hk
  · rw [hk, h, Option.getD_some]
  · rfl

/-- A key that was not stored is inserted beside the others. -/
theorem perm_emplace {m : FlatMap κ ν} {k : κ} (h : m.find? k = none) (v : ν) :
    (m.emplace k v).entries.Perm ((k, v) :: m.entries) := by
  have hk : ∀ w, (k, w) ∉ m.entries := fun w hw => by
    rw [find?_eq_some.mpr hw] at h
    exact absurd h (by simp)
  suffices H : ∀ l : List (κ × ν), (∀ w, (k, w) ∉ l) →
      (insertWith id k v l).Perm ((k, v) :: l) from H _ hk
  intro l
  induction l with
  | nil => intro _; exact List.Perm.refl _
  | cons a l ih =>
    intro hl
    have hne : k ≠ a.1 := fun h => hl a.2 (by simp [h])
    have ih' := ih fun w hw => hl w (List.mem_cons_of_mem _ hw)
    simp only [insertWith, if_neg hne]
    split_ifs
    · exact List.Perm.refl _
    · exact (ih'.cons a).trans (List.Perm.swap _ _ _)

theorem size_emplace {m : FlatMap κ ν} {k : κ} (h : m.find? k = none) (v : ν) :
    (m.emplace k v).size = m.size + 1 := (perm_emplace h v).length_eq

/-! ## Removing -/

/-- The entries a predicate keeps. -/
def filter (m : FlatMap κ ν) (p : κ → ν → Bool) : FlatMap κ ν :=
  ⟨m.entries.filter fun e => p e.1 e.2, m.sorted.filter _⟩

/-- Forget a key. -/
def erase (m : FlatMap κ ν) (k : κ) : FlatMap κ ν := m.filter fun k' _ => k' ≠ k

theorem find?_filter (m : FlatMap κ ν) (p : κ → ν → Bool) (k : κ) :
    (m.filter p).find? k = (m.find? k).filter (p k) := by
  cases h : m.find? k with
  | none =>
    rw [Option.filter_none, find?_eq_none]
    intro hk
    obtain ⟨v, hv⟩ := mem_keys.mp hk
    rw [find?_eq_some] at hv
    rw [find?_eq_some.mpr (List.mem_filter.mp hv).1] at h
    exact absurd h (by simp)
  | some v =>
    rw [find?_eq_some] at h
    cases hp : p k v with
    | true =>
      rw [Option.filter_some, if_pos hp, find?_eq_some]
      exact List.mem_filter.mpr ⟨h, hp⟩
    | false =>
      rw [Option.filter_some, if_neg (by simp [hp]), find?_eq_none]
      intro hk
      obtain ⟨w, hw⟩ := mem_keys.mp hk
      rw [find?_eq_some] at hw
      obtain ⟨hm, hpw⟩ := List.mem_filter.mp hw
      rw [eq_of_mem m.sorted hm h] at hpw
      exact absurd hpw (by simp [hp])

/-- A filter that rejects a stored key leaves fewer entries. -/
theorem size_filter_lt {m : FlatMap κ ν} {p : κ → ν → Bool} {k : κ} {v : ν}
    (h : m.find? k = some v) (hp : p k v = false) : (m.filter p).size < m.size :=
  List.length_filter_lt_length_iff_exists.mpr ⟨(k, v), find?_eq_some.mp h, by simp [hp]⟩

theorem find?_erase (m : FlatMap κ ν) (k k' : κ) :
    (m.erase k).find? k' = if k' = k then none else m.find? k' := by
  rw [erase, find?_filter]
  by_cases h : k' = k <;> cases m.find? k' <;> simp [h]

@[simp] theorem find?_erase_self (m : FlatMap κ ν) (k : κ) : (m.erase k).find? k = none := by
  rw [find?_erase, if_pos rfl]

/-- The map with its `n` smallest keys removed. -/
def dropFront (m : FlatMap κ ν) (n : ℕ) : FlatMap κ ν :=
  ⟨m.entries.drop n, m.sorted.sublist (List.drop_sublist _ _)⟩

theorem size_dropFront (m : FlatMap κ ν) (n : ℕ) : (m.dropFront n).size = m.size - n :=
  List.length_drop

theorem keys_dropFront (m : FlatMap κ ν) (n : ℕ) : (m.dropFront n).keys = m.keys.drop n :=
  List.map_drop

theorem dropFront_dropFront (m : FlatMap κ ν) (n k : ℕ) :
    (m.dropFront n).dropFront k = m.dropFront (n + k) :=
  FlatMap.ext List.drop_drop

/-! ## Changing values -/

/-- Apply a function to every value. -/
def mapValues {ν' : Type*} (m : FlatMap κ ν) (f : ν → ν') : FlatMap κ ν' :=
  ⟨m.entries.map fun e => (e.1, f e.2), List.Pairwise.map _ (fun _ _ h => h) m.sorted⟩

theorem find?_mapValues {ν' : Type*} (m : FlatMap κ ν) (f : ν → ν') (k : κ) :
    (m.mapValues f).find? k = (m.find? k).map f := by
  rw [find?, mapValues, List.find?_map, Option.map_map, find?, Option.map_map]
  rfl

end FlatMap

end Machinery
