import Mathlib
import Yunogram.Yuno.FilterBackup

/-!
# Yuno/FilterBackupImport — what an import leaves in the database

`Entries` is a document as far as the loops go: what it lists of each kind, skipped entries apart.
`prepareChanges` is then a comparison with each table (`ApplyChanges.Of`) and `applyChanges` one
expression for each (`ApplyChanges.Of.apply`), so that an import is known by what it stores (`mem_ids_import`,
`mem_pairs_import`).

A second import of a document that does not list one thing as present and as removed is then only
overrides and exclusions (`import_import`). -/

open Machinery

namespace Yunogram.Yuno.FilterBackup

/-! ## What each operation leaves -/

/-- The filter that some updates make of a stored one. -/
def overwrite (overrides : List RegexFilter) (f : RegexFilter) : RegexFilter :=
  overrides.foldl (fun f filter => if f.id = filter.id then filter else f) f

@[simp] theorem overwrite_nil (f : RegexFilter) : overwrite [] f = f := rfl

theorem overwrite_concat (overrides : List RegexFilter) (filter f : RegexFilter) :
    overwrite (overrides ++ [filter]) f =
      if (overwrite overrides f).id = filter.id then filter else overwrite overrides f := by
  rw [overwrite, List.foldl_concat, ← overwrite]

@[simp] theorem overwrite_id (overrides : List RegexFilter) (f : RegexFilter) :
    (overwrite overrides f).id = f.id := by
  induction overrides using List.reverseRecOn with
  | nil => rfl
  | append_singleton overrides filter ih =>
    rw [overwrite_concat]
    split_ifs with hid
    · exact hid.symm.trans ih
    · exact ih

/-- **An updated filter is the stored one or one of the updates.** -/
theorem overwrite_eq_or_mem (overrides : List RegexFilter) (f : RegexFilter) :
    (overwrite overrides f = f ∧ ∀ filter ∈ overrides, filter.id ≠ f.id) ∨
      overwrite overrides f ∈ overrides := by
  induction overrides using List.reverseRecOn with
  | nil => exact Or.inl ⟨rfl, fun filter hfilter => absurd hfilter List.not_mem_nil⟩
  | append_singleton overrides filter ih =>
    rw [overwrite_concat, overwrite_id]
    split_ifs with hid
    · exact Or.inr (List.mem_append_right _ (List.mem_singleton.2 rfl))
    · rcases ih with ⟨heq, hother⟩ | hmem
      · refine Or.inl ⟨heq, fun other hmem => ?_⟩
        rcases List.mem_append.1 hmem with hmem | hmem
        · exact hother other hmem
        · exact List.mem_singleton.1 hmem ▸ fun h => hid h.symm
      · exact Or.inr (List.mem_append_left _ hmem)

theorem updateRegexFilter_eq (db : Database) (filter : RegexFilter) :
    db.updateRegexFilter filter =
      { db with filters := db.filters.map fun f => if f.id = filter.id then filter else f } := by
  rw [Database.updateRegexFilter]
  congr 1
  refine List.map_congr_left fun f _ => ?_
  split_ifs with hid
  · rw [hid]
  · rfl

theorem foldl_updateRegexFilter (overrides : List RegexFilter) (db : Database) :
    overrides.foldl Database.updateRegexFilter db =
      { db with filters := db.filters.map (overwrite overrides) } := by
  induction overrides using List.reverseRecOn with
  | nil => rw [List.foldl_nil, funext overwrite_nil, List.map_id']
  | append_singleton overrides filter ih =>
    rw [List.foldl_concat, ih, updateRegexFilter_eq, List.map_map]
    congr 1
    exact List.map_congr_left fun f _ => (overwrite_concat overrides filter f).symm

theorem foldl_addRegexFilter {filters : List RegexFilter} (hnodup : (filters.map (·.id)).Nodup)
    {db : Database} (hnew : ∀ f ∈ filters, f.id ∉ db.ids) :
    filters.foldl Database.addRegexFilter db = { db with filters := db.filters ++ filters } := by
  induction filters using List.reverseRecOn with
  | nil => rw [List.foldl_nil, List.append_nil]
  | append_singleton filters filter ih =>
    rw [List.map_append, List.nodup_append] at hnodup
    obtain ⟨hinit, -, hdisjoint⟩ := hnodup
    have hkept : ∀ f ∈ db.filters ++ filters, f.id ≠ filter.id := fun f hf heq => by
      rcases List.mem_append.1 hf with hf | hf
      · exact hnew filter (List.mem_append_right _ List.mem_cons_self)
          (heq ▸ List.mem_map_of_mem hf)
      · exact hdisjoint f.id (List.mem_map_of_mem hf) filter.id List.mem_cons_self heq
    have hfilter : (db.filters ++ filters).filter (fun f => f.id ≠ filter.id) =
        db.filters ++ filters := List.filter_eq_self.2 fun f hf => decide_eq_true (hkept f hf)
    rw [List.foldl_concat, ih hinit fun f hf => hnew f (List.mem_append_left _ hf),
      Database.addRegexFilter, hfilter, List.append_assoc]

theorem foldl_delete (ids : List (List UInt8)) (db : Database) :
    ids.foldl (fun db id => (db.deleteExclusionsByFilterId id).deleteFilter id) db =
      { db with
        filters := db.filters.filter fun f => f.id ∉ ids
        exclusions := db.exclusions.filter fun row => row.2.filterId ∉ ids } := by
  induction ids using List.reverseRecOn with
  | nil => simp
  | append_singleton ids id ih =>
    rw [List.foldl_concat, ih, Database.deleteExclusionsByFilterId, Database.deleteFilter]
    simp only [List.filter_filter, List.mem_append, List.mem_singleton, not_or, Bool.decide_and,
      Bool.and_comm, ne_eq]

/-- The exclusions, numbered from `n`. -/
def numbered (n : ℕ) (exclusions : List RegexFilterGlobalExclusion) :
    List (ℕ × RegexFilterGlobalExclusion) :=
  exclusions.zipIdx.map fun entry => (n + entry.2 + 1, entry.1)

@[simp] theorem numbered_snd (n : ℕ) (exclusions : List RegexFilterGlobalExclusion) :
    (numbered n exclusions).map Prod.snd = exclusions := by
  rw [numbered, List.map_map]
  exact List.zipIdx_map_fst 0 exclusions

theorem foldl_addRegexExclusion (exclusions : List RegexFilterGlobalExclusion) (db : Database) :
    exclusions.foldl Database.addRegexExclusion db =
      { db with
        exclusions := db.exclusions ++ numbered db.lastFakeId exclusions
        lastFakeId := db.lastFakeId + exclusions.length } := by
  induction exclusions using List.reverseRecOn with
  | nil => simp [numbered]
  | append_singleton exclusions exclusion ih =>
    rw [List.foldl_concat, ih, Database.addRegexExclusion, List.append_assoc]
    simp only [numbered, List.zipIdx_append, List.map_append, List.zipIdx_singleton, List.map_cons,
      List.map_nil, Nat.zero_add, List.length_append, List.length_singleton, Nat.add_assoc]

theorem foldl_deleteExclusion (exclusions : List RegexFilterGlobalExclusion) (db : Database) :
    exclusions.foldl
        (fun db exclusion => db.deleteExclusion exclusion.dialogId exclusion.filterId) db =
      { db with exclusions := db.exclusions.filter fun row => row.2 ∉ exclusions } := by
  induction exclusions using List.reverseRecOn with
  | nil => simp
  | append_singleton exclusions exclusion ih =>
    rw [List.foldl_concat, ih, Database.deleteExclusion]
    congr 1
    rw [List.filter_filter]
    refine List.filter_congr fun row _ => ?_
    rw [← Bool.decide_and, decide_eq_decide, List.mem_append, List.mem_singleton, not_or, and_comm]
    refine and_congr_right fun _ => not_congr ⟨fun h => ?_, fun h => ?_⟩
    · rw [RegexFilterGlobalExclusion.mk.injEq]
      exact ⟨h.2, h.1⟩
    · rw [h]
      exact ⟨rfl, rfl⟩

/-! ## What a document lists -/

/-- The entries of a document that no loop skips. -/
structure Entries where
  filters : List RegexFilter := []
  exclusions : List RegexFilterGlobalExclusion := []
  removedFilters : List (List UInt8) := []
  removedExclusions : List RegexFilterGlobalExclusion := []

/-- **What a document lists**: nothing, when its version is too new. -/
def entriesOf (out : Outside) (root : QJsonObject) : Entries :=
  if (value root "version").toInt > BACKUP_VERSION then {}
  else
    { filters := (value root "filters").toArray.filterMap (readFilter out)
      exclusions := (value root "exclusions").toArray.filterMap (readExclusion out)
      removedFilters := (value root "removeFiltersById").toArray.filterMap readRemovedFilter
      removedExclusions :=
        (value root "removeExclusions").toArray.filterMap (readRemovedExclusion out) }

/-- The document lists nothing both as present and as removed. -/
structure Entries.Consistent (entries : Entries) : Prop where
  filters : ∀ filter ∈ entries.filters, filter.id ∉ entries.removedFilters
  exclusions : ∀ exclusion ∈ entries.exclusions, exclusion ∉ entries.removedExclusions

/-! ## What is prepared -/

theorem chars_injective : Function.Injective chars := by
  refine List.map_injective_iff.2 fun b b' h => ?_
  exact congrArg Int8.toUInt8 (Int8.toInt_inj.1 h)

variable {out : Outside} {root : QJsonObject} {db : Database} {entries : Entries}

/-- The stored filter with an id. -/
def Database.find (db : Database) (id : List UInt8) : Option RegexFilter :=
  db.filters.find? fun f => f.id = id

theorem Database.find_eq_none {id : List UInt8} : db.find id = none ↔ id ∉ db.ids := by
  rw [Database.find, List.find?_eq_none, Database.ids, List.mem_map]
  simp only [decide_eq_true_eq, not_exists, not_and]

theorem Database.find_eq_some {id : List UInt8} {f : RegexFilter} (hids : db.ids.Nodup) :
    db.find id = some f ↔ f ∈ db.filters ∧ f.id = id := by
  constructor
  · intro h
    have hid := List.find?_some (p := fun f : RegexFilter => f.id = id) h
    exact ⟨List.mem_of_find?_eq_some h, of_decide_eq_true hid⟩
  · rintro ⟨hf, rfl⟩
    obtain ⟨g, hg⟩ := Option.ne_none_iff_exists'.1 fun h =>
      Database.find_eq_none.1 h (List.mem_map_of_mem hf)
    have hid := of_decide_eq_true (List.find?_some (p := fun g : RegexFilter => g.id = f.id) hg)
    rw [hg, List.inj_on_of_nodup_map hids (List.mem_of_find?_eq_some hg) hf hid]

/-- What the loop over the filters has collected of those it has passed. -/
structure Collected.Of (db : Database) (filters : List RegexFilter) (collected : Collected) :
    Prop where
  overrides : collected.filtersOverrides =
    filters.filter fun f => f.id ∈ db.ids ∧ db.find f.id ≠ some f
  new : ∀ k f, collected.newFilters.find? k = some f →
    k = chars f.id ∧ f ∈ filters ∧ f.id ∉ db.ids
  every : ∀ f ∈ filters, f.id ∉ db.ids → ∃ g, collected.newFilters.find? (chars f.id) = some g

theorem Collected.Of.nil (db : Database) : Collected.Of db [] {} where
  overrides := rfl
  new _ _ h := nomatch h
  every _ hf := absurd hf List.not_mem_nil

/-- **One filter more.** -/
theorem Collected.Of.collect {filters : List RegexFilter} {collected : Collected}
    (h : collected.Of db filters) (regex : RegexFilter) :
    (collect db.filters collected regex).Of db (filters ++ [regex]) := by
  have hwas : ∀ f, f ∈ filters → f ∈ filters ++ [regex] := fun f => List.mem_append_left _
  rw [FilterBackup.collect, ← Database.find]
  cases hfind : db.find regex.id with
  | some existing =>
    have hmem : regex.id ∈ db.ids := by
      by_contra hmem
      exact absurd (hfind.symm.trans (Database.find_eq_none.2 hmem)) (Option.some_ne_none _)
    have hevery : ∀ f ∈ filters ++ [regex], f.id ∉ db.ids → f ∈ filters := fun f hf hnew => by
      rcases List.mem_append.1 hf with hf | hf
      · exact hf
      · exact absurd (List.mem_singleton.1 hf ▸ hmem) hnew
    have hlast : (decide (regex.id ∈ db.ids ∧ db.find regex.id ≠ some regex)) =
        decide (existing ≠ regex) := by
      rw [decide_eq_decide, hfind]
      exact ⟨fun h heq => h.2 (congrArg some heq),
        fun h => ⟨hmem, fun heq => h (Option.some.inj heq)⟩⟩
    dsimp only
    split_ifs with hne
    · refine ⟨?_, fun k f hf => ?_, fun f hf hnew => h.every f (hevery f hf hnew) hnew⟩
      · rw [List.filter_append, ← h.overrides, List.filter_singleton, hlast, decide_eq_true hne,
          cond_true]
      · obtain ⟨hk, hf, hnew⟩ := h.new k f hf
        exact ⟨hk, hwas f hf, hnew⟩
    · refine ⟨?_, fun k f hf => ?_, fun f hf hnew => h.every f (hevery f hf hnew) hnew⟩
      · rw [List.filter_append, ← h.overrides, List.filter_singleton, hlast, decide_eq_false hne,
          cond_false, List.append_nil]
      · obtain ⟨hk, hf, hnew⟩ := h.new k f hf
        exact ⟨hk, hwas f hf, hnew⟩
  | none =>
    have hnot : regex.id ∉ db.ids := Database.find_eq_none.1 hfind
    refine ⟨?_, fun k f hf => ?_, fun f hf hnew => ?_⟩
    · rw [List.filter_append, List.filter_singleton,
        decide_eq_false fun hmem => hnot hmem.1, cond_false, List.append_nil]
      exact h.overrides
    · rw [FlatMap.find?_assign] at hf
      split_ifs at hf with hk
      · obtain rfl := Option.some.inj hf
        exact ⟨hk, List.mem_append_right _ List.mem_cons_self, hnot⟩
      · obtain ⟨hk, hf, hnew⟩ := h.new k f hf
        exact ⟨hk, hwas f hf, hnew⟩
    · rw [FlatMap.find?_assign]
      split_ifs with hk
      · exact ⟨regex, rfl⟩
      · rcases List.mem_append.1 hf with hf | hf
        · exact h.every f hf hnew
        · exact absurd (congrArg (fun f : RegexFilter => chars f.id) (List.mem_singleton.1 hf)) hk

theorem Collected.Of.foldl (db : Database) (filters : List RegexFilter) :
    (filters.foldl (FilterBackup.collect db.filters) {}).Of db filters := by
  induction filters using List.reverseRecOn with
  | nil => exact Collected.Of.nil db
  | append_singleton filters regex ih =>
    rw [List.foldl_concat]
    exact ih.collect regex

/-- **What is prepared of a document**, by what it lists. -/
structure ApplyChanges.Of (entries : Entries) (db : Database) (changes : ApplyChanges) : Prop where
  overrides : changes.filtersOverrides =
    entries.filters.filter fun f => f.id ∈ db.ids ∧ db.find f.id ≠ some f
  new : ∀ f ∈ changes.newFilters, f ∈ entries.filters ∧ f.id ∉ db.ids
  every : ∀ f ∈ entries.filters, f.id ∉ db.ids → ∃ g ∈ changes.newFilters, g.id = f.id
  once : (changes.newFilters.map (·.id)).Nodup
  removed : changes.removeFiltersById = entries.removedFilters.filter fun id => id ∈ db.ids
  exclusions : changes.newExclusions =
    entries.exclusions.filter fun e => e ∉ db.getAllFiltersExclusions
  removedExclusions : changes.removeExclusions =
    entries.removedExclusions.filter fun e => e ∈ db.getAllFiltersExclusions

theorem prepareChanges_of (out : Outside) (root : QJsonObject) (db : Database) :
    (prepareChanges out root db).Of (entriesOf out root) db := by
  rw [prepareChanges, entriesOf]
  split_ifs with hversion
  · refine ⟨rfl, fun f hf => ?_, fun f hf => ?_, List.nodup_nil, rfl, rfl, rfl⟩
    · exact absurd hf List.not_mem_nil
    · exact absurd hf List.not_mem_nil
  · set filters := (value root "filters").toArray.filterMap (readFilter out)
    have h := Collected.Of.foldl db filters
    set collected := filters.foldl (collect db.filters) {}
    have hkey : ∀ entry ∈ collected.newFilters.entries, entry.1 = chars entry.2.id :=
      fun entry hentry => (h.new entry.1 entry.2 (FlatMap.find?_eq_some.2 hentry)).1
    refine ⟨h.overrides, fun f hf => ?_, fun f hf hnew => ?_, ?_, ?_, rfl, rfl⟩
    · obtain ⟨entry, hentry, rfl⟩ := List.mem_map.1 hf
      exact (h.new entry.1 entry.2 (FlatMap.find?_eq_some.2 hentry)).2
    · obtain ⟨g, hg⟩ := h.every f hf hnew
      have hg := FlatMap.find?_eq_some.1 hg
      exact ⟨g, List.mem_map_of_mem hg, (chars_injective (hkey _ hg)).symm⟩
    · refine List.Nodup.of_map chars ?_
      rw [List.map_map, List.map_map]
      have hkeys : collected.newFilters.keys = _ := List.map_congr_left hkey
      exact hkeys ▸ collected.newFilters.nodup_keys
    · refine List.filter_congr fun id _ => ?_
      rw [Bool.eq_iff_iff, List.any_eq_true, decide_eq_true_eq, Database.ids, List.mem_map]
      simp only [decide_eq_true_eq]

/-! ## What is stored afterwards -/

/-- **What applying leaves**, one expression for each table. -/
theorem ApplyChanges.Of.apply {changes : ApplyChanges} (h : changes.Of entries db) :
    applyChanges changes db =
      { filters := ((db.filters ++ changes.newFilters).filter fun f =>
          f.id ∉ changes.removeFiltersById).map (overwrite changes.filtersOverrides)
        exclusions := (db.exclusions.filter (fun row =>
          row.2.filterId ∉ changes.removeFiltersById) ++
            numbered db.lastFakeId changes.newExclusions).filter fun row =>
              row.2 ∉ changes.removeExclusions
        lastFakeId := db.lastFakeId + changes.newExclusions.length } := by
  rw [applyChanges, foldl_addRegexFilter h.once fun f hf => (h.new f hf).2, foldl_delete,
    foldl_updateRegexFilter, foldl_addRegexExclusion, foldl_deleteExclusion]

theorem ApplyChanges.Of.ids {changes : ApplyChanges} (h : changes.Of entries db) :
    (applyChanges changes db).ids =
      (db.ids ++ changes.newFilters.map (·.id)).filter fun id =>
        id ∉ changes.removeFiltersById := by
  rw [h.apply, Database.ids, List.map_map, Database.ids, ← List.map_append, List.filter_map]
  exact List.map_congr_left fun f _ => overwrite_id changes.filtersOverrides f

theorem ApplyChanges.Of.pairs {changes : ApplyChanges} (h : changes.Of entries db) :
    (applyChanges changes db).getAllFiltersExclusions =
      (db.getAllFiltersExclusions.filter (fun e => e.filterId ∉ changes.removeFiltersById) ++
        changes.newExclusions).filter fun e => e ∉ changes.removeExclusions := by
  have hnew := numbered_snd db.lastFakeId changes.newExclusions
  rw [h.apply, Database.getAllFiltersExclusions, Database.getAllFiltersExclusions, ← hnew,
    List.filter_map, ← List.map_append, List.filter_map, hnew]
  rfl

/-- **The ids after an import.** -/
theorem mem_ids_import {id : List UInt8} :
    id ∈ (importDocument out root db).ids ↔
      (id ∈ db.ids ∨ ∃ f ∈ (entriesOf out root).filters, f.id = id) ∧
        ¬(id ∈ (entriesOf out root).removedFilters ∧ id ∈ db.ids) := by
  have h := prepareChanges_of out root db
  rw [importDocument, h.ids, List.mem_filter, decide_eq_true_eq, h.removed, List.mem_filter,
    decide_eq_true_eq, List.mem_append]
  refine and_congr_left fun _ => ⟨?_, ?_⟩
  · rintro (hid | hid)
    · exact Or.inl hid
    · obtain ⟨f, hf, rfl⟩ := List.mem_map.1 hid
      exact Or.inr ⟨f, (h.new f hf).1, rfl⟩
  · rintro (hid | ⟨f, hf, rfl⟩)
    · exact Or.inl hid
    · by_cases hold : f.id ∈ db.ids
      · exact Or.inl hold
      · obtain ⟨g, hg, hid⟩ := h.every f hf hold
        exact Or.inr (hid ▸ List.mem_map_of_mem hg)

/-- **The exclusions after an import.** -/
theorem mem_pairs_import {e : RegexFilterGlobalExclusion} :
    e ∈ (importDocument out root db).getAllFiltersExclusions ↔
      (e ∈ db.getAllFiltersExclusions ∧
          ¬(e.filterId ∈ (entriesOf out root).removedFilters ∧ e.filterId ∈ db.ids) ∨
        e ∈ (entriesOf out root).exclusions ∧ e ∉ db.getAllFiltersExclusions) ∧
      ¬(e ∈ (entriesOf out root).removedExclusions ∧ e ∈ db.getAllFiltersExclusions) := by
  have h := prepareChanges_of out root db
  rw [importDocument, h.pairs, List.mem_filter, List.mem_append, List.mem_filter, h.removed,
    h.exclusions, h.removedExclusions]
  simp only [List.mem_filter, decide_eq_true_eq]

/-- **An import keeps the ids of the filters apart.** -/
theorem nodup_ids_import (out : Outside) (root : QJsonObject) (hids : db.ids.Nodup) :
    (importDocument out root db).ids.Nodup := by
  have h := prepareChanges_of out root db
  rw [importDocument, h.ids]
  refine List.Nodup.filter _ (List.nodup_append.2 ⟨hids, h.once, fun id hid id' hid' heq => ?_⟩)
  obtain ⟨f, hf, rfl⟩ := List.mem_map.1 hid'
  exact (h.new f hf).2 (heq ▸ hid)

/-- **An import keeps the exclusions apart exactly when the new ones are.** -/
theorem nodup_pairs_import (hpairs : db.getAllFiltersExclusions.Nodup) :
    (importDocument out root db).getAllFiltersExclusions.Nodup ↔
      ((entriesOf out root).exclusions.filter fun e => e ∉ db.getAllFiltersExclusions).Nodup := by
  have h := prepareChanges_of out root db
  have hnew : ∀ e ∈ (prepareChanges out root db).newExclusions, e ∉ db.getAllFiltersExclusions :=
    fun e he => by
      rw [h.exclusions] at he
      exact of_decide_eq_true (List.mem_filter.1 he).2
  have hkept : (prepareChanges out root db).newExclusions.filter
      (fun e => e ∉ (prepareChanges out root db).removeExclusions) =
        (prepareChanges out root db).newExclusions := List.filter_eq_self.2 fun e he => by
    rw [decide_eq_true_eq, h.removedExclusions]
    exact fun hmem => hnew e he (of_decide_eq_true (List.mem_filter.1 hmem).2)
  rw [importDocument, h.pairs, List.filter_append, hkept, ← h.exclusions]
  constructor
  · exact fun hnodup => (List.nodup_append.1 hnodup).2.1
  · refine fun hnodup => List.nodup_append.2 ⟨(hpairs.filter _).filter _, hnodup, ?_⟩
    rintro e he e' he' rfl
    exact hnew e he' (List.mem_of_mem_filter (List.mem_of_mem_filter he))

/-! ## The same document again -/

/-- **A filter that is listed, and not as removed, is stored as the document lists it**, though of
several entries with its id it may be any one. -/
theorem stored_of_listed (hcons : (entriesOf out root).Consistent) {r : RegexFilter}
    (hr : r ∈ (entriesOf out root).filters) :
    ∃ f ∈ (entriesOf out root).filters, f.id = r.id ∧ f ∈ (importDocument out root db).filters := by
  have h := prepareChanges_of out root db
  have hkept : r.id ∉ (prepareChanges out root db).removeFiltersById := fun hmem => by
    rw [h.removed] at hmem
    exact hcons.filters r hr (List.mem_of_mem_filter hmem)
  -- the row that is there when the updates come: the stored one, or the new one
  obtain ⟨g, hg, hid, hlisted⟩ : ∃ g ∈ db.filters ++ (prepareChanges out root db).newFilters,
      g.id = r.id ∧ ((∀ o ∈ (prepareChanges out root db).filtersOverrides, o.id ≠ r.id) →
        g ∈ (entriesOf out root).filters) := by
    cases hfind : db.find r.id with
    | some g =>
      have hg := List.mem_of_find?_eq_some hfind
      have hid :=
        of_decide_eq_true (List.find?_some (p := fun f : RegexFilter => f.id = r.id) hfind)
      refine ⟨g, List.mem_append_left _ hg, hid, fun hnone => ?_⟩
      by_cases heq : g = r
      · exact heq ▸ hr
      · refine absurd rfl (hnone r ?_)
        rw [h.overrides, List.mem_filter, decide_eq_true_eq, hfind]
        exact ⟨hr, hid ▸ List.mem_map_of_mem hg, fun h => heq (Option.some.inj h)⟩
    | none =>
      obtain ⟨g, hg, hid⟩ := h.every r hr (Database.find_eq_none.1 hfind)
      exact ⟨g, List.mem_append_right _ hg, hid, fun _ => (h.new g hg).1⟩
  refine ⟨overwrite (prepareChanges out root db).filtersOverrides g, ?_,
    (overwrite_id _ g).trans hid, ?_⟩
  · rcases overwrite_eq_or_mem (prepareChanges out root db).filtersOverrides g with
      ⟨heq, hno⟩ | hmem
    · rw [heq]
      exact hlisted fun o ho => hid ▸ hno o ho
    · rw [h.overrides] at hmem ⊢
      exact List.mem_of_mem_filter hmem
  · rw [importDocument, h.apply]
    exact List.mem_map_of_mem (List.mem_filter.2 ⟨hg, decide_eq_true (hid ▸ hkept)⟩)

/-- **A second import only overrides filters and adds exclusions.** -/
theorem import_import (hcons : (entriesOf out root).Consistent) {next : Database}
    (hnext : importDocument out root db = next) :
    importDocument out root next =
      { filters := next.filters.map (overwrite ((entriesOf out root).filters.filter fun f =>
          f.id ∈ next.ids ∧ next.find f.id ≠ some f))
        exclusions := next.exclusions ++ numbered next.lastFakeId
          ((entriesOf out root).exclusions.filter fun e => e ∉ next.getAllFiltersExclusions)
        lastFakeId := next.lastFakeId + ((entriesOf out root).exclusions.filter fun e =>
          e ∉ next.getAllFiltersExclusions).length } := by
  have h := prepareChanges_of out root next
  have hnew : (prepareChanges out root next).newFilters = [] := by
    refine List.eq_nil_iff_forall_not_mem.2 fun f hf => ?_
    obtain ⟨hf, hid⟩ := h.new f hf
    rw [← hnext, mem_ids_import] at hid
    exact hid ⟨Or.inr ⟨f, hf, rfl⟩, fun hrem => hcons.filters f hf hrem.1⟩
  have hremoved : (prepareChanges out root next).removeFiltersById = [] := by
    refine List.eq_nil_iff_forall_not_mem.2 fun id hid => ?_
    rw [h.removed, List.mem_filter, decide_eq_true_eq, ← hnext, mem_ids_import] at hid
    obtain ⟨hrem, hold | ⟨f, hf, rfl⟩, hkept⟩ := hid
    · exact hkept ⟨hrem, hold⟩
    · exact hcons.filters f hf hrem
  have hexclusions : (prepareChanges out root next).removeExclusions = [] := by
    refine List.eq_nil_iff_forall_not_mem.2 fun e he => ?_
    rw [h.removedExclusions, List.mem_filter, decide_eq_true_eq, ← hnext, mem_pairs_import] at he
    obtain ⟨hrem, ⟨hold, -⟩ | ⟨hlisted, -⟩, hkept⟩ := he
    · exact hkept ⟨hrem, hold⟩
    · exact hcons.exclusions e hlisted hrem
  rw [importDocument, h.apply, hnew, hremoved, hexclusions, h.overrides, h.exclusions]
  simp only [List.append_nil, List.not_mem_nil, not_false_eq_true, decide_true, List.filter_true]

end Yunogram.Yuno.FilterBackup
