import Yunogram.Yuno.FilterBackupImport

/-!
# Yuno/FilterBackupStable — when an import can be made again without effect

What an export writes is read back entry by entry (`readFilter_filterJson`,
`readExclusion_exclusionJson`), so the export of a database asks for no change of it and brings an
empty one to the same filters and exclusions.

Of any other document, three things are to be asked (`Plain`): that it does not list a new
exclusion twice, which would be stored twice; that it has one content for each id of a filter,
since two would take turns with every import; and that it does not list a stored exclusion of a
filter that it removes, which goes with the filter and comes back the next time.  `backup_stable`
says that these are all. -/

open Machinery

namespace Yunogram.Yuno.FilterBackup

/-! ## Ids, written and read -/

theorem hexValue_digitChar {v : ℕ} (hv : v < 16) : hexValue v.digitChar = some v := by
  have hall : ∀ v : Fin 16, hexValue v.val.digitChar = some v.val := by decide
  exact hall ⟨v, hv⟩

theorem digitChar_plain {v : ℕ} (hv : v < 16) :
    v.digitChar ≠ '-' ∧ utf16Size v.digitChar = 1 := by
  have hall : ∀ v : Fin 16, v.val.digitChar ≠ '-' ∧ utf16Size v.val.digitChar = 1 := by decide
  exact hall ⟨v, hv⟩

theorem mem_toHex {bytes : List UInt8} {c : Char} (hc : c ∈ toHex bytes) :
    ∃ v < 16, c = v.digitChar := by
  obtain ⟨b, -, hc⟩ := List.mem_flatMap.1 hc
  have hb := b.toNat_lt
  rcases List.mem_cons.1 hc with rfl | hc
  · exact ⟨b.toNat / 16, by omega, rfl⟩
  · exact ⟨b.toNat % 16, by omega, List.mem_singleton.1 hc⟩

theorem utf16Size_toHex (bytes : List UInt8) :
    ((toHex bytes).map utf16Size).sum = 2 * bytes.length := by
  induction bytes with
  | nil => rfl
  | cons b bytes ih =>
    have hb := b.toNat_lt
    have hhigh := (digitChar_plain (v := b.toNat / 16) (by omega)).2
    have hlow := (digitChar_plain (v := b.toNat % 16) (by omega)).2
    rw [toHex, List.flatMap_cons, List.map_append, List.sum_append, ← toHex, ih, List.length_cons]
    simp only [List.map_cons, List.map_nil, List.sum_cons, List.sum_nil, hhigh, hlow]
    omega

/-- **Hexadecimal digits are read back.** -/
theorem fromHex_toHex (bytes : List UInt8) : fromHex (toHex bytes) = bytes := by
  induction bytes using List.reverseRecOn with
  | nil => rfl
  | append_singleton bytes b ih =>
    have hb := b.toNat_lt
    have hbyte : b.toNat / 16 * 16 + b.toNat % 16 = b.toNat := by omega
    rw [fromHex, toHex, List.flatMap_append, List.filterMap_append, List.flatMap_singleton,
      List.filterMap_cons_some (hexValue_digitChar (by omega)),
      List.filterMap_cons_some (hexValue_digitChar (Nat.mod_lt _ (by decide))), List.filterMap_nil,
      List.reverse_append]
    simp only [List.reverse_cons, List.reverse_nil, List.nil_append, pairUp,
      hbyte, UInt8.ofNat_toNat, List.cons_append]
    rw [← toHex, ← fromHex, ih]

theorem filter_insertIdx {α : Type*} {p : α → Bool} {a : α} (ha : p a = false) :
    ∀ (n : ℕ) (l : List α), (l.insertIdx n a).filter p = l.filter p
  | 0, l => by rw [List.insertIdx_zero, List.filter_cons_of_neg (by rw [ha]; decide)]
  | n + 1, [] => by rw [List.insertIdx_succ_nil]
  | n + 1, b :: l => by
      rw [List.insertIdx_succ_cons, List.filter_cons, List.filter_cons, filter_insertIdx ha n l]

/-- **An id of 16 bytes is read as it was written**, and no other is. -/
theorem parseFilterId_hexId (id : List UInt8) :
    parseFilterId (hexId id) = if id.length = 16 then id else [] := by
  have hplain : (toHex id).filter (fun c => c ≠ '-') = toHex id :=
    List.filter_eq_self.2 fun c hc => by
      obtain ⟨v, hv, rfl⟩ := mem_toHex hc
      exact decide_eq_true (digitChar_plain hv).1
  have hdash : (fun c : Char => decide (c ≠ '-')) '-' = false := by decide
  have hwritten : (hexId id).toList.filter (fun c => c ≠ '-') = toHex id := by
    rw [hexId, String.toList_ofList]
    split_ifs with hlength
    · have hskip := filter_insertIdx (p := fun c => decide (c ≠ '-')) hdash
      rw [hskip, hskip, hskip, hskip, hplain]
    · exact hplain
  rw [parseFilterId, hwritten, utf16Size_toHex, fromHex_toHex]
  by_cases hlength : id.length = 16
  · rw [if_pos hlength, if_neg (by omega), if_neg (by omega)]
  · rw [if_neg hlength, if_pos (by omega)]

/-! ## A database, exported and read -/

variable {out : Outside} {root : QJsonObject} {db : Database}

theorem readFilter_filterJson (out : Outside) {item : RegexFilter} (hid : item.id.length = 16) :
    readFilter out (filterJson item) = some item := by
  have hparse : parseFilterId (hexId item.id) = item.id := by
    rw [parseFilterId_hexId, if_pos hid]
  have hsome : item.id.isEmpty = false := by
    rw [List.isEmpty_eq_false_iff, ← List.length_pos_iff]
    omega
  obtain ⟨id, text, enabled, reversed, caseInsensitive, dialogId⟩ := item
  cases dialogId with
  | none => simp_all [readFilter, filterJson, value, QJsonValue.toObject, QJsonValue.toString,
      QJsonValue.toBool, QJsonValue.isNull]
  | some dialogId => simp_all [readFilter, filterJson, value, QJsonValue.toObject,
      QJsonValue.toString, QJsonValue.toBool, QJsonValue.isNull, QJsonValue.toLongLong]

theorem readExclusion_exclusionJson (out : Outside) (item : RegexFilterGlobalExclusion) :
    readExclusion out (exclusionJson item) =
      if item.filterId.length = 16 then some item else none := by
  have hread : readExclusion out (exclusionJson item) =
      if (parseFilterId (hexId item.filterId)).isEmpty then none
      else some ⟨item.dialogId, parseFilterId (hexId item.filterId)⟩ := by
    simp [readExclusion, readPair, exclusionJson, value, QJsonValue.toObject, QJsonValue.toString,
      QJsonValue.toLongLong]
  rw [hread, parseFilterId_hexId]
  by_cases hid : item.filterId.length = 16
  · have hsome : item.filterId.isEmpty = false := by
      rw [List.isEmpty_eq_false_iff, ← List.length_pos_iff]
      omega
    rw [if_pos hid, if_pos hid, hsome, if_neg (by decide)]
  · rw [if_neg hid, if_neg hid, if_pos List.isEmpty_nil]

/-- **An export lists the filters and those exclusions whose filter id has 16 bytes.** -/
theorem entriesOf_export (out : Outside) (hids : ∀ id ∈ db.ids, id.length = 16) :
    entriesOf out (exportFilters out db) =
      { filters := db.filters
        exclusions := db.getAllFiltersExclusions.filter fun e => e.filterId.length = 16 } := by
  have hversion : value (exportFilters out db) "version" = .number BACKUP_VERSION := by
    simp [value, exportFilters]
  have hfilters : value (exportFilters out db) "filters" = .array (db.filters.map filterJson) := by
    simp [value, exportFilters]
  have hexclusions : value (exportFilters out db) "exclusions" =
      .array (db.getAllFiltersExclusions.map exclusionJson) := by
    simp [value, exportFilters]
  have hremoved : value (exportFilters out db) "removeFiltersById" = .null := by
    simp [value, exportFilters]
  have hpairs : value (exportFilters out db) "removeExclusions" = .null := by
    simp [value, exportFilters]
  have hread : db.filters.filterMap (readFilter out ∘ filterJson) = db.filters := by
    refine (List.filterMap_congr fun f hf => ?_).trans List.filterMap_some
    exact readFilter_filterJson out (hids f.id (List.mem_map_of_mem hf))
  have hkept : db.getAllFiltersExclusions.filterMap (readExclusion out ∘ exclusionJson) =
      db.getAllFiltersExclusions.filter fun e => e.filterId.length = 16 := by
    rw [← List.filterMap_eq_filter]
    refine List.filterMap_congr fun e _ => ?_
    rw [Function.comp_apply, readExclusion_exclusionJson, Option.guard]
    simp only [decide_eq_true_eq]
  rw [entriesOf, hversion, hfilters, hexclusions, hremoved, hpairs, if_neg (by decide)]
  simp only [QJsonValue.toArray, List.filterMap_map, hread, hkept, List.filterMap_nil]

/-- The changes have nothing for the tables. -/
structure ApplyChanges.IsEmpty (changes : ApplyChanges) : Prop where
  newFilters : changes.newFilters = []
  removeFiltersById : changes.removeFiltersById = []
  filtersOverrides : changes.filtersOverrides = []
  newExclusions : changes.newExclusions = []
  removeExclusions : changes.removeExclusions = []

/-- **The export of a database asks for no change of it.** -/
theorem isEmpty_own_export (out : Outside) (hnodup : db.ids.Nodup)
    (hids : ∀ id ∈ db.ids, id.length = 16) :
    (prepareChanges out (exportFilters out db) db).IsEmpty := by
  have h := prepareChanges_of out (exportFilters out db) db
  rw [entriesOf_export out hids] at h
  refine ⟨List.eq_nil_iff_forall_not_mem.2 fun f hf => ?_, h.removed, ?_, ?_, h.removedExclusions⟩
  · obtain ⟨hf, hid⟩ := h.new f hf
    exact hid (List.mem_map_of_mem hf)
  · rw [h.overrides, List.filter_eq_nil_iff]
    intro f hf hover
    exact (of_decide_eq_true hover).2 ((Database.find_eq_some hnodup).2 ⟨hf, rfl⟩)
  · rw [h.exclusions, List.filter_eq_nil_iff]
    intro e he hnew
    exact of_decide_eq_true hnew (List.mem_of_mem_filter he)

/-- An export, applied to an empty database, gives the same filters and exclusions. -/
structure Restores (out : Outside) (db : Database) : Prop where
  filters : (importDocument out (exportFilters out db) {}).filters.Perm db.filters
  exclusions : (importDocument out (exportFilters out db) {}).getAllFiltersExclusions =
    db.getAllFiltersExclusions

/-- **An export restores the database exactly when its exclusions have ids of 16 bytes.** -/
theorem restores_iff (out : Outside) (hnodup : db.ids.Nodup)
    (hids : ∀ id ∈ db.ids, id.length = 16) :
    Restores out db ↔ ∀ e ∈ db.getAllFiltersExclusions, e.filterId.length = 16 := by
  have h := prepareChanges_of out (exportFilters out db) {}
  rw [entriesOf_export out hids] at h
  have hempty : ({} : Database).ids = [] := rfl
  have hpairs : ({} : Database).getAllFiltersExclusions = [] := rfl
  have hnone : (prepareChanges out (exportFilters out db) {}).removeFiltersById = [] := h.removed
  have hover : (prepareChanges out (exportFilters out db) {}).filtersOverrides = [] := by
    rw [h.overrides, List.filter_eq_nil_iff]
    intro f _ hmem
    exact absurd (of_decide_eq_true hmem).1 List.not_mem_nil
  have hfilters : (importDocument out (exportFilters out db) {}).filters =
      (prepareChanges out (exportFilters out db) {}).newFilters := by
    rw [importDocument, h.apply, hnone, hover, funext overwrite_nil]
    simp
  have hexclusions : (importDocument out (exportFilters out db) {}).getAllFiltersExclusions =
      db.getAllFiltersExclusions.filter fun e => e.filterId.length = 16 := by
    rw [importDocument, h.pairs, hnone, h.exclusions, h.removedExclusions, hpairs]
    simp
  have hperm : (importDocument out (exportFilters out db) {}).filters.Perm db.filters := by
    rw [hfilters]
    refine (List.perm_ext_iff_of_nodup (List.Nodup.of_map _ h.once)
      (List.Nodup.of_map _ hnodup)).2 fun f => ⟨fun hf => (h.new f hf).1, fun hf => ?_⟩
    obtain ⟨g, hg, hid⟩ := h.every f hf List.not_mem_nil
    exact List.inj_on_of_nodup_map hnodup (h.new g hg).1 hf hid ▸ hg
  constructor
  · intro hrestores e he
    rw [← hrestores.exclusions, hexclusions] at he
    exact of_decide_eq_true (List.mem_filter.1 he).2
  · intro hall
    refine ⟨hperm, hexclusions.trans (List.filter_eq_self.2 fun e he => ?_)⟩
    exact decide_eq_true (hall e he)

/-! ## The same document, imported twice -/

/-- What the document asks for again, once it has been imported: filters it lists otherwise than
they are stored, and exclusions that are not. -/
structure Settled (out : Outside) (root : QJsonObject) (next : Database) : Prop where
  filters : ∀ f ∈ (entriesOf out root).filters, next.find f.id = some f
  exclusions : ∀ e ∈ (entriesOf out root).exclusions, e ∈ next.getAllFiltersExclusions

/-- **A second import is without effect exactly when it has nothing to ask for.** -/
theorem import_import_iff (hcons : (entriesOf out root).Consistent) (hids : db.ids.Nodup) :
    importDocument out root (importDocument out root db) = importDocument out root db ↔
      Settled out root (importDocument out root db) := by
  have hnodup := nodup_ids_import out root hids
  have hlisted : ∀ f ∈ (entriesOf out root).filters, f.id ∈ (importDocument out root db).ids :=
    fun f hf => mem_ids_import.2 ⟨Or.inr ⟨f, hf, rfl⟩, fun hrem => hcons.filters f hf hrem.1⟩
  have htwice := import_import hcons (rfl : importDocument out root db = _)
  set next := importDocument out root db
  rw [htwice]
  constructor
  · intro heq
    have hfilters := congrArg Database.filters heq
    have hexclusions := congrArg Database.exclusions heq
    have hsame : ∀ f ∈ next.filters, overwrite ((entriesOf out root).filters.filter fun f =>
        f.id ∈ next.ids ∧ next.find f.id ≠ some f) f = f :=
      List.map_inj_left.1 (hfilters.trans (List.map_id _).symm)
    refine ⟨fun r hr => ?_, fun e he => ?_⟩
    · by_contra hother
      obtain ⟨f, hf, hid⟩ := List.mem_map.1 (hlisted r hr)
      rcases overwrite_eq_or_mem ((entriesOf out root).filters.filter fun f =>
        f.id ∈ next.ids ∧ next.find f.id ≠ some f) f with ⟨-, hno⟩ | hmem
      · refine hno r (List.mem_filter.2 ⟨hr, decide_eq_true ⟨hlisted r hr, hother⟩⟩) hid.symm
      · rw [hsame f hf, List.mem_filter] at hmem
        exact (of_decide_eq_true hmem.2).2 ((Database.find_eq_some hnodup).2 ⟨hf, rfl⟩)
    · by_contra hnew
      have hnone := congrArg (List.map Prod.snd) (List.append_right_eq_self.1 hexclusions)
      rw [numbered_snd] at hnone
      exact List.not_mem_nil (hnone ▸ List.mem_filter.2 ⟨he, decide_eq_true hnew⟩)
  · intro hsettled
    have hover : ((entriesOf out root).filters.filter fun f =>
        f.id ∈ next.ids ∧ next.find f.id ≠ some f) = [] :=
      List.filter_eq_nil_iff.2 fun f hf hover =>
        (of_decide_eq_true hover).2 (hsettled.filters f hf)
    have hnone : ((entriesOf out root).exclusions.filter fun e =>
        e ∉ next.getAllFiltersExclusions) = [] :=
      List.filter_eq_nil_iff.2 fun e he hnew => of_decide_eq_true hnew (hsettled.exclusions e he)
    rw [hover, hnone, funext overwrite_nil, List.map_id']
    exact congrArg (fun rows => Database.mk next.filters rows next.lastFakeId)
      (List.append_nil next.exclusions)

/-- What is to be asked of a document for the import of it to be `Stable`. -/
structure Plain (out : Outside) (root : QJsonObject) (db : Database) : Prop where
  once : db.getAllFiltersExclusions.Nodup →
    ((entriesOf out root).exclusions.filter fun e => e ∉ db.getAllFiltersExclusions).Nodup
  oneContent : (entriesOf out root).Consistent →
    ∀ f ∈ (entriesOf out root).filters, ∀ g ∈ (entriesOf out root).filters, f.id = g.id → f = g
  kept : (entriesOf out root).Consistent →
    ∀ e ∈ (entriesOf out root).exclusions, e ∈ db.getAllFiltersExclusions →
      ¬(e.filterId ∈ (entriesOf out root).removedFilters ∧ e.filterId ∈ db.ids)

/-- An import keeps ids and exclusions apart and, when the document does not list one thing both
as present and as removed, the same import changes nothing more. -/
structure Stable (out : Outside) (root : QJsonObject) (db : Database) : Prop where
  ids : db.ids.Nodup → (importDocument out root db).ids.Nodup
  pairs : db.getAllFiltersExclusions.Nodup →
    (importDocument out root db).getAllFiltersExclusions.Nodup
  again : (entriesOf out root).Consistent →
    importDocument out root (importDocument out root db) = importDocument out root db

theorem settled_iff (hcons : (entriesOf out root).Consistent) (hids : db.ids.Nodup) :
    Settled out root (importDocument out root db) ↔
      (∀ f ∈ (entriesOf out root).filters, ∀ g ∈ (entriesOf out root).filters,
        f.id = g.id → f = g) ∧
      ∀ e ∈ (entriesOf out root).exclusions, e ∈ db.getAllFiltersExclusions →
        ¬(e.filterId ∈ (entriesOf out root).removedFilters ∧ e.filterId ∈ db.ids) := by
  have hnodup := nodup_ids_import out root hids
  constructor
  · intro hsettled
    refine ⟨fun f hf g hg hid => ?_, fun e he hold => ?_⟩
    · have hfind := hsettled.filters f hf
      rw [hid, hsettled.filters g hg] at hfind
      exact (Option.some.inj hfind).symm
    · rcases (mem_pairs_import.1 (hsettled.exclusions e he)).1 with ⟨-, hkept⟩ | ⟨-, hnew⟩
      · exact hkept
      · exact absurd hold hnew
  · rintro ⟨hone, hkept⟩
    refine ⟨fun r hr => ?_, fun e he => mem_pairs_import.2 ⟨?_, fun hrem => ?_⟩⟩
    · obtain ⟨f, hf, hid, hstored⟩ := @stored_of_listed out root db hcons r hr
      obtain rfl := hone f hf r hr hid
      exact (Database.find_eq_some hnodup).2 ⟨hstored, rfl⟩
    · by_cases hold : e ∈ db.getAllFiltersExclusions
      · exact Or.inl ⟨hold, hkept e he hold⟩
      · exact Or.inr ⟨he, hold⟩
    · exact hcons.exclusions e he hrem.1

theorem stable_iff (hids : db.ids.Nodup) : Stable out root db ↔ Plain out root db := by
  constructor
  · intro h
    have hsettled := fun hcons => (settled_iff hcons hids).1
      ((import_import_iff hcons hids).1 (h.again hcons))
    exact
      { once := fun hpairs => (nodup_pairs_import hpairs).1 (h.pairs hpairs)
        oneContent := fun hcons => (hsettled hcons).1
        kept := fun hcons => (hsettled hcons).2 }
  · intro h
    exact
      { ids := nodup_ids_import out root
        pairs := fun hpairs => (nodup_pairs_import hpairs).2 (h.once hpairs)
        again := fun hcons => (import_import_iff hcons hids).2
          ((settled_iff hcons hids).2 ⟨h.oneContent hcons, h.kept hcons⟩) }

/-- **Backups, and when they may be imported again.**  The export of a database asks for no change
of it and restores it, when the filter ids of its exclusions have 16 bytes as those of its filters
do; and the import of a document is stable exactly when the document is plain. -/
theorem backup_stable (out : Outside) :
    (∀ db : Database, db.ids.Nodup → (∀ id ∈ db.ids, id.length = 16) →
      (prepareChanges out (exportFilters out db) db).IsEmpty ∧
        (Restores out db ↔ ∀ e ∈ db.getAllFiltersExclusions, e.filterId.length = 16)) ∧
      ∀ (root : QJsonObject) (db : Database), db.ids.Nodup →
        (Stable out root db ↔ Plain out root db) :=
  ⟨fun _ hnodup hids => ⟨isEmpty_own_export out hnodup hids, restores_iff out hnodup hids⟩,
    fun _ _ hids => stable_iff hids⟩

/-- No chat is loaded, and no string is a number. -/
def offline : Outside := ⟨fun _ => none, fun _ => false, fun _ => none⟩

/-- An exclusion, with a filter id of zeros. -/
def repeated : RegexFilterGlobalExclusion := ⟨1, List.replicate 16 0⟩

/-- A document with one exclusion twice. -/
def listedTwice : QJsonObject :=
  [("exclusions", .array [exclusionJson repeated, exclusionJson repeated])]

/-- An exclusion that a document lists twice is stored twice. -/
theorem stored_twice : ¬Stable offline listedTwice {} := by
  intro hstable
  have hread : readExclusion offline (exclusionJson repeated) = some repeated :=
    (readExclusion_exclusionJson offline repeated).trans (if_pos rfl)
  have hexclusions : (entriesOf offline listedTwice).exclusions = [repeated, repeated] := by
    rw [entriesOf]
    simp [value, listedTwice, QJsonValue.toInt, QJsonValue.toArray, BACKUP_VERSION, hread]
  have hnone : ({} : Database).getAllFiltersExclusions.Nodup := List.nodup_nil
  have hpairs := (nodup_pairs_import hnone).1 (hstable.pairs hnone)
  rw [hexclusions] at hpairs
  revert hpairs
  decide

end Yunogram.Yuno.FilterBackup
