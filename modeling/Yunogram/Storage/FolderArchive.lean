import Mathlib
import Yunogram.Machinery.FlatMap

/-!
# Storage/FolderArchive — the names of the files in an archive are kept apart

`DedupedName` of `storage_folder_archive.cpp` counts the names it has seen, ignoring case, and
numbers a name that was there until what it gets was not.  A number is tried once for a name, and
every failed try is a name already counted, so there are fewer tries than counted names
(`dedupLoop_none`); a name is returned when its count becomes one, so no two agree
(`archive_names`).

Texts are lists of characters and `lower` is what `QString::toLower` makes of each; the loop has
fuel, and an `int` counts without end. -/

open Machinery

namespace Yunogram.Storage.FolderArchive

/-- `QString`. -/
abbrev QString := List Char

/-- `base::flat_map<QString, int>`. -/
abbrev Counts := FlatMap QString ℕ

/-- `counts[name]`. -/
def count (counts : Counts) (name : QString) : ℕ := (counts.find? name).getD 0

/-- `++counts[name]`. -/
def bump (counts : Counts) (name : QString) : Counts := counts.assign name (count counts name + 1)

/-- `QString::lastIndexOf`, of one character. -/
def lastIndexOf (c : Char) : QString → Option ℕ
  | [] => none
  | x :: text =>
    match lastIndexOf c text with
    | some i => some (i + 1)
    | none => if x = c then some 0 else none

/-- `u" (%1)"_q.arg(n)`. -/
def suffix (n : ℕ) : QString := [' ', '('] ++ Nat.toDigits 10 n ++ [')']

/-- The name with a number. -/
def numberedName (name : QString) (n : ℕ) : QString :=
  match lastIndexOf '.' name with
  | some (dot + 1) => name.take (dot + 1) ++ suffix n ++ name.drop (dot + 1)
  | _ => name ++ suffix n

section

variable (lower : Char → QString)

/-- `QString::toLower`. -/
def toLower (name : QString) : QString := name.flatMap lower

/-- The `while` of `DedupedName`. -/
def dedupLoop (name : QString) : ℕ → Counts → Option (QString × Counts)
  | 0, _ => none
  | fuel + 1, counts =>
    let result := numberedName name (count counts (toLower lower name))
    let counts := bump counts (toLower lower result)
    if count counts (toLower lower result) = 1 then some (result, counts)
    else dedupLoop name fuel (bump counts (toLower lower name))

/-- `DedupedName`; `none` is a loop that has not ended. -/
def dedupedName (fuel : ℕ) (counts : Counts) (name : QString) : Option (QString × Counts) :=
  let counts := bump counts (toLower lower name)
  if count counts (toLower lower name) = 1 then some (name, counts)
  else dedupLoop lower name fuel counts

/-- The calls of `DedupedName` in one run. -/
def dedupedNames (fuel : ℕ) : Counts → List QString → Option (List QString × Counts)
  | counts, [] => some ([], counts)
  | counts, name :: names =>
    match dedupedName lower fuel counts name with
    | none => none
    | some (result, counts) =>
      match dedupedNames fuel counts names with
      | none => none
      | some (results, counts) => some (result :: results, counts)

/-- `QFileInfo`. -/
structure FileInfo where
  isDir : Bool
  doesExist : Bool
  isReadable : Bool
  isFile : Bool
  fileName : QString
  absoluteFilePath : QString
  lastModified : ℤ
  size : ℤ

/-- `ArchiveEntry`. -/
structure ArchiveEntry where
  absolute : QString
  name : QString
  modified : ℤ
  size : ℤ
  directory : Bool := false

/-- `ArchiveEntries`. -/
structure ArchiveEntries where
  list : List ArchiveEntry := []
  total : ℤ := 0

variable (fileInfo : QString → FileInfo)

/-- The loop of `GatherFiles`; `none` is one that has not ended. -/
def gatherLoop (fuel : ℕ) :
    List QString → ArchiveEntries → Counts → Option (Option ArchiveEntries)
  | [], result, _ => some (some result)
  | path :: paths, result, counts =>
    let info := fileInfo path
    if info.isDir then gatherLoop fuel paths result counts
    else if !info.doesExist || !info.isReadable then some none
    else if !info.isFile then gatherLoop fuel paths result counts
    else
      match dedupedName lower fuel counts info.fileName with
      | none => none
      | some (name, counts) =>
        gatherLoop fuel paths
          { list := result.list ++
              [{ absolute := info.absoluteFilePath, name := name, modified := info.lastModified
                 size := info.size }]
            total := result.total + info.size }
          counts

/-- `GatherFiles`. -/
def gatherFiles (fuel : ℕ) (paths : List QString) : Option (Option ArchiveEntries) :=
  match gatherLoop lower fileInfo fuel paths {} FlatMap.empty with
  | none => none
  | some none => some none
  | some (some result) => some (if result.list.isEmpty then none else some result)

/-- The files among the paths. -/
def gathered (paths : List QString) : List FileInfo :=
  (paths.map fileInfo).filter fun info => !info.isDir && info.isFile

end

/-! ## Names and numbers -/

theorem lastIndexOf_eq_none {c : Char} {text : QString} :
    lastIndexOf c text = none ↔ c ∉ text := by
  induction text with
  | nil => exact iff_of_true rfl List.not_mem_nil
  | cons x text ih =>
    rw [lastIndexOf, List.mem_cons, not_or, ← ih]
    cases lastIndexOf c text with
    | none =>
      rw [ite_eq_right_iff]
      exact ⟨fun h => ⟨fun heq => (nomatch h heq.symm), rfl⟩, fun h heq => absurd heq.symm h.1⟩
    | some i => exact iff_of_false (fun h => nomatch h) fun h => nomatch h.2

theorem lastIndexOf_some {c : Char} {text : QString} {i : ℕ} (h : lastIndexOf c text = some i) :
    ∃ rest, text.drop i = c :: rest ∧ c ∉ rest := by
  induction text generalizing i with
  | nil => nomatch h
  | cons x text ih =>
    rw [lastIndexOf] at h
    cases hlast : lastIndexOf c text with
    | none =>
      rw [hlast] at h
      obtain ⟨rfl, hi⟩ := Option.ite_none_right_eq_some.1 h
      exact ⟨text, Option.some.inj hi ▸ rfl, lastIndexOf_eq_none.1 hlast⟩
    | some j =>
      rw [hlast] at h
      obtain rfl := Option.some.inj h
      exact ih hlast

/-- The name is cut before its last extension; a leading dot begins none. -/
def CutBeforeExtension (name stem extension : QString) : Prop :=
  name = stem ++ extension ∧
    (extension = [] ∧ '.' ∉ stem.tail ∨
      stem ≠ [] ∧ ∃ rest, extension = '.' :: rest ∧ '.' ∉ rest)

theorem numberedName_eq (name : QString) : ∃ stem extension,
    CutBeforeExtension name stem extension ∧
      ∀ n, numberedName name n = stem ++ suffix n ++ extension := by
  cases hdot : lastIndexOf '.' name with
  | none =>
    have hnone := lastIndexOf_eq_none.1 hdot
    refine ⟨name, [], ⟨(List.append_nil name).symm, Or.inl ⟨rfl, ?_⟩⟩, fun n => ?_⟩
    · exact fun h => hnone (List.mem_of_mem_tail h)
    · rw [numberedName, hdot, List.append_nil]
  | some dot =>
    obtain ⟨rest, hrest, hlast⟩ := lastIndexOf_some hdot
    cases dot with
    | zero =>
      refine ⟨name, [], ⟨(List.append_nil name).symm, Or.inl ⟨rfl, ?_⟩⟩, fun n => ?_⟩
      · rw [List.drop_zero] at hrest
        rw [hrest]
        exact hlast
      · rw [numberedName, hdot, List.append_nil]
    | succ dot =>
      have hne : name.take (dot + 1) ≠ [] := fun h => by
        rcases List.take_eq_nil_iff.1 h with h | h
        · exact absurd h (Nat.succ_ne_zero dot)
        · rw [h] at hrest
          nomatch hrest
      refine ⟨name.take (dot + 1), name.drop (dot + 1),
        ⟨(List.take_append_drop _ name).symm, Or.inr ⟨hne, rest, hrest, hlast⟩⟩, fun n => ?_⟩
      rw [numberedName, hdot]

variable {lower : Char → QString} {name result : QString} {counts counts' : Counts} {fuel : ℕ}

theorem toDigits_injective : Function.Injective (Nat.toDigits 10) := fun m n h => by
  have hread := congrArg (fun digits => Nat.ofDigitChars 10 digits 0) h
  rwa [Nat.ofDigitChars_ten_toDigits, Nat.ofDigitChars_ten_toDigits] at hread

/-- **Different numbers give names that differ, case ignored.** -/
theorem toLower_numberedName_injective (hdigits : ∀ c : Char, c.isDigit → lower c = [c])
    (name : QString) : Function.Injective fun n => toLower lower (numberedName name n) := by
  obtain ⟨stem, extension, -, hname⟩ := numberedName_eq name
  have hlower : ∀ n, (Nat.toDigits 10 n).flatMap lower = Nat.toDigits 10 n := fun n => by
    refine (List.flatMap_congr fun c hc => ?_).trans (List.flatMap_singleton' _)
    exact hdigits c (Nat.isDigit_of_mem_toDigits (by decide) (by decide) hc)
  intro m n h
  simp only [hname, toLower, suffix, List.flatMap_append, hlower, List.append_assoc] at h
  refine toDigits_injective ?_
  exact List.append_cancel_right (List.append_cancel_left (List.append_cancel_left h))

/-! ## Counts -/

theorem count_bump (counts : Counts) (name other : QString) :
    count (bump counts name) other =
      if other = name then count counts name + 1 else count counts other := by
  rw [count, bump, FlatMap.find?_assign]
  split_ifs <;> rfl

theorem count_bump_pos {other : QString} :
    0 < count (bump counts name) other ↔ other = name ∨ 0 < count counts other := by
  rw [count_bump]
  split_ifs with heq
  · exact iff_of_true (Nat.succ_pos _) (Or.inl heq)
  · exact ⟨Or.inr, fun h => h.resolve_left heq⟩

theorem count_bump_self (counts : Counts) (name : QString) :
    count (bump counts name) name = count counts name + 1 := by
  rw [count_bump, if_pos rfl]

/-- **What the loop returns** has a number and was not counted before. -/
theorem dedupLoop_some (hname : 0 < count counts (toLower lower name))
    (h : dedupLoop lower name fuel counts = some (result, counts')) :
    (∃ n, result = numberedName name n) ∧ count counts (toLower lower result) = 0 ∧
      ∀ other, 0 < count counts' other ↔ other = toLower lower result ∨ 0 < count counts other := by
  induction fuel generalizing counts with
  | zero => nomatch h
  | succ fuel ih =>
    rw [dedupLoop] at h
    set tried := numberedName name (count counts (toLower lower name))
    rw [count_bump_self] at h
    split_ifs at h with hone
    · obtain ⟨rfl, rfl⟩ := Prod.mk.inj (Option.some.inj h)
      exact ⟨⟨_, rfl⟩, Nat.succ.inj hone, fun other => count_bump_pos⟩
    · -- the name tried was counted already, and so was the name itself
      have hsame : ∀ other, 0 < count (bump (bump counts (toLower lower tried))
          (toLower lower name)) other ↔ 0 < count counts other := fun other => by
        rw [count_bump_pos, count_bump_pos]
        refine ⟨?_, fun hother => Or.inr (Or.inr hother)⟩
        rintro (rfl | rfl | hother)
        · exact hname
        · omega
        · exact hother
      obtain ⟨hn, hzero, hcounted⟩ := ih ((hsame _).2 hname) h
      refine ⟨hn, ?_, fun other => (hcounted other).trans (or_congr_right (hsame other))⟩
      exact Nat.eq_zero_of_not_pos fun hpos => absurd ((hsame _).2 hpos) (by omega)

/-- **A loop that has not ended has found one counted name after the other.** -/
theorem dedupLoop_none (hname : 0 < count counts (toLower lower name))
    (h : dedupLoop lower name fuel counts = none) :
    ∃ tried : List ℕ, tried.length = fuel ∧ tried.Pairwise (· < ·) ∧
      ∀ n ∈ tried, count counts (toLower lower name) ≤ n ∧
        0 < count counts (toLower lower (numberedName name n)) := by
  induction fuel generalizing counts with
  | zero => exact ⟨[], rfl, List.Pairwise.nil, fun n hn => absurd hn List.not_mem_nil⟩
  | succ fuel ih =>
    rw [dedupLoop] at h
    set n := count counts (toLower lower name) with hn
    set key := toLower lower (numberedName name n)
    rw [count_bump_self] at h
    split_ifs at h with hone
    have hkey : 0 < count counts key := by omega
    have hnext : n < count (bump (bump counts key) (toLower lower name)) (toLower lower name) := by
      rw [count_bump_self, count_bump]
      split_ifs with heq
      · rw [← heq, ← hn]
        omega
      · exact Nat.lt_succ_self _
    obtain ⟨tried, hlength, hsorted, htried⟩ := ih (Nat.zero_lt_of_lt hnext) h
    refine ⟨n :: tried, congrArg Nat.succ hlength, List.pairwise_cons.2 ⟨fun m hm => ?_, hsorted⟩,
      List.forall_mem_cons.2 ⟨⟨le_rfl, hkey⟩, fun m hm => ?_⟩⟩
    · exact hnext.trans_le (htried m hm).1
    · obtain ⟨hle, hpos⟩ := htried m hm
      refine ⟨(hnext.trans_le hle).le, ?_⟩
      rcases count_bump_pos.1 hpos with heq | hpos
      · exact heq ▸ hname
      · rcases count_bump_pos.1 hpos with heq | hpos
        · exact heq ▸ hkey
        · exact hpos

/-! ## The names of one run -/

/-- The names counted are those returned, case ignored. -/
def Counted (lower : Char → QString) (results : List QString) (counts : Counts) : Prop :=
  ∀ other, 0 < count counts other ↔ other ∈ results.map (toLower lower)

/-- The result is the name, or the name with one number inserted before its last extension. -/
def IsNameOf (name result : QString) : Prop :=
  result = name ∨ ∃ stem extension n, CutBeforeExtension name stem extension ∧
    result = stem ++ suffix n ++ extension

/-- **One call ends, with a name that was not returned before.** -/
theorem dedupedName_spec (hdigits : ∀ c : Char, c.isDigit → lower c = [c])
    {results : List QString} (hcounted : Counted lower results counts)
    (hfuel : results.length < fuel) (name : QString) :
    ∃ result counts', dedupedName lower fuel counts name = some (result, counts') ∧
      IsNameOf name result ∧ toLower lower result ∉ results.map (toLower lower) ∧
        Counted lower (result :: results) counts' := by
  rw [dedupedName, count_bump_self]
  split_ifs with hone
  · refine ⟨name, _, rfl, Or.inl rfl, fun hmem => ?_, fun other => ?_⟩
    · have hpos := (hcounted _).2 hmem
      omega
    · rw [count_bump_pos, List.map_cons, List.mem_cons, hcounted]
  · have hpos : 0 < count (bump counts (toLower lower name)) (toLower lower name) := by
      rw [count_bump_self]
      exact Nat.succ_pos _
    have hold : ∀ other, 0 < count (bump counts (toLower lower name)) other ↔
        other ∈ results.map (toLower lower) := fun other => by
      rw [count_bump_pos, hcounted, or_iff_right_iff_imp]
      rintro rfl
      exact (hcounted _).1 (by omega)
    cases hloop : dedupLoop lower name fuel (bump counts (toLower lower name)) with
    | none =>
      -- more counted names than were returned
      exfalso
      obtain ⟨tried, hlength, hsorted, htried⟩ := dedupLoop_none hpos hloop
      have hnodup : (tried.map fun n => toLower lower (numberedName name n)).Nodup :=
        (hsorted.imp fun hlt => hlt.ne).map _ fun _ _ hne heq =>
          hne (toLower_numberedName_injective hdigits name heq)
      have hle := (List.subperm_of_subset hnodup fun key hkey => by
        obtain ⟨n, hn, rfl⟩ := List.mem_map.1 hkey
        exact (hold _).1 (htried n hn).2).length_le
      rw [List.length_map, List.length_map, hlength] at hle
      omega
    | some found =>
      obtain ⟨result, counts'⟩ := found
      obtain ⟨⟨n, hn⟩, hzero, hnew⟩ := dedupLoop_some hpos hloop
      obtain ⟨stem, extension, hcut, hname⟩ := numberedName_eq name
      refine ⟨result, counts', rfl, Or.inr ⟨stem, extension, n, hcut, hn.trans (hname n)⟩,
        fun hmem => ?_, fun other => ?_⟩
      · have hpos := (hold _).2 hmem
        omega
      · rw [hnew, hold, List.map_cons, List.mem_cons]

/-- **The calls of a run end, with names that are distinct, case ignored**, also from those
returned before. -/
theorem dedupedNames_spec (hdigits : ∀ c : Char, c.isDigit → lower c = [c]) (names : List QString)
    {before : List QString} (hcounted : Counted lower before counts)
    (hfuel : before.length + names.length ≤ fuel) :
    ∃ results counts', dedupedNames lower fuel counts names = some (results, counts') ∧
      List.Forall₂ IsNameOf names results ∧ (results.map (toLower lower)).Nodup ∧
        ∀ result ∈ results, toLower lower result ∉ before.map (toLower lower) := by
  induction names generalizing before counts with
  | nil =>
    exact ⟨[], counts, rfl, List.Forall₂.nil, List.nodup_nil,
      fun result hresult => absurd hresult List.not_mem_nil⟩
  | cons name names ih =>
    rw [List.length_cons] at hfuel
    have hlt : before.length < fuel := by omega
    obtain ⟨result, next, hcall, hname, hfresh, hnext⟩ :=
      dedupedName_spec hdigits hcounted hlt name
    have hroom : (result :: before).length + names.length ≤ fuel := by
      rw [List.length_cons]
      omega
    obtain ⟨results, counts', hcalls, hnames, hnodup, hother⟩ := ih hnext hroom
    refine ⟨result :: results, counts', ?_, List.Forall₂.cons hname hnames, ?_, ?_⟩
    · rw [dedupedNames, hcall]
      dsimp only
      rw [hcalls]
    · rw [List.map_cons, List.nodup_cons]
      refine ⟨fun hmem => ?_, hnodup⟩
      obtain ⟨later, hlater, heq⟩ := List.mem_map.1 hmem
      exact hother later hlater (heq ▸ List.mem_cons_self)
    · rw [List.forall_mem_cons]
      exact ⟨hfresh, fun later hlater hmem => hother later hlater (List.mem_cons_of_mem _ hmem)⟩

theorem counted_empty (lower : Char → QString) : Counted lower [] FlatMap.empty := fun _ =>
  iff_of_false (Nat.lt_irrefl 0) List.not_mem_nil

variable {fileInfo : QString → FileInfo}

/-- **`GatherFiles` names its files by the calls**, unless it stops at a path. -/
theorem gatherLoop_spec (paths : List QString) (result : ArchiveEntries) {names : List QString}
    (hcalls : dedupedNames lower fuel counts ((gathered fileInfo paths).map (·.fileName)) =
      some (names, counts')) :
    gatherLoop lower fileInfo fuel paths result counts = some none ∨
      ∃ entries, gatherLoop lower fileInfo fuel paths result counts = some (some entries) ∧
        entries.list.map (·.name) = result.list.map (·.name) ++ names := by
  induction paths generalizing result counts names counts' with
  | nil =>
    obtain ⟨rfl, -⟩ := Prod.mk.inj (Option.some.inj hcalls)
    exact Or.inr ⟨result, rfl, (List.append_nil _).symm⟩
  | cons path paths ih =>
    have hgathered : gathered fileInfo (path :: paths) =
        if (!(fileInfo path).isDir && (fileInfo path).isFile) = true then
          fileInfo path :: gathered fileInfo paths
        else gathered fileInfo paths := List.filter_cons
    rw [gatherLoop]
    split_ifs with hdir hmissing hfile
    · rw [hgathered, hdir, Bool.not_true, Bool.false_and, if_neg Bool.false_ne_true] at hcalls
      exact ih result hcalls
    · exact Or.inl rfl
    · rw [Bool.not_eq_true'] at hfile
      rw [hgathered, hfile, Bool.and_false, if_neg Bool.false_ne_true] at hcalls
      exact ih result hcalls
    · have hkept : (!(fileInfo path).isDir && (fileInfo path).isFile) = true := by
        rw [Bool.eq_false_of_not_eq_true hdir, Bool.not_false, Bool.true_and]
        simpa using hfile
      rw [hgathered, if_pos hkept, List.map_cons, dedupedNames] at hcalls
      cases hcall : dedupedName lower fuel counts (fileInfo path).fileName with
      | none =>
        rw [hcall] at hcalls
        nomatch hcalls
      | some called =>
        obtain ⟨name, next⟩ := called
        rw [hcall] at hcalls
        dsimp only at hcalls ⊢
        cases hrest : dedupedNames lower fuel next ((gathered fileInfo paths).map (·.fileName)) with
        | none =>
          rw [hrest] at hcalls
          nomatch hcalls
        | some rest =>
          obtain ⟨later, counts'⟩ := rest
          rw [hrest] at hcalls
          obtain ⟨rfl, -⟩ := Prod.mk.inj (Option.some.inj hcalls)
          refine (ih _ hrest).imp_right fun ⟨entries, hentries, hnames⟩ => ⟨entries, hentries, ?_⟩
          rw [hnames, List.map_append, List.append_assoc]
          rfl

/-- **The names in an archive.**  Whatever the names of the files and their order, the calls of a
run end, each with the name or with a number inserted before its last extension, and no two agree
when case is ignored; and the entries of the archive have these names. -/
theorem archive_names (lower : Char → QString)
    (hdigits : ∀ c : Char, c.isDigit → lower c = [c]) :
    (∀ (names : List QString) (fuel : ℕ), names.length ≤ fuel →
      ∃ results counts', dedupedNames lower fuel FlatMap.empty names = some (results, counts') ∧
        List.Forall₂ IsNameOf names results ∧ (results.map (toLower lower)).Nodup) ∧
    ∀ (fileInfo : QString → FileInfo) (paths : List QString) (fuel : ℕ), paths.length ≤ fuel →
      ∃ result, gatherFiles lower fileInfo fuel paths = some result ∧
        ∀ entries, result = some entries → ∃ counts',
          dedupedNames lower fuel FlatMap.empty
            ((gathered fileInfo paths).map (·.fileName)) =
              some (entries.list.map (·.name), counts') := by
  have hcalls : ∀ (names : List QString) (fuel : ℕ), names.length ≤ fuel →
      ∃ results counts', dedupedNames lower fuel FlatMap.empty names = some (results, counts') ∧
        List.Forall₂ IsNameOf names results ∧ (results.map (toLower lower)).Nodup := by
    intro names fuel hfuel
    obtain ⟨results, counts', hcalls, hnames, hnodup, -⟩ :=
      dedupedNames_spec hdigits names (counted_empty lower) ((Nat.zero_add _).trans_le hfuel)
    exact ⟨results, counts', hcalls, hnames, hnodup⟩
  refine ⟨hcalls, fun fileInfo paths fuel hfuel => ?_⟩
  have hlength : ((gathered fileInfo paths).map (·.fileName)).length ≤ fuel := by
    rw [List.length_map]
    exact ((List.length_filter_le _ _).trans_eq (List.length_map ..)).trans hfuel
  obtain ⟨results, counts', hrun, -, -⟩ := hcalls _ fuel hlength
  rw [gatherFiles]
  rcases gatherLoop_spec paths {} hrun with hloop | ⟨entries, hloop, hnames⟩
  · rw [hloop]
    exact ⟨none, rfl, fun entries h => nomatch h⟩
  · rw [hloop]
    refine ⟨_, rfl, fun entries' h => ?_⟩
    split_ifs at h
    obtain rfl := Option.some.inj h
    exact ⟨counts', hnames ▸ hrun⟩

/-- Three files of one name, in two of them with capitals, and one named like the second. -/
theorem archive_names_four : ∃ results counts',
    dedupedNames (fun c => [c.toLower]) 4 FlatMap.empty
        ["a.b".toList, "A.b".toList, "a (2).B".toList, "a.b".toList] = some (results, counts') ∧
      (results.map (toLower fun c => [c.toLower])).Nodup := by
  have hdigits : ∀ c : Char, c.isDigit → [c.toLower] = [c] := fun c hc => by
    rw [Char.isDigit, Bool.and_eq_true, decide_eq_true_eq, decide_eq_true_eq] at hc
    have hupper : ¬(c.val ≥ 'A'.val ∧ c.val ≤ 'Z'.val) := fun h =>
      absurd (UInt32.le_trans h.1 hc.2) (by decide)
    rw [Char.toLower, dif_neg hupper]
  obtain ⟨results, counts', hcalls, -, hnodup⟩ :=
    (archive_names (fun c => [c.toLower]) hdigits).1
      ["a.b".toList, "A.b".toList, "a (2).B".toList, "a.b".toList] 4 le_rfl
  exact ⟨results, counts', hcalls, hnodup⟩

end Yunogram.Storage.FolderArchive
