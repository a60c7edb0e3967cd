import Yunogram.Iv.InlineTextObjectCodec
import Yunogram.Iv.LocalLinks

/-!
# Iv/LocalLinkContainment — links to files beside the document

A link leads to a file only where the path found for it is a normal one (`IsNormal`) within the
directory of the document (`local_link_containment`).  The paths are compared with their letters
lowered, so it is up to letter case that the directory is the same; what is written with no step up
stays within the very directory.

The string comparison is brought to the segments of the paths: lowering commutes with splitting
(`segments_toLower`), and a path that starts with another and a slash has its segments first. -/

open Machinery

namespace Yunogram.Iv.Markdown

/-! ## Segments -/

theorem startsWith_iff {text start : QString} : startsWith text start = true ↔ start <+: text :=
  List.isPrefixOf_iff_prefix

theorem startsWith_slash_iff {path : QString} :
    startsWith path [slash] = true ↔ ∃ rest, path = slash :: rest := by
  rw [startsWith_iff]
  constructor
  · rintro ⟨rest, rfl⟩
    exact ⟨rest, rfl⟩
  · rintro ⟨rest, rfl⟩
    exact ⟨rest, rfl⟩

theorem segments_append (before after : QString) :
    segments (before ++ slash :: after) = segments before ++ segments after :=
  List.splitOn_append_cons_self before after

theorem segments_slash (path : QString) : segments (slash :: path) = [] :: segments path :=
  segments_append [] path

@[simp] theorem slashed_segments (path : QString) : slashed (segments path) = path :=
  List.intercalate_splitOn slash

/-- No segment has a slash in it. -/
theorem not_mem_of_mem_segments {path segment : QString} (h : segment ∈ segments path) :
    slash ∉ segment := by
  induction path generalizing segment with
  | nil =>
    rw [segments, List.splitOn_nil, List.mem_singleton] at h
    simp [h]
  | cons c path ih =>
    rw [segments, List.splitOn_cons_eq_if_modifyHead] at h
    split at h
    · rcases List.mem_cons.1 h with rfl | h
      · exact List.not_mem_nil
      · exact ih h
    · rename_i hc
      cases hsplit : path.splitOn slash with
      | nil => exact absurd hsplit (List.splitOn_ne_nil slash path)
      | cons first rest =>
        rw [hsplit, List.modifyHead_cons] at h
        rw [segments, hsplit] at ih
        rcases List.mem_cons.1 h with rfl | h
        · intro hmem
          rcases List.mem_cons.1 hmem with heq | hmem
          · simp [heq] at hc
          · exact ih List.mem_cons_self hmem
        · exact ih (List.mem_cons_of_mem _ h)

theorem segments_slashed {parts : List QString} (hparts : ∀ part ∈ parts, slash ∉ part)
    (hne : parts ≠ []) : segments (slashed parts) = parts :=
  List.splitOn_intercalate slash hparts hne

theorem slashed_cons_cons (a b : QString) (parts : List QString) :
    slashed (a :: b :: parts) = a ++ slash :: slashed (b :: parts) := by
  simp [slashed, List.intercalate]

@[simp] theorem slashed_singleton (a : QString) : slashed [a] = a := by
  simp [slashed, List.intercalate]

/-- **Lowering commutes with splitting.** -/
theorem segments_toLower (unicode : Unicode) (path : QString) :
    segments (unicode.toLower path) = (segments path).map unicode.toLower := by
  have key : ∀ parts : List QString, parts ≠ [] → (∀ part ∈ parts, slash ∉ part) →
      segments (unicode.toLower (slashed parts)) = parts.map unicode.toLower := by
    intro parts hne hparts
    induction parts with
    | nil => exact absurd rfl hne
    | cons a parts ih =>
      have hlower : slash ∉ unicode.toLower a := fun hmem =>
        hparts a List.mem_cons_self (unicode.mem_of_lower a hmem)
      cases parts with
      | nil =>
        rw [slashed_singleton, segments, List.splitOn_eq_singleton hlower]
        rfl
      | cons b parts =>
        rw [slashed_cons_cons, unicode.lower_slash, segments_append,
          ih (List.cons_ne_nil _ _) fun part hpart => hparts part (List.mem_cons_of_mem _ hpart),
          segments, List.splitOn_eq_singleton hlower]
        rfl
  have h := key (segments path) (List.splitOn_ne_nil slash path)
    fun part hpart => not_mem_of_mem_segments hpart
  rwa [slashed_segments] at h

/-! ## Normal paths -/

/-- The names a path leads through. -/
def components (path : QString) : List QString := (segments path).filter (· ≠ [])

variable {fs : FileSystem}

/-- An absolute path with neither dots nor empty segments; where steps up from the root are kept,
they come first. -/
def IsNormal (fs : FileSystem) (path : QString) : Prop :=
  ∃ parts : List QString, path = slash :: slashed parts ∧
    Dots.IsSettled leadsNowhere up fs.keepsAboveRoot parts ∧ ∀ part ∈ parts, slash ∉ part

theorem leadsNowhere_up : leadsNowhere up = false := by decide

theorem leadsNowhere_nil : leadsNowhere [] = true := by decide

/-- A settled path has no empty segment. -/
theorem ne_nil_of_isSettled {keeps : Bool} {parts : List QString}
    (h : Dots.IsSettled leadsNowhere up keeps parts) {part : QString} (hpart : part ∈ parts) :
    part ≠ [] := by
  obtain ⟨k, names, rfl, -, hnames⟩ := h
  rintro rfl
  rcases List.mem_append.1 hpart with hpart | hpart
  · exact absurd (List.eq_of_mem_replicate hpart) (by decide)
  · exact absurd (hnames [] hpart).1 (by decide)

theorem components_of_parts {parts : List QString} (hne : ∀ part ∈ parts, part ≠ [])
    (hslash : ∀ part ∈ parts, slash ∉ part) : components (slash :: slashed parts) = parts := by
  rw [components, segments_slash]
  cases parts with
  | nil => decide
  | cons a parts =>
    rw [segments_slashed hslash (List.cons_ne_nil _ _), List.filter_cons_of_neg (by simp),
      List.filter_eq_self]
    intro part hpart
    simpa using hne part hpart

theorem settled_nil_cons {keeps : Bool} (parts : List QString) :
    Dots.settled leadsNowhere up keeps ([] :: parts)
      = Dots.settled leadsNowhere up keeps parts :=
  rfl

/-- The path of settled segments. -/
theorem isNormal_settled {path : QString} {parts : List QString}
    (hparts : parts = Dots.settled leadsNowhere up fs.keepsAboveRoot (segments path)) :
    IsNormal fs (slash :: slashed parts) := by
  refine ⟨parts, rfl, ?_, fun part hpart => ?_⟩
  · rw [hparts]
    exact Dots.isSettled_settled _
  · rw [hparts] at hpart
    exact not_mem_of_mem_segments (Dots.mem_of_mem_settled hpart)

/-- **Cleaning makes an absolute path normal.** -/
theorem isNormal_cleanPath (rest : QString) : IsNormal fs (cleanPath fs (slash :: rest)) := by
  rw [cleanPath, if_neg (List.cons_ne_nil _ _), if_pos (startsWith_slash_iff.2 ⟨rest, rfl⟩)]
  exact isNormal_settled rfl

/-- **Cleaning leaves a normal path as it is.** -/
theorem cleanPath_of_isNormal {path : QString} (h : IsNormal fs path) :
    cleanPath fs path = path := by
  obtain ⟨parts, rfl, hsettled, hslash⟩ := h
  rw [cleanPath, if_neg (List.cons_ne_nil _ _), if_pos (startsWith_slash_iff.2 ⟨_, rfl⟩),
    segments_slash, settled_nil_cons]
  cases parts with
  | nil => rfl
  | cons a parts =>
    rw [segments_slashed hslash (List.cons_ne_nil _ _),
      Dots.settled_of_isSettled leadsNowhere_up hsettled]

/-! ## The directory of a document -/

theorem getLast?_eq_some_slash {path : QString} (h : path.getLast? = some slash) :
    ∃ init, path = init ++ [slash] := by
  obtain ⟨hne, hlast⟩ := List.getLast?_eq_some_iff.1 h
  exact ⟨_, hlast⟩

/-- A name is taken from the root. -/
theorem fullName_absolute (path : QString) : ∃ rest, fullName fs path = slash :: rest := by
  obtain ⟨current, hcurrent⟩ := startsWith_slash_iff.1 fs.absolute
  rw [fullName]
  split_ifs with habs
  · exact startsWith_slash_iff.1 habs
  · exact ⟨current, hcurrent⟩
  · exact ⟨current ++ path, by rw [hcurrent, List.cons_append]⟩
  · exact ⟨current ++ slash :: path, by rw [hcurrent, List.cons_append]⟩

/-- The directory of a normal path is one. -/
theorem isNormal_directoryPath {path : QString} (h : IsNormal fs path) :
    IsNormal fs (directoryPath path) := by
  obtain ⟨parts, rfl, hsettled, hslash⟩ := h
  have hroot : IsNormal fs [slash] := ⟨[], rfl, Dots.IsSettled.nil, by simp⟩
  cases parts with
  | nil => exact hroot
  | cons a parts =>
    rw [directoryPath, segments_slash, segments_slashed hslash (List.cons_ne_nil _ _)]
    rw [List.dropLast_cons_of_ne_nil (List.cons_ne_nil _ _), if_neg (List.cons_ne_nil _ _)]
    cases hinit : (a :: parts).dropLast with
    | nil => exact hroot
    | cons b rest =>
      rw [slashed_cons_cons, List.nil_append, if_neg (List.cons_ne_nil _ _), ← hinit]
      exact ⟨_, rfl, hsettled.dropLast, fun part hpart =>
        hslash part (List.dropLast_subset _ hpart)⟩

/-- What is before a slash at the end. -/
theorem directoryPath_append_slash {path : QString} (hne : path ≠ []) :
    directoryPath (path ++ [slash]) = path := by
  rw [directoryPath, segments_append]
  rw [show segments [] = [[]] from rfl, List.dropLast_concat, slashed_segments, if_neg hne]
  exact if_neg (List.splitOn_ne_nil slash path)

/-- **The directory of a document is normal.** -/
theorem isNormal_absolutePath (path : QString) : IsNormal fs (absolutePath fs path) := by
  obtain ⟨rest, hfull⟩ := @fullName_absolute fs path
  have hclean : IsNormal fs (cleanPath fs (slash :: rest)) := isNormal_cleanPath rest
  rw [absolutePath, absoluteName, hfull]
  split_ifs with hroot hlast
  · rw [hroot]
    exact isNormal_directoryPath ⟨[], rfl, Dots.IsSettled.nil, by simp⟩
  · rw [directoryPath_append_slash]
    · exact hclean
    · obtain ⟨parts, hparts, -⟩ := hclean
      rw [hparts]
      exact List.cons_ne_nil _ _
  · rw [List.append_nil]
    exact isNormal_directoryPath hclean

/-! ## Absolute paths -/

theorem not_startsWith_of_first {first : QString} (parts : List QString) (hne : first ≠ [])
    (hslash : slash ∉ first) : ¬startsWith (slashed (first :: parts)) [slash] = true := by
  intro h
  obtain ⟨rest, hrest⟩ := startsWith_slash_iff.1 h
  obtain ⟨c, first, rfl⟩ := List.exists_cons_of_ne_nil hne
  have hc : c = slash := by
    cases parts with
    | nil => simpa using congrArg List.head? hrest
    | cons b parts => simpa [slashed_cons_cons] using congrArg List.head? hrest
  exact hslash (hc ▸ List.mem_cons_self)

/-- A path cleaned is no more absolute than it was. -/
theorem absolute_of_cleanPath {path : QString}
    (h : startsWith (cleanPath fs path) [slash] = true) : startsWith path [slash] = true := by
  by_contra habs
  rw [cleanPath, if_neg habs] at h
  split_ifs at h with hnil
  · exact absurd h (by decide)
  split at h
  · exact absurd h (by decide)
  · rename_i parts hnone
    cases hparts : Dots.settled leadsNowhere up true (segments path) with
    | nil => exact absurd hparts hnone
    | cons first rest =>
      have hmem : first ∈ Dots.settled leadsNowhere up true (segments path) := by
        rw [hparts]
        exact List.mem_cons_self
      rw [hparts] at h
      exact not_startsWith_of_first rest (ne_nil_of_isSettled (Dots.isSettled_settled _) hmem)
        (not_mem_of_mem_segments (Dots.mem_of_mem_settled hmem)) h

/-- A path in lower case is no more absolute than it was. -/
theorem absolute_of_toLower {unicode : Unicode} {path : QString}
    (h : startsWith (unicode.toLower path) [slash] = true) : startsWith path [slash] = true := by
  obtain ⟨rest, hrest⟩ := startsWith_slash_iff.1 h
  have hsegments := segments_toLower unicode path
  rw [hrest, segments_slash] at hsegments
  cases hpath : segments path with
  | nil => exact absurd hpath (List.splitOn_ne_nil slash path)
  | cons first others =>
    rw [hpath, List.map_cons] at hsegments
    have hfirst : first = [] := (unicode.lower_nil first).1 (List.cons.inj hsegments).1.symm
    have hback : path = slashed (first :: others) := by rw [← hpath, slashed_segments]
    cases others with
    | nil =>
      rw [hback, hfirst, slashed_singleton, (unicode.lower_nil []).2 rfl] at hrest
      exact absurd hrest (List.cons_ne_nil _ _).symm
    | cons second others =>
      rw [hback, hfirst, slashed_cons_cons]
      exact startsWith_slash_iff.2 ⟨_, rfl⟩

/-! ## Containment -/

variable (unicode : Unicode)

theorem components_toLower (path : QString) :
    components (unicode.toLower path) = (components path).map unicode.toLower := by
  rw [components, segments_toLower, components, List.filter_map]
  congr 1
  refine List.filter_congr fun part _ => ?_
  simp [unicode.lower_nil]

theorem components_append (before after : QString) :
    components (before ++ slash :: after) = components before ++ components after := by
  rw [components, segments_append, List.filter_append, components, components]

variable {unicode}

/-- What a normal directory contains is absolute. -/
theorem absolute_of_isContainedPath {directory path : QString} (hdirectory : IsNormal fs directory)
    (h : isContainedPath unicode fs directory path = true) :
    startsWith (cleanPath fs path) [slash] = true := by
  have hbase : comparablePath unicode fs directory = unicode.toLower directory := by
    rw [comparablePath, fromNativeSeparators, cleanPath_of_isNormal hdirectory]
  obtain ⟨parts, hparts, -⟩ := hdirectory
  have hfirst : ∃ rest, comparablePath unicode fs directory = slash :: rest := by
    refine ⟨unicode.toLower (slashed parts), ?_⟩
    rw [hbase, hparts]
    have hlower := unicode.lower_slash [] (slashed parts)
    rwa [(unicode.lower_nil []).2 rfl] at hlower
  obtain ⟨rest, hrest⟩ := hfirst
  rw [isContainedPath, hrest] at h
  refine @absolute_of_toLower unicode _ (startsWith_slash_iff.2 ?_)
  rcases Bool.or_eq_true_iff.1 h with h | h
  · exact ⟨rest, eq_of_beq h⟩
  · obtain ⟨after, hafter⟩ := startsWith_iff.1 h
    exact ⟨_, hafter.symm⟩

/-- **Containment, on the names.**  The names of the directory come first among those of the path,
in one letter case or another. -/
theorem components_of_isContainedPath {directory path : QString}
    (hdirectory : IsNormal fs directory) (hpath : IsNormal fs path)
    (h : isContainedPath unicode fs directory path = true) :
    (components directory).map unicode.toLower <+: (components path).map unicode.toLower := by
  rw [isContainedPath, comparablePath, comparablePath, fromNativeSeparators, fromNativeSeparators,
    cleanPath_of_isNormal hdirectory, cleanPath_of_isNormal hpath] at h
  rw [← components_toLower, ← components_toLower]
  rcases Bool.or_eq_true_iff.1 h with h | h
  · rw [eq_of_beq h]
  · obtain ⟨after, hafter⟩ := startsWith_iff.1 h
    rw [← hafter, List.append_assoc]
    exact ⟨components after, (components_append (unicode.toLower directory) after).symm⟩

/-! ## Paths that do not step up -/

theorem IsNormal.components_eq {parts : List QString}
    (hsettled : Dots.IsSettled leadsNowhere up fs.keepsAboveRoot parts)
    (hslash : ∀ part ∈ parts, slash ∉ part) : components (slash :: slashed parts) = parts :=
  components_of_parts (fun _ hpart => ne_nil_of_isSettled hsettled hpart) hslash

/-- The segments of a normal path that lead somewhere are its names. -/
theorem filter_segments_of_isNormal {path : QString} (h : IsNormal fs path) :
    ((segments path).filter fun s => !leadsNowhere s) = components path := by
  obtain ⟨parts, rfl, hsettled, hslash⟩ := h
  rw [IsNormal.components_eq hsettled hslash, segments_slash, List.filter_cons_of_neg (by decide)]
  cases parts with
  | nil => rfl
  | cons a parts =>
    rw [segments_slashed hslash (List.cons_ne_nil _ _),
      Dots.filter_of_isSettled leadsNowhere_up hsettled]

/-- A target that is not absolute comes after the directory. -/
theorem filter_segments_absoluteFilePath {directory target : QString}
    (hdirectory : IsNormal fs directory)
    (htarget : ¬(startsWith target [slash] || startsWith target (ascii ":/")) = true) :
    ((segments (absoluteFilePath directory target)).filter fun s => !leadsNowhere s)
      = components directory ++ (segments target).filter fun s => !leadsNowhere s := by
  rw [← filter_segments_of_isNormal hdirectory, absoluteFilePath, if_neg htarget]
  split_ifs with hlast
  · obtain ⟨init, rfl⟩ := getLast?_eq_some_slash hlast
    rw [List.append_assoc, List.singleton_append, segments_append, segments_append,
      List.filter_append, List.filter_append]
    simp [show segments [] = [[]] from rfl, leadsNowhere_nil]
  · rw [segments_append, List.filter_append]

/-- **A target with no step up stays within the directory.** -/
theorem components_of_no_up {directory target : QString} (hdirectory : IsNormal fs directory)
    (hup : up ∉ segments target)
    (habs : startsWith (cleanPath fs (absoluteFilePath directory target)) [slash] = true)
    (htarget : ¬startsWith target [slash] = true) :
    components directory <+: components (cleanPath fs (absoluteFilePath directory target)) := by
  have hresolved := absolute_of_cleanPath habs
  have hresource : ¬startsWith target (ascii ":/") = true := by
    intro hresource
    rw [absoluteFilePath, hresource, Bool.or_true, if_pos rfl] at hresolved
    exact htarget hresolved
  have hsegments := filter_segments_absoluteFilePath hdirectory
    (Bool.or_eq_true_iff.not.2 (not_or.2 ⟨htarget, hresource⟩))
  obtain ⟨parts, rfl, hsettled, hslash⟩ := hdirectory
  rw [IsNormal.components_eq hsettled hslash] at hsegments ⊢
  have hafter : up ∉ (segments target).filter fun s => !leadsNowhere s := fun hmem =>
    hup (List.mem_of_mem_filter hmem)
  have hparts : Dots.settled leadsNowhere up fs.keepsAboveRoot
      (segments (absoluteFilePath (slash :: slashed parts) target))
        = parts ++ ((segments target).filter fun s => !leadsNowhere s).filter
          fun s => !leadsNowhere s := by
    rw [← Dots.settled_filter, hsegments, Dots.settled_append leadsNowhere_up hsettled hafter]
  obtain ⟨rest, hrest⟩ := startsWith_slash_iff.1 hresolved
  rw [hrest] at hparts ⊢
  rw [cleanPath, if_neg (List.cons_ne_nil _ _), if_pos (startsWith_slash_iff.2 ⟨rest, rfl⟩),
    components_of_parts, hparts]
  · exact List.prefix_append _ _
  · exact fun part hpart => ne_nil_of_isSettled (Dots.isSettled_settled _) hpart
  · exact fun part hpart => not_mem_of_mem_segments (Dots.mem_of_mem_settled hpart)

/-! ## Links -/

section

variable (lib : Library) (unicode : Unicode) (urls : Urls) (fs : FileSystem)

/-- Targets outside of the document's directory by their form: absolute paths of one system or
another, paths of a drive, and addresses of files. -/
inductive IsFileSystemTarget : QString → Prop
  | absolute (rest : QString) : IsFileSystemTarget (unit '/' :: rest)
  | backslash (rest : QString) : IsFileSystemTarget (unit '\\' :: rest)
  | drive (letter : UInt16) (rest : QString) (h : unicode.isLetter letter = true) :
    IsFileSystemTarget (letter :: unit ':' :: rest)
  | fileUrl (scheme rest : QString) (h : scheme.map asciiLower = ascii "file:") :
    IsFileSystemTarget (scheme ++ rest)

/-- A Markdown file that a target leads to from a directory.  Where the target steps up, it may
come back under the names of the directory in another letter case. -/
structure IsMarkdownWithin (directory target path : QString) : Prop where
  normal : IsNormal fs path
  within : (components directory).map unicode.toLower <+: (components path).map unicode.toLower
  exactly : up ∉ segments target → components directory <+: components path
  markdown : looksLikeMarkdownFile unicode path [] = true

variable {unicode}

theorem looksLikeFilesystemTarget_of {target : QString} (h : IsFileSystemTarget unicode target) :
    looksLikeFilesystemTarget unicode target = true := by
  rw [looksLikeFilesystemTarget]
  cases h with
  | absolute rest => rfl
  | backslash rest =>
    have hback : startsWith (unit '\\' :: rest) (ascii "\\") = true := rfl
    rw [hback]
    simp
  | drive letter rest h =>
    have hdrive : looksLikeWindowsDrivePath unicode (letter :: unit ':' :: rest) = true := by
      simp [looksLikeWindowsDrivePath, h]
    rw [hdrive]
    simp
  | fileUrl scheme rest h =>
    have hlength : scheme.length = 5 := by
      rw [← List.length_map asciiLower, h]
      rfl
    have hfile : looksLikeFileUrl unicode (scheme ++ rest) = true := by
      rw [looksLikeFileUrl, List.take_left' hlength,
        unicode.equal_ascii scheme (ascii "file:") (by rw [h]; rfl), Bool.and_true,
        decide_eq_true_iff, List.length_append]
      omega
    rw [hfile]
    simp

/-- No such target is an anchor. -/
theorem not_startsWith_hash {target : QString} (h : IsFileSystemTarget unicode target) :
    ¬startsWith target [unit '#'] = true := by
  intro hhash
  obtain ⟨after, hafter⟩ := startsWith_iff.1 hhash
  rw [List.singleton_append] at hafter
  cases h with
  | absolute rest => exact absurd (List.cons.inj hafter).1 (by decide)
  | backslash rest => exact absurd (List.cons.inj hafter).1 (by decide)
  | drive letter rest h =>
    rw [← (List.cons.inj hafter).1, unicode.hash_not_letter] at h
    exact Bool.false_ne_true h
  | fileUrl scheme rest h =>
    cases scheme with
    | nil => exact absurd h (by decide)
    | cons first scheme =>
      rw [List.cons_append] at hafter
      rw [← (List.cons.inj hafter).1, List.map_cons] at h
      exact absurd (List.cons.inj h).1 (by decide)

variable {lib urls}

/-- An address with a scheme is no file. -/
theorem normalizePreparedUrlLink_kind (link : PreparedLink) (target : QString) :
    (normalizePreparedUrlLink lib unicode urls link target).kind = link.kind := by
  rw [normalizePreparedUrlLink]
  split_ifs <;> rfl

variable {fs}

/-- **What a link to a file has passed.** -/
theorem classifiedLink_localFile {index : UInt16} {target : QString} {state : Option PrepareState}
    {link : PreparedLink} (h : classifiedLink lib unicode urls fs index target state = link)
    (hkind : link.kind = .localFile) :
    ∃ request, state.bind (·.request) = some request ∧
      looksLikeFilesystemTarget unicode target = false ∧
      link.target = cleanPath fs (absoluteFilePath (absolutePath fs request.sourcePath)
        (untilFirst (unit '#') target)) ∧
      isContainedPath unicode fs (absolutePath fs request.sourcePath) link.target = true ∧
      looksLikeMarkdownFile unicode link.target [] = true := by
  rw [classifiedLink] at h
  dsimp only at h
  split at h
  · rw [← h] at hkind
    exact nomatch hkind
  split at h
  · rw [← h] at hkind
    exact nomatch hkind
  rename_i hfile
  split at h
  · rw [← h, normalizePreparedUrlLink_kind] at hkind
    exact nomatch hkind
  split at h
  · rw [← h] at hkind
    exact nomatch hkind
  split at h
  · rw [← h] at hkind
    exact nomatch hkind
  rename_i request hrequest
  split_ifs at h with h1 h2 h3 hpassed
  · rw [← h] at hkind
    exact nomatch hkind
  · rw [← h] at hkind
    exact nomatch hkind
  · rw [← h] at hkind
    exact nomatch hkind
  · rw [← h] at hkind
    exact nomatch hkind
  rw [Bool.or_eq_true_iff, not_or, Bool.not_eq_true', Bool.not_eq_true', Bool.not_eq_false,
    Bool.not_eq_false] at hpassed
  subst h
  exact ⟨request, hrequest, Bool.eq_false_iff.2 hfile, rfl, hpassed.1, hpassed.2⟩

/-- Nothing that begins a target begins more. -/
theorem begins_of_untilFirst (c : UInt16) (text : QString) : untilFirst c text <+: text := by
  rw [untilFirst]
  split
  · exact List.prefix_rfl
  · exact List.take_prefix _ _

variable (lib unicode urls fs)

/-- **Links to files stay beside the document.**  A target leads to a file only where that is a
Markdown file within the directory of the document; paths and addresses of the file system lead
nowhere. -/
theorem local_link_containment (index : UInt16) (target : QString) (state : Option PrepareState) :
    ((classifiedLink lib unicode urls fs index target state).kind = .localFile →
      ∃ request, state.bind (·.request) = some request ∧
        IsMarkdownWithin unicode fs (absolutePath fs request.sourcePath)
          (untilFirst (unit '#') target)
          (classifiedLink lib unicode urls fs index target state).target) ∧
    (IsFileSystemTarget unicode target →
      (classifiedLink lib unicode urls fs index target state).kind = .rejectedRelative) := by
  constructor
  · intro hkind
    obtain ⟨request, hrequest, hfile, htarget, hcontained, hmarkdown⟩ :=
      classifiedLink_localFile rfl hkind
    refine ⟨request, hrequest, ?_⟩
    rw [htarget] at hcontained hmarkdown ⊢
    have hdirectory := @isNormal_absolutePath fs request.sourcePath
    have habs := absolute_of_cleanPath (absolute_of_isContainedPath hdirectory hcontained)
    obtain ⟨rest, hrest⟩ := startsWith_slash_iff.1 (absolute_of_cleanPath habs)
    have hnormal := @isNormal_cleanPath fs rest
    rw [← hrest] at hnormal
    refine ⟨hnormal, components_of_isContainedPath hdirectory hnormal hcontained, ?_, hmarkdown⟩
    intro hup
    refine components_of_no_up hdirectory hup habs fun hslash => ?_
    -- what begins the target begins it before the fragment, too
    have hstart : startsWith target [slash] = true :=
      startsWith_iff.2 ((startsWith_iff.1 hslash).trans (begins_of_untilFirst _ _))
    obtain ⟨after, hafter⟩ := startsWith_slash_iff.1 hstart
    rw [hafter] at hfile
    exact absurd (looksLikeFilesystemTarget_of (.absolute after)) (Bool.eq_false_iff.1 hfile)
  · intro htarget
    rw [classifiedLink]
    dsimp only
    rw [if_neg (not_startsWith_hash htarget), if_pos (looksLikeFilesystemTarget_of htarget)]

end

/-! ## Letter case -/

theorem eq_slash_of_asciiLower {c : UInt16} (h : asciiLower c = slash) : c = slash := by
  rw [asciiLower] at h
  split_ifs at h with hupper
  · have hfirst : 65 ≤ c.toNat := UInt16.le_iff_toNat_le.1 hupper.1
    have hlast : c.toNat ≤ 90 := UInt16.le_iff_toNat_le.1 hupper.2
    have hsum : (c.toNat + 32) % 65536 = 47 := congrArg UInt16.toNat h
    omega
  · exact h

/-- Unicode, of ASCII characters only. -/
def asciiUnicode : Unicode where
  isLetter c := (unit 'A' ≤ c && c ≤ unit 'Z') || (unit 'a' ≤ c && c ≤ unit 'z')
  isLetterOrNumber c := (unit 'A' ≤ c && c ≤ unit 'Z') || (unit 'a' ≤ c && c ≤ unit 'z')
    || (unit '0' ≤ c && c ≤ unit '9')
  isSpace c := c == unit ' '
  toLower text := text.map asciiLower
  equalIgnoringCase a b := a.map asciiLower == b.map asciiLower
  hash_not_letter := by decide
  lower_nil text := by simp
  lower_slash before after := by simp [show asciiLower slash = slash by decide]
  mem_of_lower text h := by
    obtain ⟨c, hc, hlower⟩ := List.mem_map.1 h
    exact eq_slash_of_asciiLower hlower ▸ hc
  equal_ascii a b h := by simp [h]

instance : Inhabited Unicode := ⟨asciiUnicode⟩

/-- A document of `/a/D` has a link that steps out of that directory and into `/a/d`. -/
theorem letter_case_ignored :
    let fs : FileSystem := ⟨[slash], false, by decide⟩
    let urls : Urls := ⟨id, id⟩
    let link := classifiedLink default asciiUnicode urls fs 0 (ascii "../d/y.md")
      (some ⟨some ⟨ascii "/a/D/x.md"⟩⟩)
    link.kind = .localFile ∧
      ¬components (absolutePath fs (ascii "/a/D/x.md")) <+: components link.target := by
  decide +kernel

end Yunogram.Iv.Markdown
