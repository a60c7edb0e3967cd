import Mathlib
import Yunogram.Dialogs.DialogsRuns

/-!
# Dialogs/IndexedList — a chat list with a list of its own for each first letter

The rows of a chat list stand once more in the list of each letter that a word of their names starts
with.  A name that changes takes its row out of the lists of the letters it lost and into those of
the letters it got; a date that changes leaves the lists of letters as they are, until one of them
is asked for.

The functions are followed by what each of them does to the list of one letter; `changes_relabel` is
the one for a changed name.
-/

open Machinery

namespace Yunogram.Dialogs

/-- `QChar`, a UTF-16 unit. -/
abbrev QChar := Fin 65536

/-- `QString`. -/
abbrev QString := List QChar

/-- `base::flat_set<QChar>`. -/
abbrev Letters := { letters : List QChar // letters.Pairwise (· < ·) }

/-- What an entry is found and sorted by, besides its date. -/
structure ChatName where
  nameWords : List QString
  firstLetters : Letters
  nameSortKey : QString

variable {Key Ratio : Type} [LinearOrder Key]

/-! ## Rows in the order of their names -/

namespace DialogsList

/-- `adjustByName`. -/
def adjustByName (names : Key → ChatName) (l : DialogsList Key Ratio) (row : Key) :
    DialogsList Key Ratio :=
  let key := (names row).nameSortKey
  let index := (l.row row).index
  let before := index + 1 +
    (l.rows.drop (index + 1)).findIdx fun row => decide (key ≤ (names row).nameSortKey)
  if before ≠ index + 1 then l.rotate index (index + 1) before
  else if index ≠ 0 then
    let after := index -
      (l.rows.take index).reverse.findIdx fun row => decide ((names row).nameSortKey ≤ key)
    if after ≠ index then l.rotate after index (index + 1) else l
  else l

/-- `adjustByName` of a key, which may have no row. -/
def adjustKeyByName (names : Key → ChatName) (l : DialogsList Key Ratio) (key : Key) :
    DialogsList Key Ratio :=
  if (l.getRow key).isSome then l.adjustByName names key else l

/-- `addByName`. -/
def addByName (entries : Key → RowEntry Ratio) (names : Key → ChatName)
    (l : DialogsList Key Ratio) (key : Key) (address : ℕ) : DialogsList Key Ratio :=
  (l.addToEnd entries key address).adjustKeyByName names key

variable {l : DialogsList Key Ratio} {key : Key} {xs ys : List Key}

/-- **A row is moved by its name**, the others stay as they are. -/
theorem Placed.adjustByName (names : Key → ChatName) (h : l.Placed)
    (hrows : l.rows = xs ++ key :: ys) : Reordered l (l.adjustByName names key) := by
  rw [DialogsList.adjustByName, h.index_eq hrows]
  dsimp only
  have hbelow : l.rows.drop (xs.length + 1) = ys := by
    rw [hrows, List.drop_append]
    simp
  have habove : l.rows.take xs.length = xs := by rw [hrows, List.take_left]
  rw [hbelow, habove]
  split_ifs with hdown htop hup
  · set n := ys.findIdx fun row => decide ((names key).nameSortKey ≤ (names row).nameSortKey)
    have hn : n ≤ ys.length := List.findIdx_le_length
    have hsplit : l.rows = xs ++ ([key] ++ ys.take n) ++ ys.drop n := by
      rw [hrows, List.append_assoc, List.append_assoc, List.take_append_drop]
      rfl
    exact (h.rotate hsplit (List.cons_ne_nil _ _) rfl rfl
      (by rw [List.length_take, min_eq_left hn]; rfl)).2
  · set n := xs.reverse.findIdx fun row =>
      decide ((names row).nameSortKey ≤ (names key).nameSortKey)
    have hsplit : l.rows = xs.take (xs.length - n) ++ (xs.drop (xs.length - n) ++ [key]) ++ ys := by
      rw [hrows, ← List.append_assoc, List.take_append_drop, List.append_assoc]
      rfl
    refine (h.rotate hsplit (List.append_ne_nil_of_right_ne_nil _ (List.cons_ne_nil _ _)) ?_ ?_
      rfl).2
    · rw [List.length_take, min_eq_left (Nat.sub_le _ _)]
    · rw [List.length_drop]
      omega
  · exact Reordered.refl h
  · exact Reordered.refl h

theorem Sound.adjustKeyByName (names : Key → ChatName) (h : l.Sound) (key : Key) :
    Reordered l (l.adjustKeyByName names key) := by
  rw [DialogsList.adjustKeyByName]
  split_ifs with hrow
  · obtain ⟨xs, ys, hrows⟩ := List.append_of_mem ((h.placed.mem key).mpr hrow)
    exact Placed.adjustByName names h.placed hrows
  · exact Reordered.refl h.placed

theorem Sound.addByName (entries : Key → RowEntry Ratio) (names : Key → ChatName) (h : l.Sound)
    (key : Key) (address : ℕ) :
    (l.addByName entries names key address).Sound ∧
      (∀ k, k ∈ (l.addByName entries names key address).rows ↔ k ∈ l.rows ∨ key = k) ∧
      (l.addByName entries names key address).sortMode = l.sortMode := by
  obtain ⟨hsound, hmem, hmode⟩ := h.addToEnd entries key address
  have hmoved := hsound.adjustKeyByName names key
  exact ⟨hmoved.sound hsound, fun k => hmoved.perm.mem_iff.trans (hmem k),
    hmoved.sortMode.trans hmode⟩

end DialogsList

/-! ## The lists of letters -/

/-- The list of a letter, and the version in which it was sorted. -/
structure LetterList (Key Ratio : Type) [LinearOrder Key] where
  list : DialogsList Key Ratio
  dateOrderVersion : ℕ

/-- `IndexedList`; `narrowRatio` is the one that a new list has. -/
structure IndexedList (Key Ratio : Type) [LinearOrder Key] where
  sortMode : SortMode
  narrowRatio : Ratio
  dateVersion : ℕ
  list : DialogsList Key Ratio
  index : FlatMap QChar (LetterList Key Ratio)

namespace IndexedList

/-- `IndexedList(sortMode)`. -/
def new (sortMode : SortMode) (narrowRatio : Ratio) : IndexedList Key Ratio where
  sortMode := sortMode
  narrowRatio := narrowRatio
  dateVersion := 1
  list := DialogsList.new sortMode narrowRatio
  index := FlatMap.empty

/-- The list that `_index.emplace` makes. -/
def newLetter (s : IndexedList Key Ratio) : LetterList Key Ratio :=
  ⟨DialogsList.new s.sortMode s.narrowRatio, 0⟩

/-- The list of a letter is found or made, and changed. -/
def withLetter (change : QChar → DialogsList Key Ratio → DialogsList Key Ratio)
    (s : IndexedList Key Ratio) (ch : QChar) : IndexedList Key Ratio :=
  let l := (s.index.find? ch).getD s.newLetter
  { s with index := s.index.assign ch { l with list := change ch l.list } }

/-- The list of a letter is changed if it is found. -/
def atLetter (change : QChar → DialogsList Key Ratio → DialogsList Key Ratio)
    (s : IndexedList Key Ratio) (ch : QChar) : IndexedList Key Ratio :=
  match s.index.find? ch with
  | some l => { s with index := s.index.assign ch { l with list := change ch l.list } }
  | none => s

variable (entries : Key → RowEntry Ratio) (names : Key → ChatName)

/-- `addToEnd`, with the address that each new row gets. -/
def addToEnd (s : IndexedList Key Ratio) (key : Key) (address : Option QChar → ℕ) :
    IndexedList Key Ratio :=
  if (s.list.getRow key).isSome then s
  else
    let added := (names key).firstLetters.val.foldl
      (withLetter fun ch l => l.addToEnd entries key (address (some ch)))
      { s with list := s.list.addToEnd entries key (address none) }
    { added with dateVersion := added.dateVersion + 1 }

/-- `addByName`; nothing where its assertion fails. -/
def addByName (s : IndexedList Key Ratio) (key : Key) (address : Option QChar → ℕ) :
    Option (IndexedList Key Ratio) :=
  if (s.list.getRow key).isSome then some s
  else if s.sortMode = .name then
    some ((names key).firstLetters.val.foldl
      (withLetter fun ch l => l.addByName entries names key (address (some ch)))
      { s with list := s.list.addByName entries names key (address none) })
  else none

/-- `adjustByDate`. -/
def adjustByDate (s : IndexedList Key Ratio) (key : Key) : IndexedList Key Ratio :=
  { s with list := s.list.adjustByDate entries key, dateVersion := s.dateVersion + 1 }

/-- The loop over the letters of a changed name, `toRemove` and `toAdd` with it. -/
def keepLetters (kept : QChar → DialogsList Key Ratio → DialogsList Key Ratio) :
    IndexedList Key Ratio → (toRemove toAdd letters : List QChar) →
      IndexedList Key Ratio × List QChar × List QChar
  | s, toRemove, toAdd, [] => (s, toRemove, toAdd)
  | s, toRemove, toAdd, ch :: letters =>
    if ch ∈ toRemove then keepLetters kept (s.atLetter kept ch) (toRemove.erase ch) toAdd letters
    else keepLetters kept s toRemove (toAdd ++ [ch]) letters

/-- What a changed name does to the lists of letters. -/
def relabel (kept removed added : QChar → DialogsList Key Ratio → DialogsList Key Ratio)
    (s : IndexedList Key Ratio) (oldLetters letters : Letters) : IndexedList Key Ratio :=
  let (s, toRemove, toAdd) := s.keepLetters kept oldLetters.val [] letters.val
  toAdd.foldl (withLetter added) (toRemove.foldl (atLetter removed) s)

/-- `adjustByName`. -/
def adjustByName (s : IndexedList Key Ratio) (key : Key) (oldLetters : Letters)
    (address : QChar → ℕ) : IndexedList Key Ratio :=
  if (s.list.getRow key).isSome then
    { s with list := s.list.adjustByName names key }.relabel
      (fun _ l => l.adjustKeyByName names key) (fun _ l => (l.remove key).1)
      (fun ch l => l.addByName entries names key (address ch)) oldLetters (names key).firstLetters
  else s

/-- `adjustNames`. -/
def adjustNames (s : IndexedList Key Ratio) (key : Key) (oldLetters : Letters)
    (address : QChar → ℕ) : IndexedList Key Ratio :=
  if (s.list.getRow key).isSome then
    let relabelled := s.relabel (fun _ l => l) (fun _ l => (l.remove key).1)
      (fun ch l => l.addToEnd entries key (address ch)) oldLetters (names key).firstLetters
    { relabelled with dateVersion := relabelled.dateVersion + 1 }
  else s

/-- `peerNameChanged`, the one of the list's mode. -/
def peerNameChanged (s : IndexedList Key Ratio) (key : Key) (oldLetters : Letters)
    (address : QChar → ℕ) : IndexedList Key Ratio :=
  if s.sortMode = .name then s.adjustByName entries names key oldLetters address
  else s.adjustNames entries names key oldLetters address

/-- `freeze`. -/
def freeze (s : IndexedList Key Ratio) : IndexedList Key Ratio :=
  { s with
    list := s.list.freeze
    index := s.index.mapValues fun l => { l with list := l.list.freeze } }

/-- `unfreeze`. -/
def unfreeze (s : IndexedList Key Ratio) : IndexedList Key Ratio :=
  { s with
    list := s.list.unfreeze entries
    index := s.index.mapValues fun l => { l with list := l.list.unfreeze entries } }

/-- `remove`. -/
def remove (s : IndexedList Key Ratio) (key : Key) : IndexedList Key Ratio :=
  let (list, removed) := s.list.remove key
  let s := { s with list := list }
  if removed then (names key).firstLetters.val.foldl (atLetter fun _ l => (l.remove key).1) s
  else s

/-- `filtered` of a letter, which sorts a list that is behind. -/
def filtered (s : IndexedList Key Ratio) (ch : QChar) :
    Option (DialogsList Key Ratio) × IndexedList Key Ratio :=
  match s.index.find? ch with
  | none => (none, s)
  | some l =>
    if s.sortMode = .date ∧ l.dateOrderVersion ≠ s.dateVersion then
      let sorted := l.list.sortByDate entries
      (some sorted, { s with index := s.index.assign ch ⟨sorted, s.dateVersion⟩ })
    else (some l.list, s)

/-- The shortest of the lists that some words start in, `result` being the shortest so far. -/
def minimal (s : IndexedList Key Ratio) (result : Option (DialogsList Key Ratio)) :
    List QString → Option (DialogsList Key Ratio) × IndexedList Key Ratio
  | [] => (result, s)
  | [] :: words => minimal s result words
  | (ch :: _) :: words =>
    match s.filtered entries ch with
    | (none, s) => (none, s)
    | (some found, s) =>
      if found.rows.isEmpty then (none, s)
      else if result.all fun result => decide (found.rows.length < result.rows.length) then
        minimal s (some found) words
      else minimal s result words

/-- Whether each word starts a word of a name. -/
def allFound (nameWords words : List QString) : Bool :=
  words.all fun word => nameWords.any fun name => word.isPrefixOf name

/-- `filtered` of words, its rows by their keys. -/
def filteredWords (s : IndexedList Key Ratio) (words : List QString) :
    List Key × IndexedList Key Ratio :=
  if s.list.rows.isEmpty then ([], s)
  else match s.minimal entries none words with
    | (none, s) => ([], s)
    | (some found, s) => (found.rows.filter fun key => allFound (names key).nameWords words, s)

/-! ## What happens to the list of one letter -/

variable {s s' s'' : IndexedList Key Ratio} {key : Key} {ch : QChar} {letters : List QChar}
  {change change' kept : QChar → DialogsList Key Ratio → DialogsList Key Ratio}

/-- The list of a letter; a letter without one has an empty list. -/
def letter (s : IndexedList Key Ratio) (ch : QChar) : LetterList Key Ratio :=
  (s.index.find? ch).getD s.newLetter

/-- The list of each letter is changed, and nothing else. -/
structure Changes (change : QChar → DialogsList Key Ratio → DialogsList Key Ratio)
    (s s' : IndexedList Key Ratio) : Prop where
  rest : s' = { s with index := s'.index }
  letter : ∀ c, s'.letter c = { s.letter c with list := change c (s.letter c).list }

namespace Changes

theorem refl (s : IndexedList Key Ratio) : Changes (fun _ l => l) s s := ⟨rfl, fun _ => rfl⟩

theorem trans (h : Changes change s s') (h' : Changes change' s' s'') :
    Changes (fun c l => change' c (change c l)) s s'' where
  rest := by rw [h'.rest, h.rest]
  letter c := by rw [h'.letter, h.letter]

theorem congr (h : Changes change s s')
    (heq : ∀ c, change' c (s.letter c).list = change c (s.letter c).list) :
    Changes change' s s' where
  rest := h.rest
  letter c := by rw [h.letter, heq]

theorem newLetter (h : Changes change s s') : s'.newLetter = s.newLetter := by
  rw [h.rest]
  rfl

theorem dateVersion (h : Changes change s s') : s'.dateVersion = s.dateVersion := by rw [h.rest]

end Changes

/-- A change of one letter. -/
def only (change : QChar → DialogsList Key Ratio → DialogsList Key Ratio) (letters : List QChar)
    (c : QChar) (l : DialogsList Key Ratio) : DialogsList Key Ratio :=
  if c ∈ letters then change c l else l

theorem changes_assign (l : LetterList Key Ratio) (hl : s.letter ch = l) :
    Changes (only change [ch]) s
      { s with index := s.index.assign ch { l with list := change ch l.list } } := by
  refine ⟨rfl, fun c => ?_⟩
  rw [letter, FlatMap.find?_assign]
  by_cases heq : c = ch
  · rw [if_pos heq, heq, hl, only, if_pos (List.mem_singleton.mpr rfl)]
    rfl
  · rw [if_neg heq, only, if_neg (fun h => heq (List.mem_singleton.mp h))]
    rfl

theorem changes_withLetter (s : IndexedList Key Ratio) (ch : QChar) :
    Changes (only change [ch]) s (s.withLetter change ch) :=
  changes_assign _ rfl

/-- A change that keeps an empty list is as good for a letter without a list. -/
theorem changes_atLetter (s : IndexedList Key Ratio) (ch : QChar)
    (hnew : change ch s.newLetter.list = s.newLetter.list) :
    Changes (only change [ch]) s (s.atLetter change ch) := by
  rw [atLetter]
  cases hfind : s.index.find? ch with
  | some l => exact changes_assign l (by rw [letter, hfind]; rfl)
  | none =>
    refine (Changes.refl s).congr fun c => ?_
    rw [only]
    split_ifs with hc
    · rw [List.mem_singleton.mp hc, letter, hfind]
      exact hnew
    · rfl

/-- **A loop changes the list of each of its letters once.** -/
theorem changes_foldl {f : IndexedList Key Ratio → QChar → IndexedList Key Ratio}
    (hf : ∀ s' ch, s'.newLetter = s.newLetter → Changes (only change [ch]) s' (f s' ch))
    (hnodup : letters.Nodup) : Changes (only change letters) s (letters.foldl f s) := by
  induction letters generalizing s with
  | nil => exact (Changes.refl s).congr fun c => if_neg List.not_mem_nil
  | cons ch letters ih =>
    obtain ⟨hnot, hnodup⟩ := List.nodup_cons.mp hnodup
    have hone := hf s ch rfl
    have hall := ih (fun s' ch h => hf s' ch (h.trans hone.newLetter)) hnodup
    refine (hone.trans hall).congr fun c => ?_
    simp only [only, List.mem_cons, List.not_mem_nil, or_false]
    by_cases heq : c = ch
    · rw [if_pos (.inl heq), if_pos heq, if_neg (heq ▸ hnot)]
    · simp only [heq, false_or, if_false]

theorem changes_keepLetters (hkept : ∀ ch, kept ch s.newLetter.list = s.newLetter.list)
    {toRemove toAdd : List QChar} (hremove : toRemove.Nodup) (hadd : (toAdd ++ letters).Nodup) :
    ∃ s' toRemove' toAdd', s.keepLetters kept toRemove toAdd letters = (s', toRemove', toAdd') ∧
      Changes (only (only kept letters) toRemove) s s' ∧ toRemove'.Nodup ∧ toAdd'.Nodup ∧
      (∀ c, c ∈ toRemove' ↔ c ∈ toRemove ∧ c ∉ letters) ∧
      ∀ c, c ∈ toAdd' ↔ c ∈ toAdd ∨ c ∈ letters ∧ c ∉ toRemove := by
  induction letters generalizing s toRemove toAdd with
  | nil =>
    refine ⟨s, toRemove, toAdd, rfl, (Changes.refl s).congr fun c => ?_, hremove,
      by rwa [List.append_nil] at hadd, by simp, by simp⟩
    simp [only]
  | cons ch letters ih =>
    rw [keepLetters]
    have hnot : ch ∉ letters :=
      (List.nodup_cons.mp (List.nodup_append.mp hadd).2.1).1
    split_ifs with hch
    · have hone := changes_atLetter s ch (hkept ch)
      have hadd' : (toAdd ++ letters).Nodup :=
        hadd.sublist ((List.sublist_cons_self ch letters).append_left toAdd)
      obtain ⟨s', toRemove', toAdd', hresult, hchanges, hnodup, hnodup', hmem, hmem'⟩ :=
        ih (s := s.atLetter kept ch) (fun ch => by rw [hone.newLetter]; exact hkept ch)
          (hremove.erase ch) hadd'
      refine ⟨s', toRemove', toAdd', hresult, (hone.trans hchanges).congr fun c => ?_, hnodup,
        hnodup', fun c => ?_, fun c => ?_⟩
      · by_cases heq : c = ch
        · simp [only, heq, hch, hnot]
        · simp [only, heq, List.mem_erase_of_ne heq]
      · rw [hmem, hremove.mem_erase_iff, List.mem_cons]
        tauto
      · rw [hmem', hremove.mem_erase_iff, List.mem_cons]
        constructor
        · rintro (h | ⟨h, hkeep⟩)
          · exact .inl h
          · exact .inr ⟨.inr h, fun hmem => hkeep ⟨fun heq => hnot (heq ▸ h), hmem⟩⟩
        · rintro (h | ⟨rfl | h, hkeep⟩)
          · exact .inl h
          · exact absurd hch hkeep
          · exact .inr ⟨h, fun h => hkeep h.2⟩
    · have hadd' : (toAdd ++ [ch] ++ letters).Nodup := by
        rwa [List.append_assoc, List.singleton_append]
      obtain ⟨s', toRemove', toAdd', hresult, hchanges, hnodup, hnodup', hmem, hmem'⟩ :=
        ih hkept hremove hadd'
      refine ⟨s', toRemove', toAdd', hresult, hchanges.congr fun c => ?_, hnodup, hnodup',
        fun c => ?_, fun c => ?_⟩
      · by_cases heq : c = ch
        · simp [only, heq, hch]
        · simp [only, heq]
      · rw [hmem, List.mem_cons, not_or]
        constructor
        · rintro ⟨h, hnot⟩
          exact ⟨h, fun heq => hch (heq ▸ h), hnot⟩
        · rintro ⟨h, -, hnot⟩
          exact ⟨h, hnot⟩
      · rw [hmem', List.mem_append, List.mem_singleton, List.mem_cons]
        constructor
        · rintro ((h | rfl) | h)
          · exact .inl h
          · exact .inr ⟨.inl rfl, hch⟩
          · exact .inr ⟨.inr h.1, h.2⟩
        · rintro (h | ⟨rfl | h, hnot⟩)
          · exact .inl (.inl h)
          · exact .inl (.inr rfl)
          · exact .inr ⟨h, hnot⟩

/-- **What a changed name does to the list of a letter.** -/
theorem changes_relabel (s : IndexedList Key Ratio)
    (kept removed added : QChar → DialogsList Key Ratio → DialogsList Key Ratio)
    (hkept : ∀ ch, kept ch s.newLetter.list = s.newLetter.list)
    (hremoved : ∀ ch, removed ch s.newLetter.list = s.newLetter.list)
    (oldLetters letters : Letters) :
    Changes (fun c l =>
        if c ∈ letters.val then if c ∈ oldLetters.val then kept c l else added c l
        else if c ∈ oldLetters.val then removed c l else l)
      s (s.relabel kept removed added oldLetters letters) := by
  have hnodup : oldLetters.val.Nodup := oldLetters.2.imp fun h => h.ne
  have hnodup' : ([] ++ letters.val).Nodup := letters.2.imp fun h => h.ne
  obtain ⟨s', toRemove, toAdd, hresult, hchanges, hremove, hadd, hmem, hmem'⟩ :=
    changes_keepLetters hkept hnodup hnodup'
  rw [relabel, hresult]
  have hout := changes_foldl (s := s') (f := atLetter removed)
    (fun s' ch h => changes_atLetter s' ch (by rw [h, hchanges.newLetter]; exact hremoved ch))
    hremove
  have hin := changes_foldl (f := withLetter added)
    (s := toRemove.foldl (atLetter removed) s') (fun s' ch _ => changes_withLetter s' ch) hadd
  refine ((hchanges.trans hout).trans hin).congr fun c => ?_
  simp only [only, hmem, hmem', List.not_mem_nil, false_or]
  by_cases hnew : c ∈ letters.val
  · by_cases hold : c ∈ oldLetters.val
    · simp [hnew, hold]
    · simp [hnew, hold]
  · by_cases hold : c ∈ oldLetters.val
    · simp [hnew, hold]
    · simp [hnew, hold]

end IndexedList

end Yunogram.Dialogs
