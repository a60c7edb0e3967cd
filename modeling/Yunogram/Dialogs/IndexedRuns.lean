import Yunogram.Dialogs.IndexedList

/-!
# Dialogs/IndexedRuns — the list of a letter agrees with the whole list

Whatever is done with the lists, and however names and dates change, the list of a letter has the
rows whose entries have that letter among their first letters (`Agrees`).  In a list by date it is
in order when it is asked for.

The result is `filtered_agrees`, which is also about words: those of which one is not empty find the
rows with a word of a name for each of them, and no other words find any row.
-/

open Machinery

namespace Yunogram.Dialogs

variable {Key Ratio : Type} [LinearOrder Key]

namespace DialogsList

variable {l : DialogsList Key Ratio} {entries entries' : Key → RowEntry Ratio} {key : Key}

omit [LinearOrder Key] in
theorem Descending.congr {rows : List Key} (h : Descending entries rows)
    (hkeys : ∀ k ∈ rows, (entries' k).sortKey = (entries k).sortKey) :
    Descending entries' rows := by
  refine List.Pairwise.imp_of_mem ?_ h
  intro a b ha hb hab
  rw [hkeys a ha, hkeys b hb]
  exact hab

/-- A row that is removed leaves the others as they are. -/
theorem remove_sublist (l : DialogsList Key Ratio) (key : Key) :
    (l.remove key).1.rows.Sublist l.rows := by
  cases hrow : l.rowByKey.find? key with
  | none => rw [remove_none hrow]
  | some row =>
    rw [(remove_some hrow).1]
    exact List.eraseIdx_sublist _ _

theorem Sound.descending_adjustByDate (h : l.Sound) (hfrozen : l.frozen = false)
    (hkey : key ∈ l.rows) (hdesc : Descending entries l.rows) :
    Descending entries (l.adjustByDate entries key).rows := by
  obtain ⟨xs, ys, hrows⟩ := List.append_of_mem hkey
  rw [adjustByDate_of_thawed hfrozen]
  rw [hrows] at hdesc
  exact (h.placed.moveByDate entries hrows).2
    (hdesc.sublist ((List.sublist_cons_self key ys).append_left xs))

theorem descending_foldl {pending : List Key} (h : l.Sound) (hfrozen : l.frozen = false)
    (hpending : ∀ k ∈ pending, k ∈ l.rows) (hdesc : Descending entries l.rows) :
    Descending entries (pending.foldl (fun l row => l.adjustByDate entries row) l).rows := by
  induction pending generalizing l with
  | nil => exact hdesc
  | cons key pending ih =>
    have hkey := hpending key List.mem_cons_self
    obtain ⟨hsound, hperm, -⟩ := h.adjustByDate entries hkey
    obtain ⟨xs, ys, hrows⟩ := List.append_of_mem hkey
    have hfrozen' : (l.adjustByDate entries key).frozen = false := by
      rw [adjustByDate_of_thawed hfrozen]
      exact (h.placed.moveByDate entries hrows).1.frozen.trans hfrozen
    refine ih hsound hfrozen' (fun k hk => ?_) (h.descending_adjustByDate hfrozen hkey hdesc)
    exact hperm.mem_iff.mpr (hpending k (List.mem_cons_of_mem key hk))

/-- **Unfreezing keeps a list that is in order in order.** -/
theorem Sound.descending_unfreeze (h : l.Sound) (hdesc : Descending entries l.rows) :
    Descending entries (l.unfreeze entries).rows := by
  have hthawed : l.thawed.Sound := ⟨h.placed, fun k hk => nomatch hk⟩
  have hdesc' : Descending entries l.thawed.rows := hdesc
  have hall := descending_foldl hthawed rfl h.pending hdesc'
  rw [unfreeze]
  rcases hpending : l.pendingAdjust with _ | ⟨row, _ | ⟨row', rest⟩⟩
  · exact hdesc
  · rw [hpending] at hall
    exact hall
  · rw [hpending] at hall
    dsimp only
    split_ifs
    · exact hall
    · exact descending_sortByDate

/-- A list of a mode has the keys of a kind. -/
structure Has (l : DialogsList Key Ratio) (mode : SortMode) (P : Key → Prop) : Prop where
  sound : l.Sound
  sortMode : l.sortMode = mode
  mem : ∀ k, k ∈ l.rows ↔ P k

namespace Has

variable {mode : SortMode} {P Q : Key → Prop}

theorem congr (h : Has l mode P) (hiff : ∀ k, P k ↔ Q k) : Has l mode Q :=
  ⟨h.sound, h.sortMode, fun k => (h.mem k).trans (hiff k)⟩

theorem reordered {l' : DialogsList Key Ratio} (h : Has l mode P) (hl : Reordered l l') :
    Has l' mode P :=
  ⟨hl.sound h.sound, hl.sortMode.trans h.sortMode, fun k => hl.perm.mem_iff.trans (h.mem k)⟩

theorem addToEnd (h : Has l mode P) (entries : Key → RowEntry Ratio) (key : Key) (address : ℕ) :
    Has (l.addToEnd entries key address) mode fun k => P k ∨ key = k := by
  obtain ⟨hsound, hmem, hmode⟩ := h.sound.addToEnd entries key address
  exact ⟨hsound, hmode.trans h.sortMode, fun k => (hmem k).trans (or_congr_left (h.mem k))⟩

theorem addByName (h : Has l mode P) (entries : Key → RowEntry Ratio) (names : Key → ChatName)
    (key : Key) (address : ℕ) :
    Has (l.addByName entries names key address) mode fun k => P k ∨ key = k := by
  obtain ⟨hsound, hmem, hmode⟩ := h.sound.addByName entries names key address
  exact ⟨hsound, hmode.trans h.sortMode, fun k => (hmem k).trans (or_congr_left (h.mem k))⟩

theorem remove (h : Has l mode P) (key : Key) :
    Has (l.remove key).1 mode fun k => P k ∧ k ≠ key := by
  obtain ⟨hsound, hmem, hmode⟩ := h.sound.remove key
  exact ⟨hsound, hmode.trans h.sortMode, fun k => (hmem k).trans (and_congr_left' (h.mem k))⟩

theorem adjustKeyByName (h : Has l mode P) (names : Key → ChatName) (key : Key) :
    Has (l.adjustKeyByName names key) mode P :=
  h.reordered (h.sound.adjustKeyByName names key)

theorem freeze (h : Has l mode P) : Has l.freeze mode P :=
  ⟨⟨h.sound.placed, h.sound.pending⟩, h.sortMode, h.mem⟩

theorem unfreeze (h : Has l mode P) (entries : Key → RowEntry Ratio) :
    Has (l.unfreeze entries) mode P := by
  have hthawed : Has l.thawed mode P :=
    ⟨⟨h.sound.placed, fun k hk => nomatch hk⟩, h.sortMode, h.mem⟩
  exact hthawed.reordered (h.sound.reordered_unfreeze entries)

end Has

theorem has_new (mode : SortMode) (narrowRatio : Ratio) :
    Has (new mode narrowRatio : DialogsList Key Ratio) mode fun _ => False :=
  ⟨sound_new mode, rfl, fun _ => ⟨(nomatch ·), False.elim⟩⟩

end DialogsList

open DialogsList

/-! ## The invariant -/

namespace IndexedList

variable {entries entries' : Key → RowEntry Ratio} {names names' : Key → ChatName}
  {s s' : IndexedList Key Ratio} {l : LetterList Key Ratio} {key : Key} {ch : QChar}

/-- The list of a letter agrees with the list of all, and is in order if it is not behind. -/
structure LetterAgrees (entries : Key → RowEntry Ratio) (names : Key → ChatName)
    (s : IndexedList Key Ratio) (ch : QChar) (l : LetterList Key Ratio) : Prop where
  has : Has l.list s.sortMode fun k => k ∈ s.list.rows ∧ ch ∈ (names k).firstLetters.val
  version : l.dateOrderVersion ≤ s.dateVersion
  sorted : s.sortMode = .date → l.dateOrderVersion = s.dateVersion →
    Descending entries l.list.rows

/-- **Each list of a letter agrees with the list of all.** -/
structure Agrees (entries : Key → RowEntry Ratio) (names : Key → ChatName)
    (s : IndexedList Key Ratio) : Prop where
  sound : s.list.Sound
  sortMode : s.list.sortMode = s.sortMode
  letter : ∀ ch, LetterAgrees entries names s ch (s.letter ch)

theorem Agrees.has (h : Agrees entries names s) : Has s.list s.sortMode (· ∈ s.list.rows) :=
  ⟨h.sound, h.sortMode, fun _ => Iff.rfl⟩

theorem agrees_new (entries : Key → RowEntry Ratio) (names : Key → ChatName) (mode : SortMode)
    (narrowRatio : Ratio) : Agrees entries names (new mode narrowRatio) where
  sound := sound_new mode
  sortMode := rfl
  letter _ :=
    { has := (has_new mode narrowRatio).congr fun _ => ⟨False.elim, fun h => List.not_mem_nil h.1⟩
      version := Nat.zero_le _
      sorted := fun _ _ => List.Pairwise.nil }

theorem getRow_isSome (h : s.list.Sound) : (s.list.getRow key).isSome ↔ key ∈ s.list.rows :=
  (h.placed.mem key).symm

/-- **The lists of letters are changed along with the list of all**: either in a way that leaves
those in order that were, or all of them are behind from then on. -/
theorem Agrees.changed (h : Agrees entries names s) {list : DialogsList Key Ratio}
    {change : QChar → DialogsList Key Ratio → DialogsList Key Ratio} {version : ℕ}
    (hchanges : Changes change { s with list := list } s')
    (hlist : list.Sound ∧ list.sortMode = s.sortMode)
    (hletter : ∀ ch l, l = (s.letter ch).list →
      Has l s.sortMode (fun k => k ∈ s.list.rows ∧ ch ∈ (names k).firstLetters.val) →
      Has (change ch l) s.sortMode fun k => k ∈ list.rows ∧ ch ∈ (names' k).firstLetters.val)
    (hversion : s.dateVersion ≤ version)
    (hsorted : s.sortMode = .date → version = s.dateVersion → ∀ ch,
      (∀ k ∈ (s.letter ch).list.rows, k ∈ s.list.rows) → (s.letter ch).list.Sound →
      Descending entries (s.letter ch).list.rows →
      Descending entries' (change ch (s.letter ch).list).rows) :
    Agrees entries' names' { s' with dateVersion := version } := by
  have hrest := hchanges.rest
  refine ⟨?_, ?_, fun ch => ?_⟩
  · rw [hrest]; exact hlist.1
  · rw [hrest]; exact hlist.2
  · have hch := h.letter ch
    have hafter : (IndexedList.letter { s' with dateVersion := version } ch) =
        { s.letter ch with list := change ch (s.letter ch).list } := hchanges.letter ch
    rw [hafter]
    have hmode : s'.sortMode = s.sortMode := by rw [hrest]
    have hrows : s'.list = list := by rw [hrest]
    refine ⟨?_, hch.version.trans hversion, fun hdate heq => ?_⟩
    · show Has _ s'.sortMode fun k => k ∈ s'.list.rows ∧ _
      rw [hmode, hrows]
      exact hletter ch _ rfl hch.has
    · have hsame : version = s.dateVersion :=
        le_antisymm (heq.symm.trans_le hch.version) hversion
      exact hsorted (hmode.symm.trans hdate) hsame ch (fun k hk => ((hch.has.mem k).mp hk).1)
        hch.has.sound (hch.sorted (hmode.symm.trans hdate) (heq.trans hsame))

/-! ## What is done with the lists -/

section

variable {P L : Key → Prop} {k : Key}

omit [LinearOrder Key] in
theorem listed_iff (hkey : L key) : (P k ∧ L k) ∨ key = k ↔ (P k ∨ key = k) ∧ L k := by
  constructor
  · rintro (⟨hk, hl⟩ | rfl)
    · exact ⟨.inl hk, hl⟩
    · exact ⟨.inr rfl, hkey⟩
  · rintro ⟨hk | rfl, hl⟩
    · exact .inl ⟨hk, hl⟩
    · exact .inr rfl

omit [LinearOrder Key] in
theorem unlisted_iff (hkey : ¬ L key) : P k ∧ L k ↔ (P k ∨ key = k) ∧ L k := by
  constructor
  · exact fun h => ⟨.inl h.1, h.2⟩
  · rintro ⟨hk | rfl, hl⟩
    · exact ⟨hk, hl⟩
    · exact absurd hl hkey

end

theorem Agrees.addToEnd (h : Agrees entries names s) (key : Key) (address : Option QChar → ℕ) :
    Agrees entries names (s.addToEnd entries names key address) := by
  rw [IndexedList.addToEnd]
  split_ifs with hrow
  · exact h
  have hnodup : (names key).firstLetters.val.Nodup := (names key).firstLetters.2.imp fun h => h.ne
  have hadded := h.has.addToEnd entries key (address none)
  have hchanges := changes_foldl
    (s := { s with list := s.list.addToEnd entries key (address none) })
    (f := withLetter fun ch l => l.addToEnd entries key (address (some ch)))
    (fun s' ch _ => changes_withLetter s' ch) hnodup
  dsimp only
  rw [hchanges.dateVersion]
  refine h.changed hchanges ⟨hadded.sound, hadded.sortMode⟩ (fun ch l _ hl => ?_) (Nat.le_succ _)
    fun _ heq => absurd heq (Nat.succ_ne_self _)
  simp only [hadded.mem, only]
  split_ifs with hch
  · exact (hl.addToEnd entries key _).congr fun k =>
      listed_iff (L := fun k => ch ∈ (names k).firstLetters.val) hch
  · exact hl.congr fun k =>
      unlisted_iff (L := fun k => ch ∈ (names k).firstLetters.val) hch

theorem Agrees.addByName (h : Agrees entries names s) {address : Option QChar → ℕ}
    (hs : s.addByName entries names key address = some s') : Agrees entries names s' := by
  rw [IndexedList.addByName] at hs
  split_ifs at hs with hrow hmode
  · exact Option.some.inj hs ▸ h
  obtain rfl := Option.some.inj hs
  have hnodup : (names key).firstLetters.val.Nodup := (names key).firstLetters.2.imp fun h => h.ne
  have hadded := h.has.addByName entries names key (address none)
  have hchanges := changes_foldl
    (s := { s with list := s.list.addByName entries names key (address none) })
    (f := withLetter fun ch l => l.addByName entries names key (address (some ch)))
    (fun s' ch _ => changes_withLetter s' ch) hnodup
  refine h.changed hchanges ⟨hadded.sound, hadded.sortMode⟩ (fun ch l _ hl => ?_)
    hchanges.dateVersion.ge fun hdate => absurd (hmode.symm.trans hdate) nofun
  simp only [hadded.mem, only]
  split_ifs with hch
  · exact (hl.addByName entries names key _).congr fun k =>
      listed_iff (L := fun k => ch ∈ (names k).firstLetters.val) hch
  · exact hl.congr fun k =>
      unlisted_iff (L := fun k => ch ∈ (names k).firstLetters.val) hch

theorem remove_new (key : Key) (mode : SortMode) (narrowRatio : Ratio) :
    ((DialogsList.new mode narrowRatio : DialogsList Key Ratio).remove key).1 =
      DialogsList.new mode narrowRatio :=
  remove_none rfl

theorem Agrees.remove (h : Agrees entries names s) (key : Key) :
    Agrees entries names (s.remove names key) := by
  rw [IndexedList.remove]
  have hremoved := h.has.remove key
  dsimp only
  split_ifs with hrow
  · have hnodup : (names key).firstLetters.val.Nodup :=
      (names key).firstLetters.2.imp fun h => h.ne
    have hchanges := changes_foldl (s := { s with list := (s.list.remove key).1 })
      (f := atLetter fun _ l => (l.remove key).1)
      (fun s' ch _ => changes_atLetter s' ch (remove_new key _ _)) hnodup
    refine h.changed hchanges ⟨hremoved.sound, hremoved.sortMode⟩ (fun ch l _ hl => ?_)
      hchanges.dateVersion.ge fun _ _ ch _ _ hdesc => ?_
    · simp only [hremoved.mem, only]
      split_ifs with hch
      · refine (hl.remove key).congr fun k => ?_
        rw [and_right_comm]
      · refine hl.congr fun k => ⟨?_, fun h => ⟨h.1.1, h.2⟩⟩
        exact fun h => ⟨⟨h.1, fun heq => hch (heq ▸ h.2)⟩, h.2⟩
    · rw [only]
      split_ifs
      · exact hdesc.sublist (remove_sublist _ key)
      · exact hdesc
  · have hnone : s.list.rowByKey.find? key = none := by
      cases hfind : s.list.rowByKey.find? key with
      | none => rfl
      | some row =>
        rw [DialogsList.remove, getRow, hfind] at hrow
        exact absurd rfl hrow
    rw [remove_none hnone]
    exact h

/-- A row whose letters change is kept in the list of a letter, put into it or taken out of it. -/
theorem relabelled {l kept removed added : DialogsList Key Ratio} {mode : SortMode}
    {P L L' : Key → Prop} [Decidable (L key)] [Decidable (L' key)]
    (hl : Has l mode fun k => P k ∧ L k) (hkey : P key) (hother : ∀ k, k ≠ key → (L' k ↔ L k))
    (hkept : Has kept mode fun k => P k ∧ L k)
    (hremoved : Has removed mode fun k => (P k ∧ L k) ∧ k ≠ key)
    (hadded : Has added mode fun k => (P k ∧ L k) ∨ key = k) :
    Has (if L' key then if L key then kept else added else if L key then removed else l) mode
      fun k => P k ∧ L' k := by
  split_ifs with hnew hold hold
  · refine hkept.congr fun k => and_congr_right fun _ => ?_
    by_cases heq : k = key
    · rw [heq]; exact iff_of_true hold hnew
    · exact (hother k heq).symm
  · refine hadded.congr fun k => ?_
    by_cases heq : k = key
    · rw [heq]; exact iff_of_true (.inr rfl) ⟨hkey, hnew⟩
    · rw [hother k heq]; exact or_iff_left (Ne.symm heq)
  · refine hremoved.congr fun k => ?_
    by_cases heq : k = key
    · rw [heq]; exact iff_of_false (fun h => h.2 rfl) fun h => hnew h.2
    · rw [hother k heq]; exact and_iff_left heq
  · refine hl.congr fun k => and_congr_right fun _ => ?_
    by_cases heq : k = key
    · rw [heq]; exact iff_of_false hold hnew
    · exact (hother k heq).symm

/-- A change that is about a key without a row changes no list. -/
theorem Agrees.unlisted (h : Agrees entries names s) (hkey : key ∉ s.list.rows)
    (hnames : ∀ k, k ≠ key → names' k = names k)
    (hentries : ∀ k, k ≠ key → entries' k = entries k) : Agrees entries' names' s := by
  refine h.changed (Changes.refl s) ⟨h.sound, h.sortMode⟩ (fun ch l _ hl => ?_) le_rfl
    fun _ _ ch hrows _ hdesc => ?_
  · refine hl.congr fun k => and_congr_right fun hk => ?_
    rw [hnames k (ne_of_mem_of_not_mem hk hkey)]
  · refine hdesc.congr fun k hk => ?_
    rw [hentries k (ne_of_mem_of_not_mem (hrows k hk) hkey)]

/-- **A name that changes** moves its row between the lists of letters. -/
theorem Agrees.peerNameChanged (h : Agrees entries names s) (key : Key)
    (hother : ∀ k, k ≠ key → names' k = names k) (address : QChar → ℕ) :
    Agrees entries names'
      (s.peerNameChanged entries names' key (names key).firstLetters address) := by
  have hletter : ∀ (ch : QChar) (k : Key), k ≠ key →
      (ch ∈ (names' k).firstLetters.val ↔ ch ∈ (names k).firstLetters.val) := by
    intro ch k hne
    rw [hother k hne]
  rw [IndexedList.peerNameChanged, IndexedList.adjustByName, IndexedList.adjustNames]
  split_ifs with hmode hrow hrow
  · have hkey := (getRow_isSome h.sound).mp hrow
    obtain ⟨xs, ys, hrows⟩ := List.append_of_mem hkey
    have hlist := h.has.reordered (Placed.adjustByName names' h.sound.placed hrows)
    have hchanges := changes_relabel { s with list := s.list.adjustByName names' key }
      (fun _ l => l.adjustKeyByName names' key) (fun _ l => (l.remove key).1)
      (fun ch l => l.addByName entries names' key (address ch)) (fun _ => rfl)
      (fun _ => remove_new key _ _) (names key).firstLetters (names' key).firstLetters
    refine h.changed hchanges ⟨hlist.sound, hlist.sortMode⟩ (fun ch l _ hl => ?_)
      hchanges.dateVersion.ge fun hdate => absurd (hmode.symm.trans hdate) nofun
    simp only [hlist.mem]
    exact relabelled hl hkey (hletter ch) (hl.adjustKeyByName names' key) (hl.remove key)
      (hl.addByName entries names' key _)
  · exact h.unlisted (fun hkey => hrow ((getRow_isSome h.sound).mpr hkey)) hother fun _ _ => rfl
  · have hkey := (getRow_isSome h.sound).mp hrow
    have hchanges := changes_relabel s (fun _ l => l) (fun _ l => (l.remove key).1)
      (fun ch l => l.addToEnd entries key (address ch)) (fun _ => rfl)
      (fun _ => remove_new key _ _) (names key).firstLetters
      (names' key).firstLetters
    dsimp only
    rw [hchanges.dateVersion]
    refine h.changed hchanges ⟨h.sound, h.sortMode⟩ (fun ch l _ hl => ?_) (Nat.le_succ _)
      fun _ heq => absurd heq (Nat.succ_ne_self _)
    exact relabelled hl hkey (hletter ch) hl (hl.remove key) (hl.addToEnd entries key _)
  · exact h.unlisted (fun hkey => hrow ((getRow_isSome h.sound).mpr hkey)) hother fun _ _ => rfl

/-- Lists that are not by date do not depend on dates. -/
theorem Agrees.of_mode (h : Agrees entries names s) (hmode : s.sortMode ≠ .date) :
    Agrees entries' names s :=
  h.changed (Changes.refl s) ⟨h.sound, h.sortMode⟩ (fun _ _ _ hl => hl) le_rfl
    fun hdate => absurd hdate hmode

/-- **A date that changes** leaves the lists of letters behind. -/
theorem Agrees.adjustByDate (h : Agrees entries names s) (hkey : key ∈ s.list.rows) :
    Agrees entries' names (s.adjustByDate entries' key) := by
  obtain ⟨hsound, hperm, hmode⟩ := h.sound.adjustByDate entries' hkey
  refine h.changed (Changes.refl { s with list := s.list.adjustByDate entries' key })
    ⟨hsound, hmode.trans h.sortMode⟩ (fun ch l _ hl => ?_) (Nat.le_succ _)
    fun _ heq => absurd heq (Nat.succ_ne_self _)
  simp only [hperm.mem_iff]
  exact hl

/-- Each list that there is is changed. -/
theorem changes_mapValues (s : IndexedList Key Ratio)
    (f : DialogsList Key Ratio → DialogsList Key Ratio) :
    Changes (fun c l => if (s.index.find? c).isSome then f l else l) s
      { s with index := s.index.mapValues fun l => { l with list := f l.list } } := by
  refine ⟨rfl, fun c => ?_⟩
  rw [letter, letter, FlatMap.find?_mapValues]
  cases s.index.find? c with
  | none => rfl
  | some l => rfl

theorem Agrees.freeze (h : Agrees entries names s) : Agrees entries names s.freeze := by
  have hchanges := changes_mapValues { s with list := s.list.freeze } DialogsList.freeze
  refine h.changed hchanges ⟨h.has.freeze.sound, h.has.freeze.sortMode⟩ (fun ch l _ hl => ?_) le_rfl
    fun _ _ ch _ _ hdesc => ?_
  · split_ifs
    · exact hl.freeze
    · exact hl
  · split_ifs
    · exact hdesc
    · exact hdesc

theorem Agrees.unfreeze (h : Agrees entries names s) :
    Agrees entries names (s.unfreeze entries) := by
  have hunfrozen := h.has.unfreeze entries
  have hchanges := changes_mapValues { s with list := s.list.unfreeze entries }
    (DialogsList.unfreeze entries)
  refine h.changed hchanges ⟨hunfrozen.sound, hunfrozen.sortMode⟩ (fun ch l _ hl => ?_) le_rfl
    fun _ _ ch _ hsound hdesc => ?_
  · simp only [hunfrozen.mem]
    split_ifs
    · exact hl.unfreeze entries
    · exact hl
  · split_ifs
    · exact hsound.descending_unfreeze hdesc
    · exact hdesc

/-! ## What is found -/

/-- The rows of a list that is found; no list has none. -/
def rowsOf (found : Option (DialogsList Key Ratio)) : List Key := (found.map (·.rows)).getD []

/-- **What a letter finds**: the rows with that letter, in order if the list is by date. -/
structure FoundBy (entries : Key → RowEntry Ratio) (names : Key → ChatName)
    (s : IndexedList Key Ratio) (ch : QChar) (found : List Key) : Prop where
  nodup : found.Nodup
  mem : ∀ key, key ∈ found ↔ key ∈ s.list.rows ∧ ch ∈ (names key).firstLetters.val
  sorted : s.sortMode = .date → Descending entries found

theorem LetterAgrees.foundBy (h : LetterAgrees entries names s ch l)
    (hversion : s.sortMode = .date → l.dateOrderVersion = s.dateVersion) :
    FoundBy entries names s ch l.list.rows :=
  ⟨h.has.sound.placed.nodup, h.has.mem, fun hdate => h.sorted hdate (hversion hdate)⟩

/-- **A list that is asked for agrees**, and so do all lists after that. -/
theorem Agrees.filtered (h : Agrees entries names s) (ch : QChar) :
    FoundBy entries names s ch (rowsOf (s.filtered entries ch).1) ∧
      Agrees entries names (s.filtered entries ch).2 ∧
      (s.filtered entries ch).2 = { s with index := (s.filtered entries ch).2.index } := by
  have hch := h.letter ch
  rw [IndexedList.filtered]
  cases hfind : s.index.find? ch with
  | none =>
    rw [IndexedList.letter, hfind] at hch
    refine ⟨⟨List.nodup_nil, hch.has.mem, fun _ => List.Pairwise.nil⟩, h, rfl⟩
  | some l =>
    rw [IndexedList.letter, hfind] at hch
    dsimp only
    split_ifs with hbehind
    · set sorted : LetterList Key Ratio := ⟨l.list.sortByDate entries, s.dateVersion⟩
      have hsorted : LetterAgrees entries names s ch sorted :=
        ⟨hch.has.reordered (reordered_sortByDate hch.has.sound.placed), le_rfl,
          fun _ _ => descending_sortByDate⟩
      refine ⟨hsorted.foundBy fun _ => rfl, ⟨h.sound, h.sortMode, fun c => ?_⟩, rfl⟩
      have hletter : IndexedList.letter { s with index := s.index.assign ch sorted } c =
          if c = ch then sorted else s.letter c := by
        rw [IndexedList.letter, FlatMap.find?_assign]
        split_ifs
        · rfl
        · rfl
      show LetterAgrees entries names _ c
        (IndexedList.letter { s with index := s.index.assign ch sorted } c)
      rw [hletter]
      split_ifs with heq
      · subst heq
        exact ⟨hsorted.has, hsorted.version, hsorted.sorted⟩
      · exact ⟨(h.letter c).has, (h.letter c).version, (h.letter c).sorted⟩
    · exact ⟨hch.foundBy fun hdate => by_contra fun hne => hbehind ⟨hdate, hne⟩, h, rfl⟩

/-- **The shortest list is one of a letter that a word starts with**; without one, no word has a
letter or there is a letter that no row has. -/
theorem Agrees.minimal (h : Agrees entries names s) (result : Option (DialogsList Key Ratio))
    (words : List QString) :
    (∀ l, (s.minimal entries result words).1 = some l → result = some l ∨
      ∃ ch word, ch :: word ∈ words ∧ FoundBy entries names s ch l.rows) ∧
    ((s.minimal entries result words).1 = none → (result = none ∧ ∀ word ∈ words, word = []) ∨
      ∃ ch word, ch :: word ∈ words ∧ FoundBy entries names s ch []) ∧
    Agrees entries names (s.minimal entries result words).2 ∧
    (s.minimal entries result words).2.list = s.list := by
  induction words generalizing s result with
  | nil => exact ⟨fun l hl => .inl hl, fun hnone => .inl ⟨hnone, nofun⟩, h, rfl⟩
  | cons word words ih =>
    cases word with
    | nil =>
      obtain ⟨hsome, hnone, hrest⟩ := ih h result
      refine ⟨fun l hl => ?_, fun hl => ?_, hrest⟩
      · refine (hsome l hl).imp id ?_
        rintro ⟨ch, word, hword, hfound⟩
        exact ⟨ch, word, List.mem_cons_of_mem _ hword, hfound⟩
      · refine (hnone hl).imp (fun h => ⟨h.1, ?_⟩) ?_
        · exact List.forall_mem_cons.mpr ⟨rfl, h.2⟩
        · rintro ⟨ch, word, hword, hfound⟩
          exact ⟨ch, word, List.mem_cons_of_mem _ hword, hfound⟩
    | cons ch word =>
      obtain ⟨hfound, hagrees, hrest⟩ := h.filtered ch
      rw [IndexedList.minimal]
      rcases hfiltered : s.filtered entries ch with ⟨found, s'⟩
      rw [hfiltered] at hfound hagrees hrest
      dsimp only at hagrees hrest ⊢
      have hlist : s'.list = s.list := by rw [hrest]
      -- what is found in the state after is found in the state before
      have hback : ∀ {c rows}, FoundBy entries names s' c rows →
          FoundBy entries names s c rows := by
        intro c rows hc
        rw [hrest] at hc
        exact ⟨hc.nodup, hc.mem, hc.sorted⟩
      have hnever : ∀ {rows : List Key}, rows = [] → FoundBy entries names s ch rows →
          ∃ c w, c :: w ∈ (ch :: word) :: words ∧ FoundBy entries names s c [] :=
        fun hrows hc => ⟨ch, word, List.mem_cons_self, hrows ▸ hc⟩
      cases found with
      | none => exact ⟨nofun, fun _ => .inr (hnever rfl hfound), hagrees, hlist⟩
      | some found =>
        dsimp only
        split_ifs with hempty hshorter
        · exact ⟨nofun, fun _ => .inr (hnever (List.isEmpty_iff.mp hempty) hfound), hagrees, hlist⟩
        · obtain ⟨hsome, hnone, hrest'⟩ := ih hagrees (some found)
          refine ⟨fun l hl => .inr ?_, fun hl => .inr ?_, hrest'.1, hrest'.2.trans hlist⟩
          · rcases hsome l hl with heq | ⟨c, w, hword, hc⟩
            · exact ⟨ch, word, List.mem_cons_self, Option.some.inj heq ▸ hfound⟩
            · exact ⟨c, w, List.mem_cons_of_mem _ hword, hback hc⟩
          · rcases hnone hl with ⟨heq, -⟩ | ⟨c, w, hword, hc⟩
            · exact nomatch heq
            · exact ⟨c, w, List.mem_cons_of_mem _ hword, hback hc⟩
        · obtain ⟨hsome, hnone, hrest'⟩ := ih hagrees result
          refine ⟨fun l hl => ?_, fun hl => .inr ?_, hrest'.1, hrest'.2.trans hlist⟩
          · refine (hsome l hl).imp id ?_
            rintro ⟨c, w, hword, hc⟩
            exact ⟨c, w, List.mem_cons_of_mem _ hword, hback hc⟩
          · rcases hnone hl with ⟨heq, -⟩ | ⟨c, w, hword, hc⟩
            · rw [heq] at hshorter
              exact absurd rfl hshorter
            · exact ⟨c, w, List.mem_cons_of_mem _ hword, hback hc⟩

/-- The first letters of the listed entries are those of the words of their names. -/
def LettersOfWords (names : Key → ChatName) (s : IndexedList Key Ratio) : Prop :=
  ∀ key ∈ s.list.rows, ∀ ch, ch ∈ (names key).firstLetters.val ↔
    ∃ name ∈ (names key).nameWords, name.head? = some ch

/-- **What words find**: the rows with a word of a name for each of them, if not all are empty. -/
structure FoundByWords (names : Key → ChatName) (s : IndexedList Key Ratio) (words : List QString)
    (found : List Key) : Prop where
  nodup : found.Nodup
  mem : ∀ key, key ∈ found ↔ (∃ word ∈ words, word ≠ []) ∧ key ∈ s.list.rows ∧
    ∀ word ∈ words, ∃ name ∈ (names key).nameWords, word <+: name

theorem allFound_iff {nameWords words : List QString} :
    allFound nameWords words = true ↔ ∀ word ∈ words, ∃ name ∈ nameWords, word <+: name := by
  simp [allFound]

/-- A row with a word of a name for each word has the letter of each of them. -/
theorem LettersOfWords.mem (hletters : LettersOfWords names s) (hkey : key ∈ s.list.rows)
    {words : List QString} (hall : ∀ word ∈ words, ∃ name ∈ (names key).nameWords, word <+: name)
    {word : QString} (hword : ch :: word ∈ words) : ch ∈ (names key).firstLetters.val := by
  obtain ⟨name, hname, rest, rfl⟩ := hall _ hword
  exact (hletters key hkey ch).mpr ⟨_, hname, rfl⟩

theorem Agrees.filteredWords (h : Agrees entries names s) (words : List QString) :
    (LettersOfWords names s → FoundByWords names s words (s.filteredWords entries names words).1) ∧
      Agrees entries names (s.filteredWords entries names words).2 ∧
      (s.filteredWords entries names words).2.list = s.list := by
  rw [IndexedList.filteredWords]
  split_ifs with hempty
  · refine ⟨fun _ => ⟨List.nodup_nil, fun key => ⟨nofun, fun hkey => ?_⟩⟩, h, rfl⟩
    rw [List.isEmpty_iff.mp hempty] at hkey
    exact nomatch hkey.2.1
  obtain ⟨hsome, hnone, hrest⟩ := h.minimal none words
  rcases hminimal : s.minimal entries none words with ⟨found, s'⟩
  rw [hminimal] at hsome hnone hrest
  cases found with
  | none =>
    refine ⟨fun hletters => ⟨List.nodup_nil, fun key => ⟨nofun, ?_⟩⟩, hrest⟩
    rintro ⟨⟨word, hword, hne⟩, hkey, hall⟩
    rcases hnone rfl with ⟨-, hwords⟩ | ⟨ch, word, hword, hfound⟩
    · exact absurd (hwords word hword) hne
    · exact nomatch (hfound.mem key).mpr ⟨hkey, hletters.mem hkey hall hword⟩
  | some found =>
    refine ⟨fun hletters => ?_, hrest⟩
    obtain ⟨ch, word, hword, hfound⟩ := (hsome found rfl).resolve_left nofun
    refine ⟨hfound.nodup.filter _, fun key => ?_⟩
    rw [List.mem_filter, allFound_iff, hfound.mem]
    constructor
    · rintro ⟨⟨hkey, -⟩, hall⟩
      exact ⟨⟨_, hword, List.cons_ne_nil ch word⟩, hkey, hall⟩
    · rintro ⟨-, hkey, hall⟩
      exact ⟨⟨hkey, hletters.mem hkey hall hword⟩, hall⟩

end IndexedList

/-! ## Whatever is done -/

open IndexedList

/-- The entries, and an indexed list of some of them. -/
structure IndexedChats (Key Ratio : Type) [LinearOrder Key] where
  entries : Key → RowEntry Ratio
  names : Key → ChatName
  list : IndexedList Key Ratio

/-- What is done with an indexed list.  A name changes with `peerNameChanged` for the letters it
had, and a date with `adjustByDate` for the row of its entry. -/
inductive IndexedOp (Key Ratio : Type)
  | addToEnd (key : Key) (address : Option QChar → ℕ)
  | addByName (key : Key) (address : Option QChar → ℕ)
  | remove (key : Key)
  | peerNameChanged (key : Key) (name : ChatName) (address : QChar → ℕ)
  | adjustByDate (key : Key) (entry : RowEntry Ratio)
  | freeze
  | unfreeze
  | filtered (ch : QChar)
  | filteredWords (words : List QString)

/-- One of them; nothing where an assertion fails. -/
def IndexedChats.step (c : IndexedChats Key Ratio) :
    IndexedOp Key Ratio → Option (IndexedChats Key Ratio)
  | .addToEnd key address => some { c with list := c.list.addToEnd c.entries c.names key address }
  | .addByName key address =>
    (c.list.addByName c.entries c.names key address).map fun list => { c with list }
  | .remove key => some { c with list := c.list.remove c.names key }
  | .peerNameChanged key name address =>
    let names := Function.update c.names key name
    some { c with
      names
      list := c.list.peerNameChanged c.entries names key (c.names key).firstLetters address }
  | .adjustByDate key entry =>
    let entries := Function.update c.entries key entry
    some { c with
      entries
      list := if c.list.sortMode = .date ∧ (c.list.list.getRow key).isSome then
        c.list.adjustByDate entries key else c.list }
  | .freeze => some { c with list := c.list.freeze }
  | .unfreeze => some { c with list := c.list.unfreeze c.entries }
  | .filtered ch => some { c with list := (c.list.filtered c.entries ch).2 }
  | .filteredWords words => some { c with list := (c.list.filteredWords c.entries c.names words).2 }

/-- A run of them. -/
def IndexedChats.after (c : IndexedChats Key Ratio) :
    List (IndexedOp Key Ratio) → Option (IndexedChats Key Ratio)
  | [] => some c
  | op :: ops => (c.step op).bind fun c => c.after ops

variable {c c' : IndexedChats Key Ratio} {op : IndexedOp Key Ratio}
  {ops : List (IndexedOp Key Ratio)}

/-- The lists of letters agree with the list of all. -/
abbrev IndexedChats.Agree (c : IndexedChats Key Ratio) : Prop := Agrees c.entries c.names c.list

/-- **Each step keeps the lists in agreement.** -/
theorem IndexedChats.Agree.step (h : c.Agree) (hstep : c.step op = some c') : c'.Agree := by
  cases op with
  | addToEnd key address => exact Option.some.inj hstep ▸ h.addToEnd key address
  | addByName key address =>
    obtain ⟨list, hlist, rfl⟩ := Option.map_eq_some_iff.mp hstep
    exact Agrees.addByName h hlist
  | remove key => exact Option.some.inj hstep ▸ h.remove key
  | peerNameChanged key name address =>
    obtain rfl := Option.some.inj hstep
    exact Agrees.peerNameChanged h key (fun k hne => Function.update_of_ne hne _ _) address
  | adjustByDate key entry =>
    obtain rfl := Option.some.inj hstep
    show Agrees (Function.update c.entries key entry) c.names _
    dsimp only
    split_ifs with hlisted
    · exact Agrees.adjustByDate h ((getRow_isSome h.sound).mp hlisted.2)
    · by_cases hmode : c.list.sortMode = .date
      · refine Agrees.unlisted h (fun hkey => ?_) (fun _ _ => rfl) fun k hne =>
          Function.update_of_ne hne _ _
        exact hlisted ⟨hmode, (getRow_isSome h.sound).mpr hkey⟩
      · exact Agrees.of_mode h hmode
  | freeze => exact Option.some.inj hstep ▸ h.freeze
  | unfreeze => exact Option.some.inj hstep ▸ h.unfreeze
  | filtered ch => exact Option.some.inj hstep ▸ (Agrees.filtered h ch).2.1
  | filteredWords words => exact Option.some.inj hstep ▸ (Agrees.filteredWords h words).2.1

theorem IndexedChats.Agree.after (h : c.Agree) (hrun : c.after ops = some c') : c'.Agree := by
  induction ops generalizing c with
  | nil => exact Option.some.inj hrun ▸ h
  | cons op ops ih =>
    obtain ⟨c'', hstep, hrun⟩ := Option.bind_eq_some_iff.mp hrun
    exact ih (h.step hstep) hrun

/-- **A letter finds its rows, and words the rows they are in**, after any run: what a letter finds
are the rows of the entries with that letter, in the order of their dates if the list is by date;
and where the first letters are those of the words of the names, words that are not all empty find
the rows with a word of a name for each of them, and words that are all empty find no row. -/
theorem filtered_agrees {entries : Key → RowEntry Ratio} {names : Key → ChatName} {mode : SortMode}
    {narrowRatio : Ratio}
    (hrun : IndexedChats.after ⟨entries, names, new mode narrowRatio⟩ ops = some c) :
    (∀ ch, FoundBy c.entries c.names c.list ch (rowsOf (c.list.filtered c.entries ch).1)) ∧
      ∀ words, LettersOfWords c.names c.list →
        FoundByWords c.names c.list words (c.list.filteredWords c.entries c.names words).1 := by
  have hagree : c.Agree := IndexedChats.Agree.after (agrees_new entries names mode narrowRatio) hrun
  exact ⟨fun ch => (Agrees.filtered hagree ch).1,
    fun words => (Agrees.filteredWords hagree words).1⟩

/-- Chats by date, the first of them with a name of one letter. -/
def chatsOfOne : IndexedChats ℕ Unit where
  entries := fun key => ⟨key, 0, false, fun _ => 1⟩
  names := fun _ => ⟨[[97]], ⟨[97], List.pairwise_singleton _ _⟩, [97]⟩
  list := new .date ()

/-- Two chats are added while the list is frozen, and one of them is renamed. -/
theorem filtered_agrees_two : ∃ c,
    chatsOfOne.after [.freeze, .addToEnd 0 fun _ => 0, .addToEnd 1 fun _ => 0, .filtered 97,
      .peerNameChanged 0 ⟨[[98]], ⟨[98], List.pairwise_singleton _ _⟩, [98]⟩ fun _ => 0,
      .unfreeze] = some c ∧
    (∀ ch, FoundBy c.entries c.names c.list ch (rowsOf (c.list.filtered c.entries ch).1)) ∧
      ∀ words, LettersOfWords c.names c.list →
        FoundByWords c.names c.list words (c.list.filteredWords c.entries c.names words).1 :=
  Option.isSome_iff_exists.mp rfl |>.imp fun _ hrun => ⟨hrun, filtered_agrees hrun⟩

/-- **No words find nothing**, although each row has a word of a name for each of them. -/
theorem no_words_find_nothing : ¬ ∀ (entries : ℕ → RowEntry Unit) (names : ℕ → ChatName)
    (mode : SortMode) (ops : List (IndexedOp ℕ Unit)) (c : IndexedChats ℕ Unit),
    IndexedChats.after ⟨entries, names, new mode ()⟩ ops = some c →
    LettersOfWords c.names c.list → ∀ (words : List QString) (key : ℕ),
      key ∈ (c.list.filteredWords c.entries c.names words).1 ↔ key ∈ c.list.list.rows ∧
        ∀ word ∈ words, ∃ name ∈ (c.names key).nameWords, word <+: name := by
  intro hall
  have hone := hall chatsOfOne.entries chatsOfOne.names .date [.addToEnd 0 fun _ => 0] _ rfl
    (fun key _ ch => ?_) [] 0
  · exact nomatch hone.mpr ⟨List.mem_singleton.mpr rfl, nofun⟩
  · show ch ∈ [97] ↔ ∃ name ∈ [[97]], name.head? = some ch
    simp [eq_comm]

end Yunogram.Dialogs
