import Yunogram.Dialogs.DialogsOrder

/-!
# Dialogs/DialogsRuns — runs of a chat list keep its rows placed and in order

Entries change their sort keys, and the row of an entry is adjusted then; rows are added, removed,
moved to the top and get other heights, and the list is frozen and unfrozen.

The result is `rows_placed_in_order`: after every run there is one row for each key that was added
and not removed, at the place it says and with the top it says; and where no row was moved to the
top and the list is not frozen, the rows are in the order of their sort keys. -/

open Machinery

namespace Yunogram.Dialogs

variable {Key Ratio : Type} [LinearOrder Key]

/-! ## Runs -/

/-- What happens to a list and to its entries; only `change` gives an entry another sort key. -/
inductive ListOp (Key Ratio : Type)
  | addToEnd (key : Key) (address : ℕ)
  | remove (key : Key)
  | moveToTop (key : Key)
  | updateHeight (key : Key) (narrowRatio : Ratio)
  | updateHeights (narrowRatio : Ratio)
  | freeze
  | unfreeze
  | change (key : Key) (entry : RowEntry Ratio)
  | restyle (key : Key) (entry : RowEntry Ratio)

/-- A list and the entries of its keys. -/
structure ListedChats (Key Ratio : Type) [LinearOrder Key] where
  entries : Key → RowEntry Ratio
  list : DialogsList Key Ratio

/-- What an operation does, and the answer it gives. -/
def ListedChats.step (s : ListedChats Key Ratio) :
    ListOp Key Ratio → ListedChats Key Ratio × List Bool
  | .addToEnd key address => (⟨s.entries, s.list.addToEnd s.entries key address⟩, [])
  | .remove key => (⟨s.entries, (s.list.remove key).1⟩, [(s.list.remove key).2])
  | .moveToTop key => (⟨s.entries, (s.list.moveToTop key).1⟩, [(s.list.moveToTop key).2])
  | .updateHeight key narrowRatio =>
    (⟨s.entries, (s.list.updateHeight s.entries key narrowRatio).1⟩,
      [(s.list.updateHeight s.entries key narrowRatio).2])
  | .updateHeights narrowRatio =>
    (⟨s.entries, (s.list.updateHeights s.entries narrowRatio).1⟩,
      [(s.list.updateHeights s.entries narrowRatio).2])
  | .freeze => (⟨s.entries, s.list.freeze⟩, [])
  | .unfreeze => (⟨s.entries, s.list.unfreeze s.entries⟩, [])
  | .change key entry =>
    let entries := Function.update s.entries key entry
    match s.list.getRow key with
    | none => (⟨entries, s.list⟩, [])
    | some _ => (⟨entries, s.list.adjustByDate entries key⟩, [])
  | .restyle key entry =>
    let restyled := { entry with sortKey := (s.entries key).sortKey }
    (⟨Function.update s.entries key restyled, s.list⟩, [])

/-- The keys that were added and not removed since. -/
def Listed (key : Key) (ops : List (ListOp Key Ratio)) : Bool :=
  ops.foldl (fun listed op =>
    match op with
    | .addToEnd added _ => listed || added == key
    | .remove removed => listed && removed != key
    | _ => listed) false

namespace DialogsList

variable {entries entries' : Key → RowEntry Ratio} {l : DialogsList Key Ratio} {key k : Key}
  {row : Row} {address : ℕ} {narrowRatio : Ratio}

/-! ## Each operation -/

theorem Sound.of_rows {l' : DialogsList Key Ratio} (h : l.Sound) (hrows : l'.rows = l.rows)
    (hpending : l'.pendingAdjust = l.pendingAdjust) (hplaced : Dialogs.Placed l.rows l'.rowByKey) :
    l'.Sound := by
  refine ⟨?_, ?_⟩
  · unfold Placed
    rwa [hrows]
  · rw [hrows, hpending]
    exact h.pending

theorem InOrder.of_rows {l' : DialogsList Key Ratio} (h : InOrder entries l)
    (hrows : l'.rows = l.rows) (hpending : l'.pendingAdjust = l.pendingAdjust)
    (hfrozen : l'.frozen = l.frozen) (hkeys : ∀ k, (entries' k).sortKey = (entries k).sortKey) :
    InOrder entries' l' := by
  refine ⟨?_, ?_⟩
  · rw [hfrozen, hpending]
    exact h.thawed
  · rw [hrows, hpending]
    exact h.sorted.imp fun hle => by rwa [hkeys, hkeys]

theorem sound_new (sortMode : SortMode) :
    (new sortMode narrowRatio : DialogsList Key Ratio).Sound :=
  ⟨Dialogs.Placed.nil, fun _ hk => nomatch hk⟩

theorem inOrder_new (sortMode : SortMode) :
    InOrder entries (new sortMode narrowRatio : DialogsList Key Ratio) :=
  ⟨fun _ => rfl, List.Pairwise.nil⟩

theorem Sound.not_mem (h : l.Sound) (hrow : l.rowByKey.find? key = none) : key ∉ l.rows :=
  fun hmem => by
    rw [h.placed.mem, hrow] at hmem
    exact nomatch hmem

theorem addToEnd_some (hrow : l.rowByKey.find? key = some row) :
    l.addToEnd entries key address = l := by rw [addToEnd, getRow, hrow]

theorem addToEnd_none (hrow : l.rowByKey.find? key = none) :
    l.addToEnd entries key address =
      if l.sortMode = .date then (l.emplaceRow entries key address).adjustByDate entries key
      else l.emplaceRow entries key address := by
  rw [addToEnd, getRow, hrow]
  rfl

theorem Sound.emplaceRow (h : l.Sound) (hrow : l.rowByKey.find? key = none) :
    (l.emplaceRow entries key address).Sound :=
  ⟨h.placed.addLast hrow rfl h.placed.height_eq,
    fun k hk => List.mem_append_left _ (h.pending k hk)⟩

theorem mem_emplaceRow : k ∈ (l.emplaceRow entries key address).rows ↔ k ∈ l.rows ∨ key = k := by
  rw [emplaceRow, List.mem_append, List.mem_singleton, eq_comm (a := key)]

variable (entries key address) in
theorem Sound.addToEnd (h : l.Sound) :
    (l.addToEnd entries key address).Sound ∧
      (∀ k, k ∈ (l.addToEnd entries key address).rows ↔ k ∈ l.rows ∨ key = k) ∧
      (l.addToEnd entries key address).sortMode = l.sortMode := by
  cases hrow : l.rowByKey.find? key with
  | some row =>
    have hkey : key ∈ l.rows := (h.placed.mem key).mpr (Option.isSome_of_eq_some hrow)
    rw [addToEnd_some hrow]
    exact ⟨h, fun k => ⟨Or.inl, fun hk => hk.elim id fun heq => heq ▸ hkey⟩, rfl⟩
  | none =>
    rw [addToEnd_none hrow]
    split_ifs with hdate
    · obtain ⟨hadjusted, hperm, hmode⟩ :=
        (h.emplaceRow hrow).adjustByDate entries (mem_emplaceRow.mpr (Or.inr rfl))
      exact ⟨hadjusted, fun k => hperm.mem_iff.trans mem_emplaceRow, hmode⟩
    · exact ⟨h.emplaceRow hrow, fun k => mem_emplaceRow, rfl⟩

theorem InOrder.addToEnd (horder : InOrder entries l) (h : l.Sound) (hmode : l.sortMode = .date) :
    InOrder entries (l.addToEnd entries key address) := by
  cases hrow : l.rowByKey.find? key with
  | some row => rwa [addToEnd_some hrow]
  | none =>
    rw [addToEnd_none hrow, if_pos hmode]
    refine (h.emplaceRow hrow).adjustByDate_inOrder (mem_emplaceRow.mpr (Or.inr rfl))
      horder.thawed ?_
    have hrows : (l.rows ++ [key]).filter (fun k => k ≠ key ∧ k ∉ l.pendingAdjust)
        = l.rows.filter (· ∉ l.pendingAdjust) := by
      rw [List.filter_append, List.filter_cons_of_neg (by simp), List.filter_nil, List.append_nil]
      refine List.filter_congr fun k hk => ?_
      simp [ne_of_mem_of_not_mem hk (h.not_mem hrow)]
    exact hrows ▸ horder.sorted

/-! ### Unfreezing -/

/-- The list that `unfreeze` adjusts. -/
def thawed (l : DialogsList Key Ratio) : DialogsList Key Ratio :=
  { l with frozen := false, pendingAdjust := [] }

theorem adjustByDate_of_thawed (hfrozen : l.frozen = false) :
    l.adjustByDate entries key = l.moveByDate entries key := by
  rw [adjustByDate, hfrozen]
  rfl

variable (entries) in
theorem reordered_foldl (h : l.Placed) (hfrozen : l.frozen = false) {pending : List Key}
    (hpending : ∀ k ∈ pending, k ∈ l.rows) :
    Reordered l (pending.foldl (fun l row => l.adjustByDate entries row) l) := by
  induction pending generalizing l with
  | nil => exact Reordered.refl h
  | cons key pending ih =>
    obtain ⟨xs, ys, hrows⟩ := List.append_of_mem (hpending key List.mem_cons_self)
    have hmoved := (h.moveByDate entries hrows).1
    rw [List.foldl_cons, adjustByDate_of_thawed hfrozen]
    refine hmoved.trans (ih hmoved.placed (hmoved.frozen.trans hfrozen) fun k hk => ?_)
    exact hmoved.perm.mem_iff.mpr (hpending k (List.mem_cons_of_mem key hk))

theorem reordered_sortByDate (h : l.Placed) : Reordered l (l.sortByDate entries) := by
  have hperm := List.mergeSort_perm l.rows fun a b => (entries b).sortKey ≤ (entries a).sortKey
  refine ⟨hperm, ?_, rfl, rfl, rfl⟩
  have hall : Dialogs.Placed ([] ++ l.rows ++ []) l.rowByKey := by
    rw [List.nil_append, List.append_nil]
    exact h
  have := hall.reorder hperm
  rwa [List.nil_append, List.append_nil] at this

variable (entries) in
/-- **Unfreezing puts the rows in another order.** -/
theorem Sound.reordered_unfreeze (h : l.Sound) : Reordered l.thawed (l.unfreeze entries) := by
  have hthawed : l.thawed.Placed := h.placed
  have hrun := reordered_foldl entries hthawed rfl h.pending
  rw [unfreeze]
  rcases hpending : l.pendingAdjust with _ | ⟨row, _ | ⟨row', rest⟩⟩
  · exact Reordered.refl hthawed
  · rw [hpending] at hrun
    exact hrun
  · rw [hpending] at hrun
    dsimp only
    split_ifs with hsorted
    · exact hrun
    · exact hrun.trans (reordered_sortByDate hrun.placed)

theorem descending_of_sortedByDate (h : l.sortedByDate entries) : Descending entries l.rows := by
  have hchain : ∀ rows : List Key, (rows.zip rows.tail).all
      (fun pair => !decide ((entries pair.1).sortKey < (entries pair.2).sortKey)) →
      rows.IsChain fun a b => (entries b).sortKey ≤ (entries a).sortKey := by
    intro rows
    induction rows with
    | nil => exact fun _ => List.IsChain.nil
    | cons a rows ih =>
      cases rows with
      | nil => exact fun _ => List.IsChain.singleton a
      | cons b rows =>
        intro hall
        rw [List.tail_cons, List.zip_cons_cons, List.all_cons, Bool.and_eq_true] at hall
        refine List.IsChain.cons_cons ?_ (ih hall.2)
        simpa using hall.1
  have : IsTrans Key fun a b => (entries b).sortKey ≤ (entries a).sortKey :=
    ⟨fun _ _ _ hab hbc => hbc.trans hab⟩
  exact List.isChain_iff_pairwise.mp (hchain l.rows h)

theorem descending_sortByDate : Descending entries (l.sortByDate entries).rows := by
  have hsorted := @List.pairwise_mergeSort _
    (fun a b => decide ((entries b).sortKey ≤ (entries a).sortKey))
    (by simpa using fun a b c hab hbc => hbc.trans hab) (by simpa using fun a b => le_total _ _)
    l.rows
  exact hsorted.imp of_decide_eq_true

/-- **An unfrozen list is in order**, whatever was put off. -/
theorem InOrder.unfreeze (horder : InOrder entries l) (h : l.Sound) :
    InOrder entries (l.unfreeze entries) := by
  have hreordered := h.reordered_unfreeze entries
  suffices hdesc : Descending entries (l.unfreeze entries).rows by
    have hpending : (l.unfreeze entries).pendingAdjust = [] := hreordered.pendingAdjust
    exact ⟨fun _ => hpending, by simpa [hpending] using hdesc⟩
  have hsorted := horder.sorted
  rw [DialogsList.unfreeze]
  rcases hpending : l.pendingAdjust with _ | ⟨row, _ | ⟨row', rest⟩⟩
  · simpa [hpending] using hsorted
  · obtain ⟨xs, ys, hrows⟩ := List.append_of_mem (h.pending row (by rw [hpending]; simp))
    have hthawed : l.thawed.Placed := h.placed
    have hnodup := h.placed.nodup
    rw [hrows] at hnodup
    dsimp only
    rw [adjustByDate_of_thawed rfl]
    refine (hthawed.moveByDate entries hrows).2 ?_
    rw [← filter_ne hnodup, ← hrows]
    simpa [hpending] using hsorted
  · dsimp only
    split_ifs with hdone
    · exact descending_of_sortedByDate hdone
    · exact descending_sortByDate

/-! ### Heights, the top and removal -/

variable (entries key narrowRatio) in
theorem Sound.updateHeight (h : l.Sound) :
    (l.updateHeight entries key narrowRatio).1.Sound ∧
      (l.updateHeight entries key narrowRatio).1.rows = l.rows ∧
      (l.updateHeight entries key narrowRatio).1.pendingAdjust = l.pendingAdjust ∧
      (l.updateHeight entries key narrowRatio).1.frozen = l.frozen ∧
      (l.updateHeight entries key narrowRatio).1.sortMode = l.sortMode := by
  rw [DialogsList.updateHeight, getRow]
  cases hrow : l.rowByKey.find? key with
  | none => exact ⟨h, rfl, rfl, rfl, rfl⟩
  | some row =>
    dsimp only
    split_ifs with hsame
    · exact ⟨h, rfl, rfl, rfl, rfl⟩
    · refine ⟨h.of_rows rfl rfl ?_, rfl, rfl, rfl, rfl⟩
      obtain ⟨xs, ys, hrows, hi, ht⟩ := h.placed.split hrow
      have hplaced : Dialogs.Placed (xs ++ key :: ys) l.rowByKey := hrows ▸ h.placed
      have hnot : key ∉ xs := fun hk =>
        (List.nodup_append.mp hplaced.nodup).2.2 key hk key List.mem_cons_self rfl
      have hdrop : l.rows.drop row.index = key :: ys := by
        rw [hrows]
        exact List.drop_left' hi.symm
      dsimp only
      rw [hdrop, hi, ht, hrows]
      refine hplaced.resized (fun k => ?_) (fun k hk => ?_) (fun k row' hk => ?_)
        (fun _ _ _ _ => rfl) fun _ _ _ _ => rfl
      · rw [FlatMap.find?_assign]
        split_ifs with hkey
        · rw [hkey, hrow]
          rfl
        · rfl
      · rw [FlatMap.find?_assign, if_neg (ne_of_mem_of_not_mem hk hnot)]
      · rw [FlatMap.find?_assign] at hk
        split_ifs at hk with hkey
        · exact ⟨row, hkey ▸ hrow, by rw [← Option.some.inj hk, hi]⟩
        · exact ⟨row', hk, rfl⟩

theorem Sound.updateHeights (h : l.Sound) : (l.updateHeights entries narrowRatio).1.Sound := by
  refine h.of_rows rfl rfl ?_
  have hplaced : Dialogs.Placed ([] ++ l.rows) l.rowByKey := h.placed
  exact hplaced.resized (fun _ => rfl) (fun _ _ => rfl) (fun _ row hrow => ⟨row, hrow, rfl⟩)
    (fun _ _ _ _ => rfl) fun _ _ _ _ => rfl

variable (key) in
theorem Sound.reordered_moveToTop (h : l.Sound) : Reordered l (l.moveToTop key).1 := by
  rw [moveToTop, getRow]
  cases hrow : l.rowByKey.find? key with
  | none => exact Reordered.refl h.placed
  | some row =>
    obtain ⟨xs, ys, hrows, hi, -⟩ := h.placed.split hrow
    have hsplit : l.rows = [] ++ (xs ++ [key]) ++ ys := by
      rw [hrows, List.nil_append, List.append_assoc, List.singleton_append]
    exact (h.placed.rotate hsplit (by simp) rfl (by rw [hi, List.length_nil, Nat.zero_add]) rfl).2

theorem remove_none (hrow : l.rowByKey.find? key = none) : (l.remove key).1 = l := by
  rw [remove, getRow, hrow]

theorem remove_some (hrow : l.rowByKey.find? key = some row) :
    (l.remove key).1.rows = l.rows.eraseIdx row.index ∧
      (l.remove key).1.pendingAdjust = l.pendingAdjust.filter (· ≠ key) ∧
      (l.remove key).1.frozen = l.frozen ∧ (l.remove key).1.sortMode = l.sortMode := by
  rw [remove, getRow, hrow]
  exact ⟨rfl, rfl, rfl, rfl⟩

variable (key) in
theorem Sound.remove (h : l.Sound) :
    (l.remove key).1.Sound ∧ (∀ k, k ∈ (l.remove key).1.rows ↔ k ∈ l.rows ∧ k ≠ key) ∧
      (l.remove key).1.sortMode = l.sortMode := by
  cases hrow : l.rowByKey.find? key with
  | none =>
    rw [remove_none hrow]
    exact ⟨h, fun k => ⟨fun hk => ⟨hk, ne_of_mem_of_not_mem hk (h.not_mem hrow)⟩, And.left⟩, rfl⟩
  | some row =>
    obtain ⟨hrows', hpending, -, hmode⟩ := remove_some hrow
    obtain ⟨xs, ys, hrows, hi, ht⟩ := h.placed.split hrow
    have hplaced : Dialogs.Placed (xs ++ key :: ys) l.rowByKey := hrows ▸ h.placed
    have herase : l.rows.eraseIdx row.index = xs ++ ys := by
      rw [hrows, hi, List.eraseIdx_append_of_length_le le_rfl, Nat.sub_self,
        List.eraseIdx_cons_zero]
    have hmem : ∀ k, k ∈ (l.remove key).1.rows ↔ k ∈ l.rows ∧ k ≠ key := fun k => by
      rw [hrows', herase, ← filter_ne hplaced.nodup, ← hrows, List.mem_filter, decide_eq_true_eq]
    refine ⟨⟨?_, fun k hk => ?_⟩, hmem, hmode⟩
    · have hremoved := hplaced.removed
      unfold Placed
      rw [hrows', herase, DialogsList.remove, getRow, hrow]
      dsimp only
      rwa [herase, hi, ht, List.drop_left' rfl]
    · rw [hpending, List.mem_filter, decide_eq_true_eq] at hk
      exact (hmem k).mpr ⟨h.pending k hk.1, hk.2⟩

theorem InOrder.remove (horder : InOrder entries l) (h : l.Sound) :
    InOrder entries (l.remove key).1 := by
  cases hrow : l.rowByKey.find? key with
  | none => rwa [remove_none hrow]
  | some row =>
    obtain ⟨hrows, hpending, hfrozen, -⟩ := remove_some hrow
    obtain ⟨xs, ys, hsplit, hi, -⟩ := h.placed.split hrow
    have herase : l.rows.eraseIdx row.index = l.rows.filter (· ≠ key) := by
      have hnodup := h.placed.nodup
      rw [hsplit] at hnodup ⊢
      rw [filter_ne hnodup, hi, List.eraseIdx_append_of_length_le le_rfl, Nat.sub_self,
        List.eraseIdx_cons_zero]
    refine ⟨fun hf => ?_, ?_⟩
    · rw [hpending, horder.thawed (hfrozen.symm.trans hf)]
      rfl
    · rw [hrows, herase, hpending, List.filter_filter]
      refine List.Pairwise.sublist ?_ horder.sorted
      have hsame : ∀ k ∈ l.rows, (decide (k ∉ l.pendingAdjust.filter (· ≠ key)) && decide (k ≠ key))
          = (decide (k ≠ key) && decide (k ∉ l.pendingAdjust)) := by
        intro k _
        by_cases hk : k = key <;> simp [hk]
      rw [List.filter_congr hsame, ← List.filter_filter]
      exact List.filter_sublist

end DialogsList

/-! ## Whole runs -/

open DialogsList

variable {s : ListedChats Key Ratio} {op : ListOp Key Ratio} {ops : List (ListOp Key Ratio)}

/-- The state after a run. -/
def ListedChats.after (s : ListedChats Key Ratio) (ops : List (ListOp Key Ratio)) :
    ListedChats Key Ratio :=
  (run ListedChats.step s ops).1

/-- The operation moves a row to the top. -/
def ListOp.MovesToTop : ListOp Key Ratio → Prop
  | .moveToTop _ => True
  | _ => False

theorem listed_concat (key : Key) :
    Listed key (ops ++ [op]) =
      match op with
      | .addToEnd added _ => Listed key ops || added == key
      | .remove removed => Listed key ops && removed != key
      | _ => Listed key ops := by
  rw [Listed, List.foldl_append]
  rfl

variable (op) in
/-- **What one operation does to the rows there are.** -/
theorem ListedChats.step_sound (h : s.list.Sound) (hlisted : ∀ k, k ∈ s.list.rows ↔ Listed k ops) :
    (s.step op).1.list.Sound ∧ (s.step op).1.list.sortMode = s.list.sortMode ∧
      ∀ k, k ∈ (s.step op).1.list.rows ↔ Listed k (ops ++ [op]) := by
  simp only [listed_concat]
  cases op with
  | addToEnd key address =>
    obtain ⟨hsound, hmem, hmode⟩ := h.addToEnd s.entries key address
    refine ⟨hsound, hmode, fun k => (hmem k).trans ?_⟩
    rw [hlisted, Bool.or_eq_true, beq_iff_eq]
  | remove key =>
    obtain ⟨hsound, hmem, hmode⟩ := h.remove key
    refine ⟨hsound, hmode, fun k => (hmem k).trans ?_⟩
    rw [hlisted, Bool.and_eq_true, bne_iff_ne, ne_comm]
  | moveToTop key =>
    have hmoved := h.reordered_moveToTop key
    exact ⟨hmoved.sound h, hmoved.sortMode, fun k => hmoved.perm.mem_iff.trans (hlisted k)⟩
  | updateHeight key narrowRatio =>
    obtain ⟨hsound, hrows, -, -, hmode⟩ := h.updateHeight s.entries key narrowRatio
    exact ⟨hsound, hmode, fun k => (iff_of_eq (congrArg (k ∈ ·) hrows)).trans (hlisted k)⟩
  | updateHeights narrowRatio => exact ⟨h.updateHeights, rfl, hlisted⟩
  | freeze => exact ⟨⟨h.placed, h.pending⟩, rfl, hlisted⟩
  | unfreeze =>
    have hmoved := h.reordered_unfreeze s.entries
    refine ⟨hmoved.sound ⟨h.placed, fun _ hk => nomatch hk⟩, hmoved.sortMode, fun k => ?_⟩
    exact hmoved.perm.mem_iff.trans (hlisted k)
  | change key entry =>
    rw [step]
    cases hrow : s.list.getRow key with
    | none => exact ⟨h, rfl, hlisted⟩
    | some row =>
      have hkey := (h.placed.mem key).mpr (Option.isSome_of_eq_some hrow)
      obtain ⟨hsound, hperm, hmode⟩ :=
        h.adjustByDate (Function.update s.entries key entry) hkey
      exact ⟨hsound, hmode, fun k => hperm.mem_iff.trans (hlisted k)⟩
  | restyle key entry => exact ⟨h, rfl, hlisted⟩

/-- **What one operation does to the order**, unless it moves a row to the top. -/
theorem ListedChats.step_inOrder (h : s.list.Sound) (horder : InOrder s.entries s.list)
    (hmode : s.list.sortMode = .date) (hop : ¬ op.MovesToTop) :
    InOrder (s.step op).1.entries (s.step op).1.list := by
  cases op with
  | addToEnd key address => exact horder.addToEnd h hmode
  | remove key => exact horder.remove h
  | moveToTop key => exact absurd trivial hop
  | updateHeight key narrowRatio =>
    obtain ⟨-, hrows, hpending, hfrozen, -⟩ := h.updateHeight s.entries key narrowRatio
    exact horder.of_rows hrows hpending hfrozen fun _ => rfl
  | updateHeights narrowRatio => exact horder.of_rows rfl rfl rfl fun _ => rfl
  | freeze => exact ⟨fun hf => (nomatch hf), horder.sorted⟩
  | unfreeze => exact horder.unfreeze h
  | change key entry =>
    rw [step]
    have hother : ∀ k, k ≠ key → Function.update s.entries key entry k = s.entries k :=
      fun k hk => Function.update_of_ne hk _ _
    cases hrow : s.list.getRow key with
    | none =>
      dsimp only
      have hnot := h.not_mem hrow
      refine ⟨horder.thawed, ?_⟩
      refine horder.sorted.imp_of_mem fun {a b} ha hb hle => ?_
      rw [hother a (ne_of_mem_of_not_mem (List.mem_filter.mp ha).1 hnot),
        hother b (ne_of_mem_of_not_mem (List.mem_filter.mp hb).1 hnot)]
      exact hle
    | some row =>
      dsimp only
      have hkey := (h.placed.mem key).mpr (Option.isSome_of_eq_some hrow)
      refine h.adjustByDate_inOrder hkey horder.thawed ?_
      have hsub : (s.list.rows.filter fun k => k ≠ key ∧ k ∉ s.list.pendingAdjust).Sublist
          (s.list.rows.filter (· ∉ s.list.pendingAdjust)) := by
        refine List.monotone_filter_right _ fun k hk => ?_
        simp only [Bool.decide_and, Bool.and_eq_true] at hk
        exact hk.2
      refine (horder.sorted.sublist hsub).imp_of_mem fun {a b} ha hb hle => ?_
      rw [hother a (of_decide_eq_true (List.mem_filter.mp ha).2).1,
        hother b (of_decide_eq_true (List.mem_filter.mp hb).2).1]
      exact hle
  | restyle key entry =>
    refine horder.of_rows rfl rfl rfl fun k => ?_
    by_cases hk : k = key
    · subst hk
      simp [step]
    · simp [step, hk]

theorem heights_eq {l : DialogsList Key Ratio} {keys : List Key} :
    heights l.rowByKey keys = (keys.map fun k => (l.row k).height).sum := by
  have hheight : ∀ k, ((l.rowByKey.find? k).map Row.height).getD 0 = (l.row k).height := fun k => by
    rw [DialogsList.row, getRow]
    cases l.rowByKey.find? k <;> rfl
  rw [heights, funext hheight]

theorem after_concat : s.after (ops ++ [op]) = ((s.after ops).step op).1 := by
  rw [ListedChats.after, run_concat]
  rfl

variable (ops) in
/-- **What a run does to the rows there are.** -/
theorem ListedChats.after_sound (h : s.list.Sound) (hrows : s.list.rows = []) :
    (s.after ops).list.Sound ∧ (s.after ops).list.sortMode = s.list.sortMode ∧
      ∀ k, k ∈ (s.after ops).list.rows ↔ Listed k ops := by
  induction ops using List.reverseRecOn with
  | nil => exact ⟨h, rfl, fun k => by simp [after, run, hrows, Listed]⟩
  | append_singleton ops op ih =>
    obtain ⟨hsound, hmode, hmem⟩ := ih
    obtain ⟨hsound', hmode', hmem'⟩ := step_sound op hsound hmem
    rw [after_concat]
    exact ⟨hsound', hmode'.trans hmode, hmem'⟩

/-- **What a run does to the order**, if it moves no row to the top. -/
theorem ListedChats.after_inOrder (h : s.list.Sound) (hrows : s.list.rows = [])
    (horder : InOrder s.entries s.list) (hmode : s.list.sortMode = .date)
    (hops : ∀ op ∈ ops, ¬ op.MovesToTop) : InOrder (s.after ops).entries (s.after ops).list := by
  induction ops using List.reverseRecOn with
  | nil => exact horder
  | append_singleton ops op ih =>
    obtain ⟨hsound, hmode', -⟩ := after_sound ops h hrows
    rw [after_concat]
    refine step_inOrder hsound (ih fun op hop => hops op (List.mem_append_left _ hop))
      (hmode'.trans hmode) (hops op (by simp))

/-- **The rows of a list are placed and in order.**  After every run there is one row for each key
that was added and not removed since, at the place it says, and its top is the height of the rows
above it; and where no row was moved to the top of a list sorted by date and the list is not frozen,
no row stands below one of a smaller sort key. -/
theorem rows_placed_in_order (sortMode : SortMode) (narrowRatio : Ratio)
    (entries : Key → RowEntry Ratio) (ops : List (ListOp Key Ratio)) :
    let s := ListedChats.after ⟨entries, new sortMode narrowRatio⟩ ops
    s.list.rows.Nodup ∧
    (∀ key, key ∈ s.list.rows ↔ Listed key ops) ∧
    (∀ key, (s.list.getRow key).isSome ↔ Listed key ops) ∧
    (∀ i key row, s.list.rows[i]? = some key → s.list.getRow key = some row →
      row.index = i ∧ row.top = ((s.list.rows.take i).map fun k => (s.list.row k).height).sum) ∧
    (sortMode = .date → (∀ op ∈ ops, ¬ op.MovesToTop) → s.list.frozen = false →
      s.list.rows.Pairwise fun a b => (s.entries b).sortKey ≤ (s.entries a).sortKey) := by
  set s₀ : ListedChats Key Ratio := ⟨entries, new sortMode narrowRatio⟩
  have hsound := ListedChats.after_sound (s := s₀) ops (sound_new sortMode) rfl
  refine ⟨hsound.1.placed.nodup, hsound.2.2, fun key => ?_, fun i key row hi hrow => ?_, ?_⟩
  · rw [← hsound.2.2, hsound.1.placed.mem]
    rfl
  · obtain ⟨hindex, htop⟩ := hsound.1.placed.placed.getElem? hi hrow
    rw [zero_add] at hindex htop
    exact ⟨hindex, htop.trans heights_eq⟩
  · intro hdate hops hfrozen
    have horder : InOrder (s₀.after ops).entries (s₀.after ops).list :=
      ListedChats.after_inOrder (sound_new sortMode) rfl (inOrder_new sortMode) hdate hops
    have hsorted := horder.sorted
    rw [horder.thawed hfrozen] at hsorted
    have hall : ∀ k ∈ (s₀.after ops).list.rows, decide (k ∉ ([] : List Key)) = true := by simp
    rwa [List.filter_eq_self.mpr hall] at hsorted

end Yunogram.Dialogs
