import Yunogram.Dialogs.DialogsList
import Yunogram.Machinery.Run

/-!
# Dialogs/DialogsOrder — a row that changed is moved among rows in the order of their sort keys

While a list is frozen the rows whose sort keys changed are put off, and only the other rows stand
in the order of their sort keys (`InOrder`).  One row that was put off is moved by bisecting the
others; more of them are moved one after the other, and then the list is sorted if they did not get
it in order.

The results are `Sound.adjustByDate` and `Sound.adjustByDate_inOrder`: a row is moved or put off,
the rows stay placed, and those that were not put off are in order. -/

open Machinery

namespace Yunogram.Dialogs

variable {Key Ratio : Type} [LinearOrder Key] {entries : Key → RowEntry Ratio}

namespace DialogsList

variable {l l' l'' : DialogsList Key Ratio} {key k : Key} {row : Row} {keys xs ys zs ws : List Key}

/-- Rows are placed. -/
abbrev Placed (l : DialogsList Key Ratio) : Prop := Dialogs.Placed l.rows l.rowByKey

theorem row_eq (h : l.rowByKey.find? key = some row) : l.row key = row := by
  rw [DialogsList.row, getRow, h, Option.getD_some]

/-- The bottom of the last row is the height of all. -/
theorem Placed.height_eq (h : l.Placed) : l.height = heights l.rowByKey l.rows := by
  rw [height]
  rcases List.eq_nil_or_concat l.rows with hrows | ⟨init, last, hrows⟩
  · rw [hrows]
    rfl
  · rw [List.concat_eq_append] at hrows
    have hplaced := h.placed
    rw [hrows, placed_append] at hplaced
    obtain ⟨row, hrow, -, ht, -⟩ := hplaced.2
    rw [hrows, List.getLast?_concat, heights_append, heights_cons hrow, heights_nil, add_zero]
    dsimp only
    rw [row_eq hrow, ht]

/-! ## Moving a row -/

/-- The rows of a list are put in another order, and stay placed. -/
structure Reordered (l l' : DialogsList Key Ratio) : Prop where
  perm : l'.rows.Perm l.rows
  placed : l'.Placed
  sortMode : l'.sortMode = l.sortMode
  frozen : l'.frozen = l.frozen
  pendingAdjust : l'.pendingAdjust = l.pendingAdjust

theorem Reordered.refl (h : l.Placed) : Reordered l l := ⟨List.Perm.refl _, h, rfl, rfl, rfl⟩

theorem Reordered.trans (h : Reordered l l') (h' : Reordered l' l'') : Reordered l l'' where
  perm := h'.perm.trans h.perm
  placed := h'.placed
  sortMode := h'.sortMode.trans h.sortMode
  frozen := h'.frozen.trans h.frozen
  pendingAdjust := h'.pendingAdjust.trans h.pendingAdjust

/-- **A rotation swaps two neighbouring pieces.** -/
theorem Placed.rotate (h : l.Placed) (hrows : l.rows = xs ++ (ys ++ zs) ++ ws) (hne : ys ++ zs ≠ [])
    {first middle last : ℕ} (hfirst : first = xs.length) (hmiddle : middle = first + ys.length)
    (hlast : last = middle + zs.length) :
    (l.rotate first middle last).rows = xs ++ (zs ++ ys) ++ ws ∧
      Reordered l (l.rotate first middle last) := by
  have hmoved : (l.rows.take last).drop middle ++ (l.rows.take middle).drop first = zs ++ ys := by
    have hlast' : l.rows.take last = xs ++ ys ++ zs := by
      rw [hrows, hlast, hmiddle, hfirst, ← List.append_assoc xs]
      exact List.take_left' (by rw [List.length_append, List.length_append])
    have hmiddle' : l.rows.take middle = xs ++ ys := by
      rw [hrows, hmiddle, hfirst, ← List.append_assoc xs, List.append_assoc]
      exact List.take_left' (by simp)
    rw [hlast', hmiddle', hmiddle, hfirst, List.drop_left' (by simp), List.drop_left' rfl]
  have hfront : l.rows.take first = xs := by
    rw [hrows, hfirst, List.append_assoc]
    exact List.take_left' rfl
  have hback : l.rows.drop last = ws := by
    rw [hrows, hlast, hmiddle, hfirst]
    exact List.drop_left' (by simp; omega)
  have htop : (l.rows[first]?.map fun key => (l.row key).top).getD 0 = heights l.rowByKey xs := by
    obtain ⟨key, rest, hkey⟩ := List.exists_cons_of_ne_nil hne
    have hat : l.rows[first]? = some key := by
      rw [hrows, hkey, hfirst, List.append_assoc, List.getElem?_append_right le_rfl, Nat.sub_self]
      rfl
    obtain ⟨row, hrow⟩ := Option.isSome_iff_exists.mp ((h.mem key).mp (List.mem_of_getElem? hat))
    rw [hat, Option.map_some, Option.getD_some, row_eq hrow, (h.placed.getElem? hat hrow).2,
      zero_add, hfront]
  have hrotated : (l.rotate first middle last).rows = xs ++ (zs ++ ys) ++ ws := by
    rw [DialogsList.rotate, hmoved, hfront, hback]
  refine ⟨hrotated, ?_, ?_, rfl, rfl, rfl⟩
  · rw [hrotated, hrows]
    exact (List.perm_append_comm.append_left xs).append_right ws
  · have hplaced : Dialogs.Placed (xs ++ (ys ++ zs) ++ ws) l.rowByKey := hrows ▸ h
    have := hplaced.reorder (List.perm_append_comm : (zs ++ ys).Perm (ys ++ zs))
    unfold Placed
    rw [hrotated, DialogsList.rotate, hmoved, htop, hfirst]
    exact this

/-- A row's place is the number of rows above it. -/
theorem Placed.index_eq (h : l.Placed) (hrows : l.rows = xs ++ key :: ys) :
    (l.row key).index = xs.length := by
  have hat : l.rows[xs.length]? = some key := by
    rw [hrows, List.getElem?_append_right le_rfl, Nat.sub_self, List.getElem?_cons_zero]
  obtain ⟨row, hrow⟩ := Option.isSome_iff_exists.mp ((h.mem key).mp (List.mem_of_getElem? hat))
  rw [row_eq hrow, (h.placed.getElem? hat hrow).1, zero_add]

variable (entries) in
/-- Rows in the order of their sort keys, the greatest first. -/
def Descending (rows : List Key) : Prop :=
  rows.Pairwise fun a b => (entries b).sortKey ≤ (entries a).sortKey

omit [LinearOrder Key] in
theorem Descending.insert (h : Descending entries (xs ++ ys))
    (hxs : ∀ x ∈ xs, (entries key).sortKey ≤ (entries x).sortKey)
    (hys : ∀ y ∈ ys, (entries y).sortKey ≤ (entries key).sortKey) :
    Descending entries (xs ++ key :: ys) := by
  obtain ⟨hx, hy, hxy⟩ := List.pairwise_append.mp h
  refine List.pairwise_append.mpr ⟨hx, List.pairwise_cons.mpr ⟨hys, hy⟩, fun x hmem y hmem' => ?_⟩
  rcases List.mem_cons.mp hmem' with rfl | hmem'
  · exact hxs x hmem
  · exact hxy x hmem y hmem'

/-- A row goes down, behind the rows of greater sort keys. -/
theorem Placed.moveDown {next : Key} (h : l.Placed) (hrows : l.rows = xs ++ key :: next :: zs)
    (hnext : (entries key).sortKey < (entries next).sortKey) :
    Reordered l (l.moveByDate entries key) ∧
      (Descending entries (xs ++ next :: zs) →
        Descending entries (l.moveByDate entries key).rows) := by
  set greater : Key → Bool := fun row => decide ((entries key).sortKey < (entries row).sortKey)
    with hgreater
  set n := lowerBound greater zs with hn
  have hindex := h.index_eq hrows
  have hat : l.rows[xs.length + 1]? = some next := by
    rw [hrows, List.getElem?_append_right (by simp)]
    simp
  have hdrop : l.rows.drop (xs.length + 2) = zs := by
    rw [hrows, List.append_cons, List.append_cons]
    exact List.drop_left' (by simp)
  have hmoved : l.moveByDate entries key =
      l.rotate xs.length (xs.length + 1) (xs.length + 2 + n) := by
    rw [DialogsList.moveByDate, hindex, hat, hdrop, Option.any_some, if_pos (decide_eq_true hnext)]
  have hsplit : l.rows = xs ++ ([key] ++ next :: zs.take n) ++ zs.drop n := by
    rw [hrows, List.append_assoc, List.append_assoc, List.cons_append, List.nil_append,
      List.cons_append, List.take_append_drop]
  obtain ⟨hrotated, hreordered⟩ := h.rotate hsplit (by simp) rfl
    (show xs.length + 1 = xs.length + [key].length from rfl)
    (show xs.length + 2 + n = xs.length + 1 + (next :: zs.take n).length by
      rw [List.length_cons, List.length_take, min_eq_left lowerBound_le]
      omega)
  rw [hmoved]
  refine ⟨hreordered, fun hdesc => ?_⟩
  obtain ⟨-, hback, hxs⟩ := List.pairwise_append.mp hdesc
  have hzs : zs.Pairwise fun x y => greater y → greater x := by
    refine (List.pairwise_cons.mp hback).2.imp fun hle hgt => ?_
    exact decide_eq_true ((of_decide_eq_true hgt).trans_le hle)
  have hall : xs ++ (next :: zs.take n ++ [key]) ++ zs.drop n
      = (xs ++ next :: zs.take n) ++ key :: zs.drop n := by
    simp
  rw [hrotated, hall]
  refine Descending.insert ?_ (fun x hx => ?_) fun y hy => ?_
  · rwa [List.append_assoc, List.cons_append, List.take_append_drop]
  · rcases List.mem_append.mp hx with hx | hx
    · exact hnext.le.trans (hxs x hx next List.mem_cons_self)
    · rcases List.mem_cons.mp hx with rfl | hx
      · exact hnext.le
      · exact (of_decide_eq_true (of_mem_take_lowerBound hzs hx)).le
  · exact not_lt.mp (of_decide_eq_false (of_mem_drop_lowerBound hzs hy))

/-- A row goes up, in front of the rows of smaller sort keys. -/
theorem Placed.moveUp {prev : Key} (h : l.Placed) (hrows : l.rows = (zs ++ [prev]) ++ key :: ys)
    (hprev : (entries prev).sortKey < (entries key).sortKey)
    (hnext : ∀ next ∈ ys.head?, (entries next).sortKey ≤ (entries key).sortKey) :
    Reordered l (l.moveByDate entries key) ∧
      (Descending entries (zs ++ [prev] ++ ys) →
        Descending entries (l.moveByDate entries key).rows) := by
  set notLess : Key → Bool := fun row => decide ((entries key).sortKey ≤ (entries row).sortKey)
    with hnotLess
  set n := lowerBound notLess zs with hn
  have hindex : (l.row key).index = zs.length + 1 := by
    rw [h.index_eq hrows, List.length_append, List.length_singleton]
  have hat : l.rows[zs.length + 1 + 1]? = ys.head? := by
    rw [hrows, List.getElem?_append_right (by simp), List.head?_eq_getElem?]
    simp
  have hat' : l.rows[zs.length]? = some prev := by
    rw [hrows, List.append_assoc, List.getElem?_append_right le_rfl, Nat.sub_self]
    rfl
  have htake : l.rows.take zs.length = zs := by
    rw [hrows, List.append_assoc]
    exact List.take_left' rfl
  have hnot :
      ¬ (ys.head?.any fun next => decide ((entries key).sortKey < (entries next).sortKey)) := by
    rw [Option.any_eq_true]
    rintro ⟨next, hmem, hlt⟩
    exact (of_decide_eq_true hlt).not_ge (hnext next hmem)
  have hmoved : l.moveByDate entries key = l.rotate n (zs.length + 1) (zs.length + 1 + 1) := by
    rw [DialogsList.moveByDate, hindex, hat, if_neg hnot, Nat.add_sub_cancel, hat', htake,
      if_pos ⟨Nat.succ_ne_zero _, decide_eq_true hprev⟩]
  have hsplit : l.rows = zs.take n ++ ((zs.drop n ++ [prev]) ++ [key]) ++ ys := by
    rw [hrows, ← List.append_assoc, ← List.append_assoc, List.take_append_drop]
    simp
  have hlength : (zs.take n).length = n := by
    rw [List.length_take, min_eq_left lowerBound_le]
  obtain ⟨hrotated, hreordered⟩ := h.rotate hsplit (by simp) hlength.symm
    (show zs.length + 1 = n + (zs.drop n ++ [prev]).length by
      have : n ≤ zs.length := lowerBound_le
      rw [List.length_append, List.length_drop, List.length_singleton]
      omega)
    (show zs.length + 1 + 1 = zs.length + 1 + [key].length from rfl)
  rw [hmoved]
  refine ⟨hreordered, fun hdesc => ?_⟩
  obtain ⟨hfront, hys, hfrontYs⟩ := List.pairwise_append.mp hdesc
  obtain ⟨hzs, -, hzsPrev⟩ := List.pairwise_append.mp hfront
  have hzs' : zs.Pairwise fun x y => notLess y → notLess x :=
    hzs.imp fun hle hge => decide_eq_true ((of_decide_eq_true hge).trans hle)
  have hall : zs.take n ++ ([key] ++ (zs.drop n ++ [prev])) ++ ys
      = zs.take n ++ key :: (zs.drop n ++ [prev] ++ ys) := by
    simp
  rw [hrotated, hall]
  refine Descending.insert ?_ (fun x hx => ?_) fun y hy => ?_
  · rwa [← List.append_assoc, ← List.append_assoc, List.take_append_drop]
  · exact of_decide_eq_true (of_mem_take_lowerBound hzs' hx)
  · rcases List.mem_append.mp hy with hy | hy
    · rcases List.mem_append.mp hy with hy | hy
      · exact (not_le.mp (of_decide_eq_false (of_mem_drop_lowerBound hzs' hy))).le
      · rw [List.mem_singleton.mp hy]
        exact hprev.le
    · refine (hfrontYs prev (by simp) y hy).trans hprev.le

variable (entries) in
/-- **One row is moved among rows that are in order**, and then all are. -/
theorem Placed.moveByDate (h : l.Placed) (hrows : l.rows = xs ++ key :: ys) :
    Reordered l (l.moveByDate entries key) ∧
      (Descending entries (xs ++ ys) → Descending entries (l.moveByDate entries key).rows) := by
  have hindex := h.index_eq hrows
  have hat : l.rows[xs.length + 1]? = ys.head? := by
    rw [hrows, List.getElem?_append_right (by omega), List.head?_eq_getElem?]
    simp
  by_cases hnext : ∃ next ∈ ys.head?, (entries key).sortKey < (entries next).sortKey
  · obtain ⟨next, hmem, hlt⟩ := hnext
    obtain ⟨zs, rfl⟩ : ∃ zs, ys = next :: zs := List.head?_eq_some_iff.mp hmem
    exact h.moveDown hrows hlt
  · have hnext' : ∀ next ∈ ys.head?, (entries next).sortKey ≤ (entries key).sortKey :=
      fun next hmem => not_lt.mp fun hlt => hnext ⟨next, hmem, hlt⟩
    by_cases hprev : ∃ prev ∈ xs.getLast?, (entries prev).sortKey < (entries key).sortKey
    · obtain ⟨prev, hmem, hlt⟩ := hprev
      obtain ⟨zs, rfl⟩ : ∃ zs, xs = zs ++ [prev] := List.getLast?_eq_some_iff.mp hmem
      exact h.moveUp hrows hlt hnext'
    · have hkept : l.moveByDate entries key = l := by
        rw [DialogsList.moveByDate, hindex, hat, if_neg, if_neg]
        · rintro ⟨hpos, hany⟩
          obtain ⟨zs, prev, rfl⟩ : ∃ zs prev, xs = zs ++ [prev] :=
            (List.eq_nil_or_concat' xs).resolve_left fun hxs => hpos (by rw [hxs]; rfl)
          rw [hrows] at hany
          simp at hany
          exact hprev ⟨prev, by simp, hany⟩
        · rw [Option.any_eq_true]
          rintro ⟨next, hmem, hlt⟩
          exact hnext ⟨next, hmem, of_decide_eq_true hlt⟩
      rw [hkept]
      refine ⟨Reordered.refl h, fun hdesc => ?_⟩
      obtain ⟨hxs, hys, -⟩ := List.pairwise_append.mp hdesc
      rw [hrows]
      refine Descending.insert hdesc (fun x hx => ?_) fun y hy => ?_
      · obtain ⟨zs, prev, rfl⟩ : ∃ zs prev, xs = zs ++ [prev] :=
          (List.eq_nil_or_concat' xs).resolve_left (List.ne_nil_of_mem hx)
        have hle := not_lt.mp fun hlt => hprev ⟨prev, List.getLast?_concat, hlt⟩
        rcases List.mem_append.mp hx with hx | hx
        · exact hle.trans ((List.pairwise_append.mp hxs).2.2 x hx prev (by simp))
        · rwa [List.mem_singleton.mp hx]
      · obtain ⟨next, zs, rfl⟩ := List.exists_cons_of_ne_nil (List.ne_nil_of_mem hy)
        rcases List.mem_cons.mp hy with rfl | hy
        · exact hnext' y rfl
        · exact ((List.pairwise_cons.mp hys).1 y hy).trans (hnext' next rfl)

/-! ## Rows that were put off -/

/-- What every operation keeps: the rows are placed, and those that were put off are among them. -/
structure Sound (l : DialogsList Key Ratio) : Prop where
  placed : l.Placed
  pending : ∀ k ∈ l.pendingAdjust, k ∈ l.rows

variable (entries) in
/-- What is kept while no row is moved to the top: the rows that were not put off are in order, and
a row is put off only while the list is frozen. -/
structure InOrder (l : DialogsList Key Ratio) : Prop where
  thawed : l.frozen = false → l.pendingAdjust = []
  sorted : Descending entries (l.rows.filter (· ∉ l.pendingAdjust))

theorem Reordered.sound (h : Reordered l l') (hl : l.Sound) : l'.Sound where
  placed := h.placed
  pending k hk := h.perm.mem_iff.mpr (hl.pending k (h.pendingAdjust ▸ hk))

theorem mem_emplacePending :
    k ∈ (l.emplacePending key).pendingAdjust ↔ k = key ∨ k ∈ l.pendingAdjust := by
  rw [emplacePending]
  split_ifs with hmem
  · exact ⟨Or.inr, fun h => h.elim (fun heq => heq ▸ hmem) id⟩
  · exact List.mem_orderedInsert _

theorem emplacePending_frozen : (l.emplacePending key).frozen = l.frozen := by
  rw [emplacePending]
  split_ifs <;> rfl

theorem emplacePending_sortMode : (l.emplacePending key).sortMode = l.sortMode := by
  rw [emplacePending]
  split_ifs <;> rfl

theorem emplacePending_rows :
    (l.emplacePending key).rows = l.rows ∧ (l.emplacePending key).rowByKey = l.rowByKey := by
  rw [emplacePending]
  split_ifs <;> exact ⟨rfl, rfl⟩

variable (entries) in
/-- **A row is moved or put off**, and the rows stay the same. -/
theorem Sound.adjustByDate (h : l.Sound) (hkey : key ∈ l.rows) :
    (l.adjustByDate entries key).Sound ∧ (l.adjustByDate entries key).rows.Perm l.rows ∧
      (l.adjustByDate entries key).sortMode = l.sortMode := by
  rw [DialogsList.adjustByDate]
  split_ifs with hfrozen
  · obtain ⟨hrows, hmap⟩ := @emplacePending_rows _ _ _ l key
    refine ⟨⟨?_, fun k hk => ?_⟩, List.Perm.of_eq hrows, emplacePending_sortMode⟩
    · unfold Placed
      rw [hrows, hmap]
      exact h.placed
    · rw [hrows]
      rcases mem_emplacePending.mp hk with rfl | hk
      · exact hkey
      · exact h.pending k hk
  · obtain ⟨xs, ys, hrows⟩ := List.append_of_mem hkey
    have hmoved := (h.placed.moveByDate entries hrows).1
    exact ⟨hmoved.sound h, hmoved.perm, hmoved.sortMode⟩

/-- The other rows, where there is one of each. -/
theorem filter_ne (hnodup : (xs ++ key :: ys).Nodup) :
    (xs ++ key :: ys).filter (· ≠ key) = xs ++ ys := by
  have hnot : key ∉ xs ++ ys := (List.nodup_middle.mp hnodup).notMem
  have hall : ∀ k ∈ xs ++ ys, decide (k ≠ key) = true := fun k hk =>
    decide_eq_true (ne_of_mem_of_not_mem hk hnot)
  rw [List.filter_append, List.filter_cons_of_neg (by simp), ← List.filter_append,
    List.filter_eq_self.mpr hall]

/-- **When the other rows that were not put off are in order**, they are after the row is moved or
put off. -/
theorem Sound.adjustByDate_inOrder (h : l.Sound) (hkey : key ∈ l.rows)
    (hthawed : l.frozen = false → l.pendingAdjust = [])
    (hsorted : Descending entries (l.rows.filter fun k => k ≠ key ∧ k ∉ l.pendingAdjust)) :
    InOrder entries (l.adjustByDate entries key) := by
  rw [DialogsList.adjustByDate]
  split_ifs with hfrozen
  · rw [Bool.and_eq_true] at hfrozen
    refine ⟨fun hf => ?_, ?_⟩
    · rw [emplacePending_frozen, hfrozen.1] at hf
      exact nomatch hf
    · simp only [emplacePending_rows.1, mem_emplacePending, not_or]
      exact hsorted
  · have hpending : l.pendingAdjust = [] := by
      cases hf : l.frozen with
      | false => exact hthawed hf
      | true =>
        rw [hf, Bool.true_and, Bool.not_eq_true, Bool.not_eq_false', canAdjustWhileFrozen,
          Bool.and_eq_true] at hfrozen
        exact List.isEmpty_iff.mp hfrozen.1
    obtain ⟨xs, ys, hrows⟩ := List.append_of_mem hkey
    obtain ⟨hmoved, hdesc⟩ := h.placed.moveByDate entries hrows
    have hrest : Descending entries (xs ++ ys) := by
      have hnodup := h.placed.nodup
      rw [hrows] at hnodup
      rw [← filter_ne hnodup, ← hrows]
      simpa [hpending] using hsorted
    refine ⟨fun _ => hmoved.pendingAdjust.trans hpending, ?_⟩
    rw [hmoved.pendingAdjust, hpending]
    simpa using hdesc hrest

end DialogsList

end Yunogram.Dialogs
