import Mathlib
import Yunogram.Machinery.FlatMap
import Yunogram.Machinery.LowerBound

/-!
# Dialogs/DialogsList — the rows of a chat list, with their places and their tops

A list owns one row for each of its keys and keeps the rows in an order; a row knows its place in it
and the height above it.  Rows are moved by their sort keys, which belong to the entries; while the
list is frozen the moves are put off.  A row is named by its key, and the rows that were put off are
kept by their addresses.

The result is that every operation keeps the rows placed (`Placed`): one row for each key, at the
place it says and with the top it says.
-/

open Machinery

namespace Yunogram.Dialogs

variable {Key Ratio : Type} [LinearOrder Key]

/-- What a list asks an entry for: `sortKeyInChatList` and `isPinnedDialog` of the list's filter,
and the height that `recountHeight` finds for its row. -/
structure RowEntry (Ratio : Type) where
  sortKey : ℕ
  fixedOnTopIndex : ℕ
  isPinnedDialog : Bool
  rowHeight : Ratio → ℤ

/-- `Row`, and where it is in memory. -/
structure Row where
  index : ℕ
  top : ℤ
  height : ℤ
  address : ℕ
  deriving DecidableEq

/-- `SortMode`. -/
inductive SortMode
  | date
  | name
  | add
  deriving DecidableEq

/-- `Dialogs::List`. -/
structure DialogsList (Key Ratio : Type) [LinearOrder Key] where
  sortMode : SortMode
  narrowRatio : Ratio
  frozen : Bool
  rows : List Key
  rowByKey : FlatMap Key Row
  pendingAdjust : List Key

variable (entries : Key → RowEntry Ratio)

/-! ## The operations -/

/-- A loop over rows from a place and a top on; `change` gets a row's key, place and top, and the
row below starts where the changed row ends. -/
def forRows (change : Key → ℕ → ℤ → Row → Row) :
    FlatMap Key Row → ℕ → ℤ → List Key → FlatMap Key Row
  | rowByKey, _, _, [] => rowByKey
  | rowByKey, index, top, key :: keys =>
    match rowByKey.find? key with
    | none => forRows change rowByKey index top keys
    | some row =>
      forRows change (rowByKey.assign key (change key index top row)) (index + 1)
        (top + (change key index top row).height) keys

/-- The loop body of `rotate`, `sortByDate` and `remove`. -/
def setPlace (_ : Key) (index : ℕ) (top : ℤ) (row : Row) : Row := { row with index, top }

/-- The loop body of `updateHeight`. -/
def setTop (_ : Key) (_ : ℕ) (top : ℤ) (row : Row) : Row := { row with top }

/-- The loop body of `updateHeights`. -/
def setTopAndHeight (narrowRatio : Ratio) (key : Key) (_ : ℕ) (top : ℤ) (row : Row) : Row :=
  { row with top, height := (entries key).rowHeight narrowRatio }

namespace DialogsList

/-- `List(sortMode)`. -/
def new (sortMode : SortMode) (narrowRatio : Ratio) : DialogsList Key Ratio where
  sortMode := sortMode
  narrowRatio := narrowRatio
  frozen := false
  rows := []
  rowByKey := FlatMap.empty
  pendingAdjust := []

/-- `getRow`. -/
def getRow (l : DialogsList Key Ratio) (key : Key) : Option Row := l.rowByKey.find? key

/-- The row of a key that has one. -/
def row (l : DialogsList Key Ratio) (key : Key) : Row := (l.getRow key).getD ⟨0, 0, 0, 0⟩

/-- `height()`. -/
def height (l : DialogsList Key Ratio) : ℤ :=
  match l.rows.getLast? with
  | none => 0
  | some last => (l.row last).top + (l.row last).height

/-- `rotate`, its iterators as places. -/
def rotate (l : DialogsList Key Ratio) (first middle last : ℕ) : DialogsList Key Ratio :=
  let top := (l.rows[first]?.map fun key => (l.row key).top).getD 0
  let moved := (l.rows.take last).drop middle ++ (l.rows.take middle).drop first
  { l with
    rows := l.rows.take first ++ moved ++ l.rows.drop last
    rowByKey := forRows setPlace l.rowByKey first top moved }

/-- What `adjustByDate` does when it does not put the row off. -/
def moveByDate (l : DialogsList Key Ratio) (row : Key) : DialogsList Key Ratio :=
  let key := (entries row).sortKey
  let index := (l.row row).index
  if (l.rows[index + 1]?).any fun next => key < (entries next).sortKey then
    let before := index + 2 +
      lowerBound (fun row => decide (key < (entries row).sortKey)) (l.rows.drop (index + 2))
    l.rotate index (index + 1) before
  else if index ≠ 0 ∧ (l.rows[index - 1]?).any fun prev => (entries prev).sortKey < key then
    let after :=
      lowerBound (fun row => decide (key ≤ (entries row).sortKey)) (l.rows.take (index - 1))
    l.rotate after index (index + 1)
  else l

/-- `_pendingAdjust.emplace`. -/
def emplacePending (l : DialogsList Key Ratio) (row : Key) : DialogsList Key Ratio :=
  if row ∈ l.pendingAdjust then l
  else { l with
    pendingAdjust :=
      l.pendingAdjust.orderedInsert (fun a b => (l.row a).address ≤ (l.row b).address) row }

/-- `canAdjustWhileFrozen`. -/
def canAdjustWhileFrozen (l : DialogsList Key Ratio) (row : Key) : Bool :=
  l.pendingAdjust.isEmpty &&
    ((entries row).fixedOnTopIndex != 0 || (entries row).isPinnedDialog)

/-- `adjustByDate`. -/
def adjustByDate (l : DialogsList Key Ratio) (row : Key) : DialogsList Key Ratio :=
  if l.frozen && !l.canAdjustWhileFrozen entries row then l.emplacePending row
  else l.moveByDate entries row

/-- The row that `addToEnd` makes, at the end of the others. -/
def emplaceRow (l : DialogsList Key Ratio) (key : Key) (address : ℕ) : DialogsList Key Ratio :=
  let result : Row := ⟨l.rows.length, l.height, (entries key).rowHeight l.narrowRatio, address⟩
  { l with rowByKey := l.rowByKey.emplace key result, rows := l.rows ++ [key] }

/-- `addToEnd`, with the address the new row gets. -/
def addToEnd (l : DialogsList Key Ratio) (key : Key) (address : ℕ) : DialogsList Key Ratio :=
  match l.getRow key with
  | some _ => l
  | none =>
    let added := l.emplaceRow entries key address
    if added.sortMode = .date then added.adjustByDate entries key else added

/-- `freeze`. -/
def freeze (l : DialogsList Key Ratio) : DialogsList Key Ratio := { l with frozen := true }

/-- `sortedByDate`; the source's loop wants a list with a row. -/
def sortedByDate (l : DialogsList Key Ratio) : Bool :=
  (l.rows.zip l.rows.tail).all fun (a, b) => !decide ((entries a).sortKey < (entries b).sortKey)

/-- `sortByDate`. -/
def sortByDate (l : DialogsList Key Ratio) : DialogsList Key Ratio :=
  let rows := l.rows.mergeSort fun a b => (entries b).sortKey ≤ (entries a).sortKey
  { l with rows, rowByKey := forRows setPlace l.rowByKey 0 0 rows }

/-- `unfreeze`. -/
def unfreeze (l : DialogsList Key Ratio) : DialogsList Key Ratio :=
  let thawed := { l with frozen := false, pendingAdjust := [] }
  match l.pendingAdjust with
  | [] => thawed
  | [row] => thawed.adjustByDate entries row
  | pending =>
    let adjusted := pending.foldl (fun l row => l.adjustByDate entries row) thawed
    if adjusted.sortedByDate entries then adjusted else adjusted.sortByDate entries

/-- `updateHeight`. -/
def updateHeight (l : DialogsList Key Ratio) (key : Key) (narrowRatio : Ratio) :
    DialogsList Key Ratio × Bool :=
  match l.getRow key with
  | none => (l, false)
  | some row =>
    let recounted := { row with height := (entries key).rowHeight narrowRatio }
    if recounted.height = row.height then (l, false)
    else
      ({ l with
          rowByKey := forRows setTop (l.rowByKey.assign key recounted) row.index row.top
            (l.rows.drop row.index) },
        true)

/-- `updateHeights`. -/
def updateHeights (l : DialogsList Key Ratio) (narrowRatio : Ratio) :
    DialogsList Key Ratio × Bool :=
  let updated := { l with
    narrowRatio
    rowByKey := forRows (setTopAndHeight entries narrowRatio) l.rowByKey 0 0 l.rows }
  (updated, updated.height ≠ l.height)

/-- `moveToTop`. -/
def moveToTop (l : DialogsList Key Ratio) (key : Key) : DialogsList Key Ratio × Bool :=
  match l.getRow key with
  | none => (l, false)
  | some row => (l.rotate 0 row.index (row.index + 1), true)

/-- `remove`. -/
def remove (l : DialogsList Key Ratio) (key : Key) : DialogsList Key Ratio × Bool :=
  match l.getRow key with
  | none => (l, false)
  | some row =>
    let rows := l.rows.eraseIdx row.index
    ({ l with
        pendingAdjust := l.pendingAdjust.filter (· ≠ key)
        rows
        rowByKey :=
          (forRows setPlace l.rowByKey row.index row.top (rows.drop row.index)).erase key },
      true)

end DialogsList

/-! ## Rows one below another -/

section

variable {m m' : FlatMap Key Row} {change : Key → ℕ → ℤ → Row → Row} {i : ℕ} {t : ℤ} {key k : Key}
  {keys xs ys : List Key} {row : Row}

/-- The height of the rows of some keys. -/
def heights (m : FlatMap Key Row) (keys : List Key) : ℤ :=
  (keys.map fun key => ((m.find? key).map Row.height).getD 0).sum

/-- The rows of some keys stand one below another, from a place and a top on. -/
def PlacedFrom (m : FlatMap Key Row) : ℕ → ℤ → List Key → Prop
  | _, _, [] => True
  | i, t, key :: keys =>
    ∃ row, m.find? key = some row ∧ row.index = i ∧ row.top = t ∧
      PlacedFrom m (i + 1) (t + row.height) keys

@[simp] theorem heights_nil : heights m [] = 0 := rfl

theorem heights_cons (hrow : m.find? key = some row) :
    heights m (key :: keys) = row.height + heights m keys := by
  simp [heights, hrow]

theorem heights_append : heights m (xs ++ ys) = heights m xs + heights m ys := by
  simp [heights]

theorem heights_perm (h : xs.Perm ys) : heights m xs = heights m ys := (h.map _).sum_eq

theorem heights_congr
    (h : ∀ k ∈ keys, (m'.find? k).map Row.height = (m.find? k).map Row.height) :
    heights m' keys = heights m keys := by
  unfold heights
  rw [List.map_congr_left fun k hk => congrArg (Option.getD · 0) (h k hk)]

theorem placedFrom_append :
    PlacedFrom m i t (xs ++ ys) ↔
      PlacedFrom m i t xs ∧ PlacedFrom m (i + xs.length) (t + heights m xs) ys := by
  induction xs generalizing i t with
  | nil => simp [PlacedFrom]
  | cons x xs ih =>
    have hlength : i + (x :: xs).length = i + 1 + xs.length := by
      rw [List.length_cons, Nat.add_right_comm, Nat.add_assoc]
    rw [hlength]
    simp only [List.cons_append, PlacedFrom, ih]
    constructor
    · rintro ⟨row, hrow, hi, ht, hxs, hys⟩
      exact ⟨⟨row, hrow, hi, ht, hxs⟩, by rwa [heights_cons hrow, ← add_assoc]⟩
    · rintro ⟨⟨row, hrow, hi, ht, hxs⟩, hys⟩
      exact ⟨row, hrow, hi, ht, hxs, by rwa [heights_cons hrow, ← add_assoc] at hys⟩

/-- What stands on top ends where the rest starts. -/
theorem placed_append :
    PlacedFrom m 0 0 (xs ++ ys) ↔
      PlacedFrom m 0 0 xs ∧ PlacedFrom m xs.length (heights m xs) ys := by
  rw [placedFrom_append, zero_add, zero_add]

theorem PlacedFrom.congr (h : PlacedFrom m i t keys) (hm : ∀ k ∈ keys, m'.find? k = m.find? k) :
    PlacedFrom m' i t keys := by
  induction keys generalizing i t with
  | nil => trivial
  | cons key keys ih =>
    obtain ⟨row, hrow, hi, ht, hkeys⟩ := h
    refine ⟨row, (hm key List.mem_cons_self).trans hrow, hi, ht, ih hkeys fun k hk => ?_⟩
    exact hm k (List.mem_cons_of_mem key hk)

/-! ### The loops -/

theorem forRows_cons (hrow : m.find? key = some row) :
    forRows change m i t (key :: keys) =
      forRows change (m.assign key (change key i t row)) (i + 1)
        (t + (change key i t row).height) keys := by
  rw [forRows, hrow]

/-- A loop leaves the other rows as they were. -/
theorem find?_forRows_of_not_mem (hk : k ∉ keys) :
    (forRows change m i t keys).find? k = m.find? k := by
  induction keys generalizing m i t with
  | nil => rfl
  | cons key keys ih =>
    obtain ⟨hne, hk⟩ := not_or.mp (mt List.mem_cons.mpr hk)
    rw [forRows]
    cases m.find? key with
    | none => exact ih hk
    | some row => exact (ih hk).trans (by rw [FlatMap.find?_assign, if_neg hne])

theorem isSome_forRows : ((forRows change m i t keys).find? k).isSome = (m.find? k).isSome := by
  induction keys generalizing m i t with
  | nil => rfl
  | cons key keys ih =>
    rw [forRows]
    cases hrow : m.find? key with
    | none => exact ih
    | some row =>
      refine ih.trans ?_
      rw [FlatMap.find?_assign]
      split_ifs with hk
      · rw [hk, hrow]
        rfl
      · rfl

/-- A loop that keeps the height of each row keeps all heights. -/
theorem height_forRows (hchange : ∀ key i t row, (change key i t row).height = row.height) :
    ((forRows change m i t keys).find? k).map Row.height = (m.find? k).map Row.height := by
  induction keys generalizing m i t with
  | nil => rfl
  | cons key keys ih =>
    rw [forRows]
    cases hrow : m.find? key with
    | none => exact ih
    | some row =>
      refine ih.trans ?_
      rw [FlatMap.find?_assign]
      split_ifs with hk
      · rw [hk, hrow, Option.map_some, Option.map_some, hchange]
      · rfl

/-- **A loop puts its rows one below another**, if it sets their tops and leaves them with their
places. -/
theorem placedFrom_forRows (hnodup : keys.Nodup) (hsome : ∀ k ∈ keys, (m.find? k).isSome)
    (htop : ∀ key i t row, (change key i t row).top = t)
    (hindex : ∀ j k t row, keys[j]? = some k → m.find? k = some row →
      (change k (i + j) t row).index = i + j) :
    PlacedFrom (forRows change m i t keys) i t keys := by
  induction keys generalizing m i t with
  | nil => trivial
  | cons key keys ih =>
    obtain ⟨hkey, hnodup⟩ := List.nodup_cons.mp hnodup
    obtain ⟨row, hrow⟩ := Option.isSome_iff_exists.mp (hsome key List.mem_cons_self)
    have hassign : ∀ k ∈ keys,
        (m.assign key (change key i t row)).find? k = m.find? k := fun k hk => by
      rw [FlatMap.find?_assign, if_neg (ne_of_mem_of_not_mem hk hkey)]
    rw [forRows_cons hrow]
    refine ⟨change key i t row, ?_, hindex 0 key t row rfl hrow, htop key i t row, ?_⟩
    · rw [find?_forRows_of_not_mem hkey, FlatMap.find?_assign, if_pos rfl]
    · refine ih hnodup (fun k hk => ?_) fun j k t' row' hj hk => ?_
      · rw [hassign k hk]
        exact hsome k (List.mem_cons_of_mem key hk)
      · rw [hassign k (List.mem_of_getElem? hj)] at hk
        have := hindex (j + 1) k t' row' hj hk
        rwa [← Nat.add_assoc, Nat.add_right_comm] at this

theorem PlacedFrom.getElem? {j : ℕ} (h : PlacedFrom m i t keys) (hk : keys[j]? = some k)
    (hrow : m.find? k = some row) : row.index = i + j ∧ row.top = t + heights m (keys.take j) := by
  induction keys generalizing i t j with
  | nil => exact nomatch hk
  | cons key keys ih =>
    obtain ⟨row', hrow', hi, ht, hkeys⟩ := h
    match j with
    | 0 =>
      obtain rfl := Option.some.inj hk
      obtain rfl := Option.some.inj (hrow.symm.trans hrow')
      exact ⟨hi, ht.trans (add_zero t).symm⟩
    | j + 1 =>
      obtain ⟨hi', ht'⟩ := ih hkeys hk
      refine ⟨by rw [hi', Nat.add_right_comm, Nat.add_assoc], ?_⟩
      rw [ht', List.take_succ_cons, heights_cons hrow', ← add_assoc]

/-- `setPlace` for rows between others that stand where they are to stand. -/
theorem placedFrom_setPlace {zs : List Key} (hnodup : (xs ++ ys ++ zs).Nodup)
    (hsome : ∀ k ∈ ys, (m.find? k).isSome) (hxs : PlacedFrom m 0 0 xs)
    (hzs : PlacedFrom m (xs.length + ys.length) (heights m xs + heights m ys) zs) :
    PlacedFrom (forRows setPlace m xs.length (heights m xs) ys) 0 0 (xs ++ ys ++ zs) := by
  obtain ⟨hxys, -, hdisjoint⟩ := List.nodup_append.mp hnodup
  obtain ⟨-, hys, hdisjoint'⟩ := List.nodup_append.mp hxys
  have hheights : ∀ keys, heights (forRows setPlace m xs.length (heights m xs) ys) keys
      = heights m keys :=
    fun keys => heights_congr fun k _ => height_forRows fun _ _ _ _ => rfl
  rw [placed_append, placed_append]
  refine ⟨⟨?_, ?_⟩, ?_⟩
  · refine hxs.congr fun k hk => find?_forRows_of_not_mem fun hk' => ?_
    exact hdisjoint' k hk k hk' rfl
  · rw [hheights]
    exact placedFrom_forRows hys hsome (fun _ _ _ _ => rfl) fun _ _ _ _ _ _ => rfl
  · rw [hheights, heights_append, List.length_append]
    refine hzs.congr fun k hk => find?_forRows_of_not_mem fun hk' => ?_
    exact hdisjoint k (List.mem_append_right xs hk') k hk rfl

end

/-- **The rows of a list**: one for each key, at the place it says and with the top it says. -/
structure Placed (rows : List Key) (m : FlatMap Key Row) : Prop where
  nodup : rows.Nodup
  mem : ∀ k, k ∈ rows ↔ (m.find? k).isSome
  placed : PlacedFrom m 0 0 rows

namespace Placed

variable {m : FlatMap Key Row} {rows xs ys zs ys' : List Key} {key k : Key} {row : Row}

theorem nil : Placed [] (FlatMap.empty : FlatMap Key Row) :=
  ⟨List.nodup_nil, fun k => by simp, trivial⟩

/-- A row that is found stands between the others. -/
theorem split (h : Placed rows m) (hrow : m.find? key = some row) :
    ∃ xs ys, rows = xs ++ key :: ys ∧ row.index = xs.length ∧ row.top = heights m xs := by
  have hkey : key ∈ rows := (h.mem key).mpr (Option.isSome_of_eq_some hrow)
  obtain ⟨xs, ys, rfl⟩ := List.append_of_mem hkey
  have hat : (xs ++ key :: ys)[xs.length]? = some key := by
    rw [List.getElem?_append_right le_rfl, Nat.sub_self, List.getElem?_cons_zero]
  obtain ⟨hi, ht⟩ := h.placed.getElem? hat hrow
  refine ⟨xs, ys, rfl, hi.trans (Nat.zero_add _), ?_⟩
  rw [ht, zero_add, List.take_left]

/-- **Rows are put in another order.** -/
theorem reorder (h : Placed (xs ++ ys ++ zs) m) (hperm : ys'.Perm ys) :
    Placed (xs ++ ys' ++ zs) (forRows setPlace m xs.length (heights m xs) ys') := by
  have hall : (xs ++ ys' ++ zs).Perm (xs ++ ys ++ zs) := (hperm.append_left xs).append_right zs
  obtain ⟨hxys, hzs⟩ := placed_append.mp h.placed
  have hnodup := hall.nodup_iff.mpr h.nodup
  refine ⟨hnodup, fun k => ?_, ?_⟩
  · rw [isSome_forRows, hall.mem_iff, h.mem]
  · refine placedFrom_setPlace hnodup (fun k hk => ?_) (placed_append.mp hxys).1 ?_
    · rw [← h.mem, ← hall.mem_iff]
      exact List.mem_append_left zs (List.mem_append_right xs hk)
    · rwa [heights_append, List.length_append, ← hperm.length_eq, ← heights_perm hperm] at hzs

/-- A row is put at the end. -/
theorem addLast (h : Placed rows m) (hkey : m.find? key = none) (hi : row.index = rows.length)
    (ht : row.top = heights m rows) : Placed (rows ++ [key]) (m.emplace key row) := by
  have hnot : key ∉ rows := fun hmem => by
    rw [h.mem, hkey] at hmem
    exact nomatch hmem
  have hemplace : ∀ k, (m.emplace key row).find? k = if k = key then some row else m.find? k :=
    fun k => FlatMap.find?_emplace_of_none hkey k row
  have hother : ∀ k ∈ rows, (m.emplace key row).find? k = m.find? k := fun k hk => by
    rw [hemplace, if_neg (ne_of_mem_of_not_mem hk hnot)]
  refine ⟨?_, fun k => ?_, ?_⟩
  · rw [← List.concat_eq_append]
    exact h.nodup.concat hnot
  · rw [hemplace, List.mem_append, List.mem_singleton, h.mem]
    split_ifs with hk
    · simp [hk]
    · simp [hk]
  · rw [placed_append]
    refine ⟨h.placed.congr hother, row, by rw [hemplace, if_pos rfl], hi, ?_, trivial⟩
    rw [ht, heights_congr fun k hk => by rw [hother k hk]]

/-- A row is removed. -/
theorem removed (h : Placed (xs ++ key :: ys) m) :
    Placed (xs ++ ys) ((forRows setPlace m xs.length (heights m xs) ys).erase key) := by
  have hnodup : (xs ++ ys).Nodup := h.nodup.sublist ((List.sublist_cons_self key ys).append_left xs)
  have hnot : key ∉ xs ++ ys := (List.nodup_middle.mp h.nodup).notMem
  have hplaced :
      PlacedFrom (forRows setPlace m xs.length (heights m xs) ys) 0 0 (xs ++ ys ++ []) := by
    refine placedFrom_setPlace (by rwa [List.append_nil]) (fun k hk => ?_)
      (placed_append.mp h.placed).1 trivial
    exact (h.mem k).mp (List.mem_append_right xs (List.mem_cons_of_mem key hk))
  rw [List.append_nil] at hplaced
  refine ⟨hnodup, fun k => ?_, hplaced.congr fun k hk => ?_⟩
  · rw [FlatMap.find?_erase]
    split_ifs with hk
    · rw [hk]
      exact iff_of_false hnot (by simp)
    · rw [isSome_forRows, ← h.mem, List.mem_append, List.mem_append, List.mem_cons]
      simp [hk]
  · rw [FlatMap.find?_erase, if_neg (ne_of_mem_of_not_mem hk hnot)]

/-- Rows get other heights, from one on. -/
theorem resized {m' : FlatMap Key Row} {change : Key → ℕ → ℤ → Row → Row}
    (h : Placed (xs ++ ys) m) (hsome : ∀ k, (m'.find? k).isSome = (m.find? k).isSome)
    (hxs : ∀ k ∈ xs, m'.find? k = m.find? k)
    (hys : ∀ k row, m'.find? k = some row → ∃ row', m.find? k = some row' ∧ row'.index = row.index)
    (htop : ∀ key i t row, (change key i t row).top = t)
    (hindex : ∀ key i t row, (change key i t row).index = row.index) :
    Placed (xs ++ ys) (forRows change m' xs.length (heights m xs) ys) := by
  obtain ⟨hplacedXs, hplacedYs⟩ := placed_append.mp h.placed
  obtain ⟨-, hnodup, hdisjoint⟩ := List.nodup_append.mp h.nodup
  have hkept : ∀ k ∈ xs, (forRows change m' xs.length (heights m xs) ys).find? k = m.find? k :=
    fun k hk => (find?_forRows_of_not_mem fun hk' => hdisjoint k hk k hk' rfl).trans (hxs k hk)
  refine ⟨h.nodup, fun k => ?_, placed_append.mpr ⟨hplacedXs.congr hkept, ?_⟩⟩
  · rw [isSome_forRows, hsome, h.mem]
  · have hheights : heights (forRows change m' xs.length (heights m xs) ys) xs = heights m xs :=
      heights_congr fun k hk => by rw [hkept k hk]
    rw [hheights]
    refine placedFrom_forRows hnodup (fun k hk => ?_) htop fun j k t row hj hrow => ?_
    · rw [hsome, ← h.mem]
      exact List.mem_append_right xs hk
    · obtain ⟨row', hrow', hi⟩ := hys k row hrow
      rw [hindex, ← hi, (hplacedYs.getElem? hj hrow').1]

end Placed

end Yunogram.Dialogs
