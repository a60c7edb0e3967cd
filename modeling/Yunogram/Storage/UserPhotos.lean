import Mathlib
import Yunogram.Machinery.Run

/-!
# Storage/UserPhotos — the photos of a user, and where a photo of them is

`UserPhotos::List` of `storage/storage_user_photos.cpp` keeps the ids of photos that are known, the
count of all where it is known, and the photo that stays at the front, if one does.  A query looks
its photo up and answers the ids around it.

Two things go wrong.  `replace` writes the new id also where it is stored elsewhere, and then it is
stored twice.  And the answer skips before its ids what is stored before them: the value computed
from the count is written over, so that the parts of the answer add up to the count only where every
photo is stored.  `photos_listed` says that there is nothing else, for `replace` and for the photo
that stays at the front. -/

open Machinery

namespace Yunogram.Storage

/-! ## The list -/

/-- `UserPhotos::List`; the id 0 is that of no photo. -/
structure UserPhotosList where
  count : Option ℤ
  photoIds : List ℕ
  backPhotoId : ℕ

namespace UserPhotosList

/-- A list nothing was told to. -/
def init : UserPhotosList := ⟨none, [], 0⟩

/-- `removeOne`. -/
def removeOne (list : UserPhotosList) (photoId : ℕ) : UserPhotosList :=
  if photoId ∈ list.photoIds then
    { list with count := list.count.map (· - 1), photoIds := list.photoIds.erase photoId }
  else { list with count := none }

/-- `detachBack`. -/
def detachBack (list : UserPhotosList) : UserPhotosList :=
  if list.backPhotoId ≠ 0 then list.removeOne list.backPhotoId else list

/-- `attachBack`. -/
def attachBack (list : UserPhotosList) : UserPhotosList :=
  if list.backPhotoId ≠ 0 then
    { list with
      count := list.count.map (· + 1)
      photoIds := list.backPhotoId :: list.photoIds }
  else list

/-- `setBack`. -/
def setBack (list : UserPhotosList) (photoId : ℕ) : UserPhotosList :=
  if list.backPhotoId ≠ photoId then
    attachBack { list.detachBack with backPhotoId := photoId }
  else list

/-- `addNew`. -/
def addNew (list : UserPhotosList) (photoId : ℕ) : UserPhotosList :=
  if photoId ∈ list.photoIds then list
  else
    let list := list.detachBack
    attachBack { list with
      count := list.count.map (· + 1)
      photoIds := list.photoIds ++ [photoId] }

/-- The loop of `addSlice`: what is not stored goes to the front. -/
def pushMissing : List ℕ → List ℕ → List ℕ
  | stored, [] => stored
  | stored, photoId :: photoIds =>
    pushMissing (if photoId ∈ stored then stored else photoId :: stored) photoIds

/-- `addSlice`: the count is compared with the number of ids as a number without a sign. -/
def addSlice (list : UserPhotosList) (photoIds : List ℕ) (count : ℤ) : UserPhotosList :=
  let list := list.detachBack
  let stored := pushMissing list.photoIds photoIds
  attachBack { list with
    count := some (if count % 2 ^ 64 < stored.length ∨ photoIds = [] then stored.length else count)
    photoIds := stored }

/-- `removeAfter`: the photo itself is removed too. -/
def removeAfter (list : UserPhotosList) (photoId : ℕ) : UserPhotosList :=
  if photoId ∈ list.photoIds then
    let position := list.photoIds.idxOf photoId
    { list with
      count := list.count.map (· - (list.photoIds.length - position : ℕ))
      photoIds := list.photoIds.take position }
  else { list with count := none, photoIds := [] }

/-- `replace`. -/
def replace (list : UserPhotosList) (oldPhotoId newPhotoId : ℕ) : UserPhotosList :=
  { list with
    photoIds := list.photoIds.replace oldPhotoId newPhotoId
    backPhotoId := if list.backPhotoId = oldPhotoId then newPhotoId else list.backPhotoId }

/-- `UserPhotosQuery`, with the parts of its key that a list of one user looks at. -/
structure Query where
  photoId : ℕ
  back : Bool
  limitBefore : ℕ
  limitAfter : ℕ

/-- `UserPhotosResult`. -/
structure Result where
  count : Option ℤ
  skippedBefore : Option ℤ
  skippedAfter : ℤ
  photoIds : List ℕ
  deriving DecidableEq

/-- `query`: what it puts out, if anything.  The value of `skippedBefore` that is computed from the
count is replaced at once. -/
def query (list : UserPhotosList) (query : Query) : Option Result :=
  if query.photoId ∈ list.photoIds then
    let position := list.photoIds.idxOf query.photoId
    let haveBefore := position
    let haveEqualOrAfter := list.photoIds.length - position
    let before := min haveBefore query.limitBefore
    let equalOrAfter := min haveEqualOrAfter (query.limitAfter + 1)
    some {
      count := list.count
      skippedBefore := some (haveBefore - before : ℕ)
      skippedAfter := (haveEqualOrAfter - equalOrAfter : ℕ)
      photoIds := (list.photoIds.drop (position - before)).take (before + equalOrAfter) }
  else if query.back ∧ list.backPhotoId ≠ 0 then
    some ⟨some 1, none, 0, [list.backPhotoId]⟩
  else if list.count.isSome then
    some ⟨list.count, none, 0, []⟩
  else none

/-! ## Operations -/

/-- What can be asked of a list. -/
inductive Op where
  | setBack (photoId : ℕ)
  | addNew (photoId : ℕ)
  | addSlice (photoIds : List ℕ) (count : ℤ)
  | removeOne (photoId : ℕ)
  | removeAfter (photoId : ℕ)
  | replace (oldPhotoId newPhotoId : ℕ)

/-- What an operation makes of a list. -/
def apply (list : UserPhotosList) : Op → UserPhotosList
  | .setBack photoId => list.setBack photoId
  | .addNew photoId => list.addNew photoId
  | .addSlice photoIds count => list.addSlice photoIds count
  | .removeOne photoId => list.removeOne photoId
  | .removeAfter photoId => list.removeAfter photoId
  | .replace oldPhotoId newPhotoId => list.replace oldPhotoId newPhotoId

/-- The operation, as a step without effects. -/
def step (list : UserPhotosList) (op : Op) : UserPhotosList × List Empty := (list.apply op, [])

/-- **When an operation stores nothing twice.**  What is written over a stored id is not stored, and
the photo that stays at the front is not added once more behind it. -/
def Op.Fresh (list : UserPhotosList) : Op → Prop
  | .setBack photoId => photoId = list.backPhotoId ∨ photoId = 0 ∨ photoId ∉ list.photoIds
  | .addNew photoId =>
    photoId ∈ list.photoIds ∨ list.backPhotoId = 0 ∨ photoId ≠ list.backPhotoId
  | .addSlice photoIds _ => list.backPhotoId = 0 ∨ list.backPhotoId ∉ photoIds
  | .removeOne _ | .removeAfter _ => True
  | .replace oldPhotoId newPhotoId =>
    oldPhotoId ∉ list.photoIds ∨ newPhotoId = oldPhotoId ∨ newPhotoId ∉ list.photoIds

variable {list : UserPhotosList} {photoId : ℕ}

/-! ## Nothing is stored twice -/

theorem mem_pushMissing {stored photoIds : List ℕ} {x : ℕ} :
    x ∈ pushMissing stored photoIds ↔ x ∈ stored ∨ x ∈ photoIds := by
  induction photoIds generalizing stored with
  | nil => simp [pushMissing]
  | cons photoId photoIds ih =>
    rw [pushMissing, ih, List.mem_cons]
    split_ifs with hmem
    · have hstored : x = photoId → x ∈ stored := fun hx => hx ▸ hmem
      rw [← or_assoc, or_iff_left_of_imp hstored]
    · rw [List.mem_cons, or_assoc, or_left_comm]

theorem nodup_pushMissing {stored photoIds : List ℕ} (h : stored.Nodup) :
    (pushMissing stored photoIds).Nodup := by
  induction photoIds generalizing stored with
  | nil => exact h
  | cons photoId photoIds ih =>
    rw [pushMissing]
    split_ifs with hmem
    · exact ih h
    · exact ih (List.nodup_cons.mpr ⟨hmem, h⟩)

@[simp] theorem detachBack_backPhotoId : list.detachBack.backPhotoId = list.backPhotoId := by
  rw [detachBack, removeOne]
  split_ifs <;> rfl

/-- The list without the photo at the front. -/
theorem detachBack_photoIds : list.detachBack.photoIds =
    if list.backPhotoId ≠ 0 then list.photoIds.erase list.backPhotoId else list.photoIds := by
  rw [detachBack, removeOne]
  split_ifs with hback hmem
  · rfl
  · exact (List.erase_of_not_mem hmem).symm
  · rfl

theorem nodup_detachBack (h : list.photoIds.Nodup) : list.detachBack.photoIds.Nodup := by
  rw [detachBack_photoIds]
  split_ifs
  · exact h.erase _
  · exact h

theorem backPhotoId_not_mem (h : list.photoIds.Nodup) (hback : list.backPhotoId ≠ 0) :
    list.backPhotoId ∉ list.detachBack.photoIds := by
  rw [detachBack_photoIds, if_pos hback]
  exact h.not_mem_erase

/-- Attaching the photo at the front stores it twice exactly where it is stored. -/
theorem nodup_attachBack (h : list.photoIds.Nodup) :
    list.attachBack.photoIds.Nodup ↔ list.backPhotoId = 0 ∨ list.backPhotoId ∉ list.photoIds := by
  rw [attachBack]
  split_ifs with hback
  · rw [List.nodup_cons, and_iff_left h, or_iff_right hback]
  · simp [h, not_not.mp hback]

/-- What writing over an id leaves, up to the order. -/
theorem perm_replace {l : List ℕ} {a b : ℕ} (h : a ∈ l) :
    (l.replace a b).Perm (b :: l.erase a) := by
  induction l with
  | nil => exact nomatch h
  | cons x l ih =>
    by_cases hx : x = a
    · subst hx
      rw [List.replace_cons_self, List.erase_cons_head]
    · have hmem : a ∈ l := (List.mem_cons.mp h).resolve_left (Ne.symm hx)
      have hbeq : (a == x) = false := by simpa using Ne.symm hx
      rw [List.replace_cons, hbeq, List.erase_cons_tail (by simpa using hx)]
      exact ((ih hmem).cons x).trans (List.Perm.swap b x _)

/-- Writing over an id stores the new one twice exactly where it was stored elsewhere. -/
theorem nodup_replace {l : List ℕ} {a b : ℕ} (h : l.Nodup) :
    (l.replace a b).Nodup ↔ a ∉ l ∨ b = a ∨ b ∉ l := by
  by_cases ha : a ∈ l
  · rw [(perm_replace ha).nodup_iff, List.nodup_cons, and_iff_left (h.erase a), h.mem_erase_iff,
      or_iff_right (not_not.mpr ha), not_and_or, ne_eq, not_not]
  · simp [h, ha]

/-- **An operation stores something twice exactly where it is not fresh.** -/
theorem nodup_apply (h : list.photoIds.Nodup) (op : Op) :
    (list.apply op).photoIds.Nodup ↔ op.Fresh list := by
  have hdetached := nodup_detachBack h
  cases op with
  | setBack photoId =>
    rw [apply, setBack, Op.Fresh]
    split_ifs with hset
    · have hback :
          ({ list.detachBack with backPhotoId := photoId } : UserPhotosList).photoIds.Nodup :=
        hdetached
      refine (nodup_attachBack hback).trans ?_
      show photoId = 0 ∨ photoId ∉ list.detachBack.photoIds ↔ _
      rw [or_iff_right (Ne.symm hset), detachBack_photoIds]
      split_ifs
      · rw [List.mem_erase_of_ne (Ne.symm hset)]
      · rfl
    · exact iff_of_true h (.inl (not_not.mp hset).symm)
  | addNew photoId =>
    rw [apply, addNew, Op.Fresh]
    split_ifs with hmem
    · exact iff_of_true h (.inl hmem)
    · have hnot : photoId ∉ list.detachBack.photoIds := by
        rw [detachBack_photoIds]
        split_ifs
        · exact fun hx => hmem (List.mem_of_mem_erase hx)
        · exact hmem
      rw [or_iff_right hmem]
      refine (nodup_attachBack ?_).trans ?_
      rotate_left
      · show list.detachBack.backPhotoId = 0 ∨ _ ∉ list.detachBack.photoIds ++ [photoId] ↔ _
        rw [detachBack_backPhotoId]
        refine or_congr_right' fun hback => ?_
        rw [List.mem_append, List.mem_singleton, not_or,
          and_iff_right (backPhotoId_not_mem h hback)]
        exact ne_comm
      · refine List.nodup_append.mpr ⟨hdetached, List.nodup_singleton _, fun a ha b hb hab => ?_⟩
        rw [hab, List.mem_singleton.mp hb] at ha
        exact hnot ha
  | addSlice photoIds count =>
    rw [apply, addSlice, Op.Fresh]
    refine (nodup_attachBack (nodup_pushMissing hdetached)).trans ?_
    show list.detachBack.backPhotoId = 0 ∨ _ ∉ pushMissing _ _ ↔ _
    rw [detachBack_backPhotoId, mem_pushMissing, not_or]
    exact or_congr_right' fun hback => and_iff_right (backPhotoId_not_mem h hback)
  | removeOne photoId =>
    rw [apply, removeOne, Op.Fresh]
    split_ifs
    · exact iff_of_true (h.erase _) trivial
    · exact iff_of_true h trivial
  | removeAfter photoId =>
    rw [apply, removeAfter, Op.Fresh]
    split_ifs
    · exact iff_of_true (h.sublist (List.take_sublist _ _)) trivial
    · exact iff_of_true List.nodup_nil trivial
  | replace oldPhotoId newPhotoId => exact nodup_replace h

/-! ## What a query answers -/

/-- The answer is a block of the stored ids with the photo in it, what it skips counted. -/
structure Around (stored : List ℕ) (photoId : ℕ) (result : Result) : Prop where
  block : ∃ before after, stored = before ++ result.photoIds ++ after ∧
    result.skippedBefore = some before.length ∧ result.skippedAfter = after.length
  mem : photoId ∈ result.photoIds

/-- **A photo that is stored is answered with a block around it.** -/
theorem query_around {query : Query} (h : query.photoId ∈ list.photoIds) :
    ∃ result, list.query query = some result ∧ Around list.photoIds query.photoId result := by
  refine ⟨_, if_pos h, ?_⟩
  have hposition := List.idxOf_lt_length_of_mem h
  have hget := List.getElem_idxOf hposition
  set position := list.photoIds.idxOf query.photoId
  set before := min position query.limitBefore with hbefore
  set equalOrAfter := min (list.photoIds.length - position) (query.limitAfter + 1) with hafter
  refine ⟨⟨list.photoIds.take (position - before),
    list.photoIds.drop (position + equalOrAfter), ?_, ?_, ?_⟩, ?_⟩
  · have hsum : position + equalOrAfter = (position - before) + (before + equalOrAfter) := by omega
    rw [hsum, ← List.drop_drop, List.append_assoc, List.take_append_drop, List.take_append_drop]
  · rw [List.length_take, min_eq_left (by omega)]
    rfl
  · rw [List.length_drop]
    exact congrArg Nat.cast (by omega)
  · refine List.mem_iff_getElem.mpr ⟨before, ?_, ?_⟩
    · rw [List.length_take, List.length_drop]
      omega
    · have hindex : position - before + before = position :=
        Nat.sub_add_cancel (min_le_left position query.limitBefore)
      rw [List.getElem_take, List.getElem_drop]
      simp only [hindex]
      exact hget

/-- What a query answers adds up to the count, and is a block of the stored ids with the photo in it
where that is stored. -/
def AddsUp (list : UserPhotosList) (query : Query) : Prop :=
  ∀ n, list.count = some n → ∃ result before, list.query query = some result ∧
    result.skippedBefore = some before ∧
    before + result.photoIds.length + result.skippedAfter = n ∧
    result.photoIds <:+: list.photoIds ∧
    (query.photoId ∈ list.photoIds → query.photoId ∈ result.photoIds)

/-- **The answer adds up exactly where the photo and all the others are stored.** -/
theorem addsUp_iff {query : Query} {n : ℤ} (hn : list.count = some n) :
    list.AddsUp query ↔ query.photoId ∈ list.photoIds ∧ n = list.photoIds.length := by
  by_cases hmem : query.photoId ∈ list.photoIds
  · obtain ⟨result, hresult, ⟨before, after, hblock, hbefore, hafter⟩, hphoto⟩ :=
      query_around hmem
    have hlength : (list.photoIds.length : ℤ) =
        before.length + result.photoIds.length + after.length := by
      rw [hblock, List.length_append, List.length_append]
      omega
    rw [and_iff_right hmem]
    constructor
    · intro hadds
      obtain ⟨result', before', hresult', hbefore', hsum, -⟩ := hadds n hn
      obtain rfl := Option.some.inj (hresult.symm.trans hresult')
      obtain rfl := Option.some.inj (hbefore.symm.trans hbefore')
      rw [hlength, ← hafter]
      exact hsum.symm
    · rintro rfl m hm
      obtain rfl := Option.some.inj (hn.symm.trans hm)
      refine ⟨result, before.length, hresult, hbefore, ?_, ⟨before, after, hblock.symm⟩,
        fun _ => hphoto⟩
      rw [hlength, hafter]
  · refine iff_of_false (fun hadds => ?_) fun h => hmem h.1
    obtain ⟨result, before, hresult, hbefore, -⟩ := hadds n hn
    rw [UserPhotosList.query, if_neg hmem] at hresult
    split_ifs at hresult
    · obtain rfl := Option.some.inj hresult
      exact nomatch hbefore
    · obtain rfl := Option.some.inj hresult
      exact nomatch hbefore

/-! ## Runs -/

/-- Fresh operations store nothing twice. -/
theorem nodup_run {ops : List Op} (h : Guarded step (fun _ list op => op.Fresh list) init ops) :
    (run step init ops).1.photoIds.Nodup :=
  run_induction (fun _ list _ => list.photoIds.Nodup) List.nodup_nil
    (fun _ _ _ op hnodup hop => (nodup_apply hnodup op).mpr hop) h

/-- **Which photos are listed, and what a query says of them.**  Fresh operations store no id twice.
The answer adds up to a known count exactly where the photo asked for is stored and the count is the
number of stored ids; a photo that is stored is always answered with a block of them around it. -/
theorem photos_listed {ops : List Op}
    (h : Guarded step (fun _ list op => op.Fresh list) init ops) :
    (run step init ops).1.photoIds.Nodup ∧
      (∀ op, ((run step init ops).1.apply op).photoIds.Nodup ↔ op.Fresh (run step init ops).1) ∧
      ∀ query n, (run step init ops).1.count = some n →
        ((run step init ops).1.AddsUp query ↔
          query.photoId ∈ (run step init ops).1.photoIds ∧
            n = (run step init ops).1.photoIds.length) ∧
        (query.photoId ∈ (run step init ops).1.photoIds →
          ∃ result, (run step init ops).1.query query = some result ∧
            Around (run step init ops).1.photoIds query.photoId result) :=
  ⟨nodup_run h, nodup_apply (nodup_run h), fun _ _ hn => ⟨addsUp_iff hn, query_around⟩⟩

/-- Two photos, of which one makes room for a third. -/
theorem photos_listed_replaced :
    (run step init [.addSlice [1, 2] 2, .replace 1 3]).1.photoIds.Nodup ∧
      (run step init [.addSlice [1, 2] 2, .replace 1 3]).1.AddsUp ⟨3, false, 10, 10⟩ := by
  have hfirst : Guarded step (fun _ list op => op.Fresh list) init [.addSlice [1, 2] 2] :=
    Guarded.nil.concat (.inl rfl)
  have hboth : Guarded step (fun _ list op => op.Fresh list) init
      [.addSlice [1, 2] 2, .replace 1 3] :=
    hfirst.concat (show _ ∨ _ ∨ _ from .inr (.inr (by decide +kernel)))
  obtain ⟨hnodup, -, hquery⟩ := photos_listed hboth
  exact ⟨hnodup, (hquery ⟨3, false, 10, 10⟩ 2 (by decide +kernel)).1.mpr
    ⟨by decide +kernel, by decide +kernel⟩⟩

/-- **A photo stored twice, and an answer short of the count.** -/
theorem replaced_twice_and_short :
    ¬ (run step init [.addNew 1, .addNew 2, .replace 1 2]).1.photoIds.Nodup ∧
      ¬ (run step init [.addSlice [1] 5]).1.AddsUp ⟨1, false, 10, 10⟩ :=
  ⟨by decide +kernel, fun hadds => absurd ((addsUp_iff rfl).mp hadds).2 (by decide +kernel)⟩

end UserPhotosList

end Yunogram.Storage
