import Mathlib
import Yunogram.Machinery.Run
import Yunogram.Media.CacheEntry

/-!
# Storage/StreamedFileDownloader — a file that is saved by the parts a reader gives

The parts of a file are asked for in their order, a number of them ahead, and saved as the reader
gives them: in any order, more than once, and also those that were not asked for.

`parts_saved`: whatever is given and whatever of it can be written, the parts that are asked for and
not there are counted right, no part is asked for or written that the file has not, none is written
twice, and the file is finalized once all of its parts are written, and then only.
-/

namespace Yunogram.Storage

open Machinery Media.Streaming

/-- `kRequestPartsCount`. -/
def kRequestPartsCount : ℤ := 32

/-- `StreamedFileDownloader`, with what it has of `FileLoader`; the size is the one of the reader.
-/
structure StreamedFileDownloader where
  size : ℕ
  partIsSaved : List Bool
  partsSaved : ℕ
  nextPartIndex : ℕ
  partsRequested : ℤ
  finished : Bool
  cancelled : Bool
  deriving DecidableEq

namespace StreamedFileDownloader

/-- What is done by a downloader. -/
inductive Effect
  | load (offset : ℕ)
  | write (offset : ℕ) (bytes : Bytes)
  | done (offset : ℕ)
  | finalize
  | cancel
  deriving DecidableEq

/-- What a downloader may fail by: what it expects, and what it asserts. -/
inductive Fault
  | expects
  | assertion
  deriving DecidableEq

/-- The number of parts of a file. -/
def partsCountOf (size : ℕ) : ℕ := (size + kPartSize - 1) / kPartSize

/-- The constructor of `StreamedFileDownloader`. -/
def new (size : ℕ) : StreamedFileDownloader where
  size
  partIsSaved := List.replicate (partsCountOf size) false
  partsSaved := 0
  nextPartIndex := 0
  partsRequested := 0
  finished := false
  cancelled := false

variable (s : StreamedFileDownloader)

/-- `_partsCount`. -/
def partsCount : ℕ := partsCountOf s.size

/-- `StreamedFileDownloader::requestPart`. -/
def requestPart : StreamedFileDownloader × List Effect :=
  let index := s.nextPartIndex + (s.partIsSaved.drop s.nextPartIndex).findIdx (· = false)
  if index = s.partIsSaved.length then ({ s with nextPartIndex := s.partsCount }, [])
  else ({ s with nextPartIndex := index + 1, partsRequested := s.partsRequested + 1 },
    [.load (index * kPartSize)])

/-- The loop of `StreamedFileDownloader::requestParts`. -/
def requestLoop : ℕ → StreamedFileDownloader → StreamedFileDownloader × List Effect
  | 0, s => (s, [])
  | rounds + 1, s =>
    if ¬s.finished ∧ s.nextPartIndex < s.partsCount ∧ s.partsRequested < kRequestPartsCount then
      let (s, effects) := s.requestPart
      let (s, more) := requestLoop rounds s
      (s, effects ++ more)
    else (s, [])

/-- `StreamedFileDownloader::requestParts`: each round asks for a part behind all before. -/
def requestParts : StreamedFileDownloader × List Effect :=
  requestLoop (s.partsCount - s.nextPartIndex) s

/-- `FileLoader::cancel`. -/
def cancel : StreamedFileDownloader :=
  { s with partsRequested := 0, nextPartIndex := 0, cancelled := true, finished := true }

/-- A part is counted as saved. -/
def withSaved (index : ℕ) : StreamedFileDownloader :=
  { s with
    partIsSaved := s.partIsSaved.set index true
    partsSaved := s.partsSaved + 1
    partsRequested :=
      if index < s.nextPartIndex then s.partsRequested - 1 else s.partsRequested }

/-- `StreamedFileDownloader::savePart`, of a part that can be written or not, and of a result that
can be finalized or not. -/
def savePart (offset : ℕ) (bytes : Bytes) (written finalized : Bool) :
    Except Fault (StreamedFileDownloader × List Effect) :=
  if ¬(offset < s.size ∧ offset % kPartSize = 0) then .error .expects
  else if s.finished ∨ s.cancelled then .ok (s, [])
  else
    let index := offset / kPartSize
    match s.partIsSaved[index]? with
    | none => .error .assertion
    | some true => .ok (s, [])
    | some false =>
      let s := s.withSaved index
      if ¬written then .ok (s.cancel, [.cancel])
      else if s.partsSaved = s.partsCount then
        .ok (if finalized then { s with finished := true } else s.cancel,
          [.write offset bytes, .done offset, .finalize])
      else
        let (s, loads) := s.requestParts
        .ok (s, [.write offset bytes, .done offset] ++ loads)

/-- What happens to a downloader. -/
inductive Step
  | finishWithBytes
  | startLoading
  | part (offset : ℕ) (bytes : Bytes) (written finalized : Bool)
  | cancel

/-- It happens; a downloader that has finished is not started, and what the cache has as a whole
finishes it. -/
def step (s : StreamedFileDownloader) : Step → Except Fault (StreamedFileDownloader × List Effect)
  | .finishWithBytes => .ok ({ s with finished := true }, [])
  | .startLoading => .ok (if s.finished then (s, []) else s.requestParts)
  | .part offset bytes written finalized => s.savePart offset bytes written finalized
  | .cancel => .ok (s.cancel, [.cancel])

/-- **A part that a reader gives**: at a whole number of parts in the file. -/
def Given (size : ℕ) : Step → Prop
  | .part offset _ _ _ => offset < size ∧ offset % kPartSize = 0
  | _ => True

/-! ## What was done -/

/-- Where parts were written. -/
def writtenAt : List Effect → List ℕ :=
  List.filterMap fun
    | .write offset _ => some offset
    | _ => none

/-- Which parts were asked for. -/
def loadedAt : List Effect → List ℕ :=
  List.filterMap fun
    | .load offset => some offset
    | _ => none

/-- The parts below the next one that are not saved. -/
def missingBelow : ℕ := (s.partIsSaved.take s.nextPartIndex).count false

/-- Everything is written. -/
def AllWritten (size : ℕ) (effects : List Effect) : Prop :=
  ∀ index < partsCountOf size, index * kPartSize ∈ writtenAt effects

/-- **What is always so of the counters.** -/
structure Counters (size : ℕ) (s : StreamedFileDownloader) : Prop where
  size_eq : s.size = size
  length : s.partIsSaved.length = partsCountOf size
  next_le : s.nextPartIndex ≤ partsCountOf size
  requested : s.partsRequested = s.missingBelow
  saved : s.partsSaved = s.partIsSaved.count true
  cancelled : s.cancelled = true → s.finished = true

/-- **What is always so of what was done**, with these parts saved. -/
structure History (size : ℕ) (saved : List Bool) (finished : Bool) (effects : List Effect) :
    Prop where
  loaded : ∀ offset ∈ loadedAt effects, ∃ index < partsCountOf size, offset = index * kPartSize
  once : (writtenAt effects).Nodup
  written : ∀ offset ∈ writtenAt effects, ∃ index, offset = index * kPartSize ∧
    saved[index]? = some true
  unfinished : finished = false → (∃ index : ℕ, saved[index]? = some false) ∧
    effects.count .finalize = 0 ∧
    ∀ index : ℕ, saved[index]? = some true → index * kPartSize ∈ writtenAt effects
  finalized : finished = true →
    AllWritten size effects ∧ effects.count .finalize = 1 ∨
      ¬AllWritten size effects ∧ effects.count .finalize = 0

/-! ## Lists of saved parts -/

section

variable {saved : List Bool} {index n : ℕ}

/-- Up to the first part that is not saved, one is not. -/
theorem count_take_findIdx (saved : List Bool) :
    if saved.findIdx (· = false) = saved.length then saved.count false = 0
    else (saved.take (saved.findIdx (· = false) + 1)).count false = 1 := by
  induction saved with
  | nil => rfl
  | cons part saved ih =>
    cases part with
    | false => simp [List.findIdx_cons]
    | true => simpa [List.findIdx_cons] using ih

theorem count_set_true (h : saved[index]? = some false) :
    (saved.set index true).count true = saved.count true + 1 := by
  obtain ⟨hlt, hget⟩ := List.getElem?_eq_some_iff.mp h
  rw [List.count_set hlt, hget]
  rfl

theorem count_take_set (h : saved[index]? = some false) :
    (((saved.set index true).take n).count false : ℤ)
      = (saved.take n).count false - if index < n then 1 else 0 := by
  obtain ⟨hlt, hget⟩ := List.getElem?_eq_some_iff.mp h
  rw [List.take_set]
  split_ifs with hn
  · have hlt' : index < (saved.take n).length := by
      rw [List.length_take]
      exact lt_min hn hlt
    have hmem : 0 < (saved.take n).count false := by
      refine List.count_pos_iff.mpr (List.mem_iff_getElem.mpr ⟨index, hlt', ?_⟩)
      rw [List.getElem_take, hget]
    rw [List.count_set hlt', List.getElem_take, hget]
    simp only [beq_self_eq_true, if_true, Bool.true_beq, Bool.false_eq_true, if_false]
    omega
  · rw [List.set_eq_of_length_le (by rw [List.length_take]; omega)]
    omega

theorem getElem?_set_true (h : saved[index]? = some false) (i : ℕ) (b : Bool) :
    (saved.set index true)[i]? = some b ↔
      i = index ∧ b = true ∨ i ≠ index ∧ saved[i]? = some b := by
  obtain ⟨hlt, -⟩ := List.getElem?_eq_some_iff.mp h
  rw [List.getElem?_set]
  split_ifs with hi
  · simp [hi, eq_comm]
  · simp [Ne.symm hi]

end

/-! ## What each step keeps -/

variable {size offset : ℕ} {s} {saved : List Bool} {finished : Bool} {effects more : List Effect}
  {bytes : Bytes}

@[simp] theorem writtenAt_append (xs ys : List Effect) :
    writtenAt (xs ++ ys) = writtenAt xs ++ writtenAt ys := List.filterMap_append

@[simp] theorem loadedAt_append (xs ys : List Effect) :
    loadedAt (xs ++ ys) = loadedAt xs ++ loadedAt ys := List.filterMap_append

theorem Counters.partsCount_eq (h : Counters size s) : s.partsCount = partsCountOf size := by
  rw [partsCount, h.size_eq]

/-- **The next part that is not saved is asked for**, if there is one. -/
theorem Counters.requestPart (h : Counters size s) :
    Counters size s.requestPart.1 ∧ s.requestPart.1.partIsSaved = s.partIsSaved ∧
      s.requestPart.1.finished = s.finished ∧
      ∀ effect ∈ s.requestPart.2,
        ∃ index < partsCountOf size, effect = .load (index * kPartSize) := by
  have hcount := count_take_findIdx (s.partIsSaved.drop s.nextPartIndex)
  have hlength := h.length
  have hnext := h.next_le
  have hle : (s.partIsSaved.drop s.nextPartIndex).findIdx (· = false)
      ≤ (s.partIsSaved.drop s.nextPartIndex).length := List.findIdx_le_length
  rw [List.length_drop] at hcount hle
  rw [StreamedFileDownloader.requestPart]
  generalize (s.partIsSaved.drop s.nextPartIndex).findIdx (· = false) = k at hcount hle ⊢
  split_ifs with hend
  · rw [if_pos (by omega)] at hcount
    refine ⟨⟨h.size_eq, h.length, h.partsCount_eq.le, ?_, h.saved, h.cancelled⟩, rfl, rfl,
      fun effect hmem => absurd hmem List.not_mem_nil⟩
    rw [h.requested, missingBelow, missingBelow, h.partsCount_eq, ← hlength, List.take_length]
    conv_rhs => rw [← List.take_append_drop s.nextPartIndex s.partIsSaved]
    rw [List.count_append, hcount, Nat.add_zero]
  · rw [if_neg (by omega)] at hcount
    refine ⟨⟨h.size_eq, h.length, by dsimp only; omega, ?_, h.saved, h.cancelled⟩, rfl, rfl, ?_⟩
    · rw [h.requested, missingBelow, missingBelow]
      dsimp only
      rw [Nat.add_assoc, List.take_add, List.count_append, hcount]
      rfl
    · intro effect hmem
      exact ⟨_, by omega, List.mem_singleton.mp hmem⟩

theorem Counters.requestLoop (rounds : ℕ) {s} (h : Counters size s) :
    Counters size (requestLoop rounds s).1 ∧ (requestLoop rounds s).1.partIsSaved = s.partIsSaved ∧
      (requestLoop rounds s).1.finished = s.finished ∧
      ∀ effect ∈ (requestLoop rounds s).2,
        ∃ index < partsCountOf size, effect = .load (index * kPartSize) := by
  induction rounds generalizing s with
  | zero => exact ⟨h, rfl, rfl, fun _ hmem => absurd hmem List.not_mem_nil⟩
  | succ rounds ih =>
    rw [StreamedFileDownloader.requestLoop]
    split_ifs
    · obtain ⟨h₁, hsaved₁, hfinished₁, heffects₁⟩ := h.requestPart
      obtain ⟨h₂, hsaved₂, hfinished₂, heffects₂⟩ := ih h₁
      refine ⟨h₂, hsaved₂.trans hsaved₁, hfinished₂.trans hfinished₁, fun effect hmem => ?_⟩
      exact (List.mem_append.mp hmem).elim (heffects₁ effect) (heffects₂ effect)
    · exact ⟨h, rfl, rfl, fun _ hmem => absurd hmem List.not_mem_nil⟩

/-- Nothing is written or finalized. -/
def Quiet (size : ℕ) (effect : Effect) : Prop :=
  effect = .cancel ∨ ∃ index < partsCountOf size, effect = .load (index * kPartSize)

/-- **What writes nothing and finalizes nothing leaves what was done.** -/
theorem History.quiet (h : History size saved finished effects)
    (hmore : ∀ effect ∈ more, Quiet size effect) :
    History size saved finished (effects ++ more) := by
  have hwritten : writtenAt (effects ++ more) = writtenAt effects := by
    rw [writtenAt_append, List.append_right_eq_self]
    refine List.filterMap_eq_nil_iff.mpr fun effect hmem => ?_
    rcases hmore effect hmem with rfl | ⟨index, -, rfl⟩
    · rfl
    · rfl
  have hcount : (effects ++ more).count .finalize = effects.count .finalize := by
    have hnone : more.count .finalize = 0 := by
      refine List.count_eq_zero.mpr fun hmem => ?_
      rcases hmore _ hmem with heq | ⟨index, -, heq⟩
      · exact nomatch heq
      · exact nomatch heq
    rw [List.count_append, hnone, Nat.add_zero]
  refine ⟨fun offset hmem => ?_, hwritten ▸ h.once, hwritten ▸ h.written, ?_, ?_⟩
  · rw [loadedAt_append] at hmem
    rcases List.mem_append.mp hmem with hmem | hmem
    · exact h.loaded offset hmem
    · obtain ⟨effect, heffect, hsome⟩ := List.mem_filterMap.mp hmem
      rcases hmore effect heffect with rfl | ⟨index, hlt, rfl⟩
      · exact nomatch hsome
      · exact ⟨index, hlt, (Option.some.inj hsome).symm⟩
  · rw [hwritten, hcount]
    exact h.unfinished
  · rw [AllWritten, hwritten, hcount]
    exact h.finalized

theorem kPartSize_pos : 0 < kPartSize := by decide

/-- A part that is not saved is not written. -/
theorem History.notMem (h : History size saved finished effects) {index : ℕ}
    (hsaved : saved[index]? = some false) : index * kPartSize ∉ writtenAt effects := by
  intro hmem
  obtain ⟨other, heq, htrue⟩ := h.written _ hmem
  obtain rfl := Nat.eq_of_mul_eq_mul_right kPartSize_pos heq
  exact absurd (hsaved.symm.trans htrue) (by simp)

/-- **A downloader that stops before all is saved** has not written all of the file. -/
theorem History.stop (h : History size saved false effects)
    (hlength : saved.length = partsCountOf size) : History size saved true effects := by
  obtain ⟨⟨index, hfalse⟩, hnone, -⟩ := h.unfinished rfl
  refine ⟨h.loaded, h.once, h.written, (fun hnot => nomatch hnot), fun _ => Or.inr ⟨?_, hnone⟩⟩
  intro hall
  obtain ⟨hlt, -⟩ := List.getElem?_eq_some_iff.mp hfalse
  exact h.notMem hfalse (hall index (hlength ▸ hlt))

section

variable {index : ℕ} (h : History size saved false effects) (hsaved : saved[index]? = some false)

include h hsaved

/-- A part that is saved, but could not be written, stops the downloader. -/
theorem History.unwritten (hlength : saved.length = partsCountOf size) :
    History size (saved.set index true) true effects := by
  have hstop := h.stop hlength
  refine ⟨h.loaded, h.once, fun offset hmem => ?_, (fun hnot => nomatch hnot), hstop.finalized⟩
  obtain ⟨other, heq, htrue⟩ := h.written offset hmem
  refine ⟨other, heq, (getElem?_set_true hsaved other true).mpr ?_⟩
  by_cases hother : other = index
  · exact Or.inl ⟨hother, rfl⟩
  · exact Or.inr ⟨hother, htrue⟩

/-- What was written after a part was. -/
theorem writtenAt_save (bytes : Bytes) : ((writtenAt (effects ++
      [.write (index * kPartSize) bytes, .done (index * kPartSize)])).Nodup ∧
    ∀ i : ℕ, i * kPartSize ∈ writtenAt (effects ++
        [.write (index * kPartSize) bytes, .done (index * kPartSize)]) ↔
      (saved.set index true)[i]? = some true) ∧
    ∀ offset ∈ writtenAt (effects ++
        [.write (index * kPartSize) bytes, .done (index * kPartSize)]),
      ∃ i, offset = i * kPartSize := by
  obtain ⟨-, -, hwritten⟩ := h.unfinished rfl
  have happend : writtenAt (effects ++
      [.write (index * kPartSize) bytes, .done (index * kPartSize)])
      = writtenAt effects ++ [index * kPartSize] := writtenAt_append _ _
  rw [happend]
  refine ⟨⟨?_, fun i => ?_⟩, fun offset hmem => ?_⟩
  · exact List.nodup_append.mpr ⟨h.once, List.nodup_singleton _, fun a ha b hb heq =>
      h.notMem hsaved (List.mem_singleton.mp hb ▸ heq ▸ ha)⟩
  · rw [List.mem_append, List.mem_singleton, getElem?_set_true hsaved]
    by_cases hi : i = index
    · exact iff_of_true (Or.inr (hi ▸ rfl)) (Or.inl ⟨hi, rfl⟩)
    · have hne : i * kPartSize ≠ index * kPartSize := fun heq =>
        hi (Nat.eq_of_mul_eq_mul_right kPartSize_pos heq)
      simp only [hne, or_false, hi, false_and, not_false_eq_true, true_and, false_or, ne_eq]
      refine ⟨fun hmem => ?_, hwritten i⟩
      obtain ⟨other, heq, htrue⟩ := h.written _ hmem
      obtain rfl := Nat.eq_of_mul_eq_mul_right kPartSize_pos heq
      exact htrue
  · rcases List.mem_append.mp hmem with hmem | hmem
    · obtain ⟨other, heq, -⟩ := h.written offset hmem
      exact ⟨other, heq⟩
    · exact ⟨index, List.mem_singleton.mp hmem⟩

/-- **A part that is written, with others still missing.** -/
theorem History.save (bytes : Bytes) (hmissing : ∃ i : ℕ, (saved.set index true)[i]? = some false) :
    History size (saved.set index true) false (effects ++
      [.write (index * kPartSize) bytes, .done (index * kPartSize)]) := by
  obtain ⟨⟨hnodup, hiff⟩, hform⟩ := writtenAt_save h hsaved bytes
  obtain ⟨-, hnone, -⟩ := h.unfinished rfl
  refine ⟨fun offset hmem => ?_, hnodup, fun offset hmem => ?_, fun _ => ⟨hmissing, ?_, ?_⟩,
    fun hnot => nomatch hnot⟩
  · rw [loadedAt_append] at hmem
    exact h.loaded offset ((List.mem_append.mp hmem).resolve_right List.not_mem_nil)
  · obtain ⟨i, rfl⟩ := hform offset hmem
    exact ⟨i, rfl, (hiff i).mp hmem⟩
  · rw [List.count_append, hnone]
    rfl
  · exact fun i htrue => (hiff i).mpr htrue

/-- **The last part that is written**, with which the file is finalized. -/
theorem History.complete (bytes : Bytes)
    (hall : ∀ i < partsCountOf size, (saved.set index true)[i]? = some true) :
    History size (saved.set index true) true (effects ++
      [.write (index * kPartSize) bytes, .done (index * kPartSize), .finalize]) := by
  obtain ⟨⟨hnodup, hiff⟩, hform⟩ := writtenAt_save h hsaved bytes
  obtain ⟨-, hnone, -⟩ := h.unfinished rfl
  have hwritten : writtenAt (effects ++
        [.write (index * kPartSize) bytes, .done (index * kPartSize), .finalize])
      = writtenAt (effects ++
        [.write (index * kPartSize) bytes, .done (index * kPartSize)]) := by
    rw [writtenAt_append, writtenAt_append]
    rfl
  refine ⟨fun offset hmem => ?_, hwritten ▸ hnodup, fun offset hmem => ?_,
    (fun hnot => nomatch hnot), fun _ => Or.inl ⟨fun i hi => ?_, ?_⟩⟩
  · rw [loadedAt_append] at hmem
    exact h.loaded offset ((List.mem_append.mp hmem).resolve_right List.not_mem_nil)
  · rw [hwritten] at hmem
    obtain ⟨i, rfl⟩ := hform offset hmem
    exact ⟨i, rfl, (hiff i).mp hmem⟩
  · rw [hwritten]
    exact (hiff i).mpr (hall i hi)
  · rw [List.count_append, hnone]
    rfl

end

/-- **A part is saved in the counters.** -/
theorem Counters.save (h : Counters size s) {index : ℕ}
    (hsaved : s.partIsSaved[index]? = some false) :
    Counters size (s.withSaved index) where
  size_eq := h.size_eq
  length := by rw [withSaved, List.length_set, h.length]
  next_le := h.next_le
  requested := by
    rw [missingBelow, withSaved]
    dsimp only
    rw [count_take_set hsaved, h.requested, missingBelow]
    split_ifs
    · rfl
    · rw [sub_zero]
  saved := by rw [withSaved, count_set_true hsaved, h.saved]
  cancelled := h.cancelled

theorem Counters.cancel (h : Counters size s) : Counters size s.cancel where
  size_eq := h.size_eq
  length := h.length
  next_le := Nat.zero_le _
  requested := rfl
  saved := h.saved
  cancelled _ := rfl

/-- What is kept: the counters, and what was done. -/
def Kept (size : ℕ) (s : StreamedFileDownloader) (effects : List Effect) : Prop :=
  Counters size s ∧ History size s.partIsSaved s.finished effects

/-- A downloader that is stopped. -/
theorem Kept.stopped (h : Kept size s effects) : History size s.partIsSaved true effects := by
  cases hfinished : s.finished with
  | false => exact (hfinished ▸ h.2).stop h.1.length
  | true => exact hfinished ▸ h.2

theorem Kept.requestParts (h : Kept size s effects) :
    Kept size s.requestParts.1 (effects ++ s.requestParts.2) ∧
      ∀ effect ∈ s.requestParts.2, Quiet size effect := by
  obtain ⟨hcounters, hsaved, hfinished, heffects⟩ :=
    h.1.requestLoop (s.partsCount - s.nextPartIndex)
  have hquiet : ∀ effect ∈ s.requestParts.2, Quiet size effect := fun effect hmem =>
    Or.inr (heffects effect hmem)
  refine ⟨⟨hcounters, ?_⟩, hquiet⟩
  rw [StreamedFileDownloader.requestParts, hsaved, hfinished]
  exact h.2.quiet hquiet

/-- What is written of a step is a part that was given with it. -/
def WritesOf (next : Step) (more : List Effect) : Prop :=
  ∀ offset bytes, .write offset bytes ∈ more →
    ∃ written finalized, next = .part offset bytes written finalized

theorem WritesOf.quiet {next : Step} (h : ∀ effect ∈ more, Quiet size effect) :
    WritesOf next more := by
  intro offset bytes hmem
  rcases h _ hmem with heq | ⟨_, -, heq⟩
  · exact nomatch heq
  · exact nomatch heq

theorem WritesOf.nil {next : Step} : WritesOf next [] := fun _ _ hmem =>
  absurd hmem List.not_mem_nil

theorem WritesOf.onward {written finalized : Bool} (h : ∀ effect ∈ more, Quiet size effect) :
    WritesOf (.part offset bytes written finalized)
      ([.write offset bytes, .done offset] ++ more) := by
  intro offset' bytes' hmem
  rcases List.mem_append.mp hmem with hmem | hmem
  · rcases List.mem_pair.mp hmem with heq | heq
    · obtain ⟨rfl, rfl⟩ := Effect.write.inj heq
      exact ⟨written, finalized, rfl⟩
    · exact nomatch heq
  · exact WritesOf.quiet h offset' bytes' hmem

theorem WritesOf.last {written finalized : Bool} :
    WritesOf (.part offset bytes written finalized)
      [.write offset bytes, .done offset, .finalize] := by
  intro offset' bytes' hmem
  rcases List.mem_cons.mp hmem with heq | hmem
  · obtain ⟨rfl, rfl⟩ := Effect.write.inj heq
    exact ⟨written, finalized, rfl⟩
  · rcases List.mem_pair.mp hmem with heq | heq
    · exact nomatch heq
    · exact nomatch heq

/-- All parts are saved when as many were counted. -/
theorem Counters.savedAll (h : Counters size s) :
    s.partsSaved = s.partsCount ↔ ∀ i < partsCountOf size, s.partIsSaved[i]? = some true := by
  rw [h.saved, h.partsCount_eq, ← h.length, List.count_eq_length]
  refine ⟨fun hall i hi => ?_, fun hall part hmem => ?_⟩
  · rw [List.getElem?_eq_getElem hi]
    exact congrArg some (hall _ (List.getElem_mem hi)).symm
  · obtain ⟨i, hi, rfl⟩ := List.mem_iff_getElem.mp hmem
    have htrue := hall i hi
    rw [List.getElem?_eq_getElem hi] at htrue
    exact (Option.some.inj htrue).symm

theorem Counters.missing (h : Counters size s) (hnot : s.partsSaved ≠ s.partsCount) :
    ∃ i : ℕ, s.partIsSaved[i]? = some false := by
  rw [Ne, h.savedAll] at hnot
  push Not at hnot
  obtain ⟨i, hi, hne⟩ := hnot
  rw [List.getElem?_eq_getElem (h.length.symm ▸ hi)] at hne
  refine ⟨i, ?_⟩
  rw [List.getElem?_eq_getElem (h.length.symm ▸ hi)]
  exact congrArg some (Bool.eq_false_iff.mpr fun htrue => hne (congrArg some htrue))

/-- **A part that the reader gives does not fail, and is saved once.** -/
theorem Kept.savePart (h : Kept size s effects) (hoffset : offset < size ∧ offset % kPartSize = 0)
    (bytes : Bytes) (written finalized : Bool) :
    ∃ s' more, s.savePart offset bytes written finalized = .ok (s', more) ∧
      Kept size s' (effects ++ more) ∧ WritesOf (.part offset bytes written finalized) more := by
  obtain ⟨hcounters, hhistory⟩ := h
  have hindex : offset / kPartSize < s.partIsSaved.length := by
    rw [hcounters.length, partsCountOf, Nat.div_lt_iff_lt_mul kPartSize_pos]
    have hround := Nat.lt_div_mul_add (a := size + kPartSize - 1) kPartSize_pos
    have hpos := kPartSize_pos
    omega
  have hat : offset = offset / kPartSize * kPartSize :=
    (Nat.div_mul_cancel (Nat.dvd_of_mod_eq_zero hoffset.2)).symm
  rw [StreamedFileDownloader.savePart, if_neg (not_not.mpr (hcounters.size_eq.symm ▸ hoffset))]
  by_cases hdone : s.finished = true ∨ s.cancelled = true
  · rw [if_pos hdone]
    exact ⟨s, [], rfl, ⟨hcounters, by rwa [List.append_nil]⟩, .nil⟩
  · have hfinished : s.finished = false := Bool.eq_false_iff.mpr fun hf => hdone (Or.inl hf)
    rw [hfinished] at hhistory
    rw [if_neg hdone]
    dsimp only
    cases hpart : s.partIsSaved[offset / kPartSize]? with
    | none => exact absurd (List.getElem?_eq_none_iff.mp hpart) (not_le.mpr hindex)
    | some part =>
      cases part with
      | true => exact ⟨s, [], rfl, ⟨hcounters, by rwa [List.append_nil, hfinished]⟩, .nil⟩
      | false =>
        have hsave := hcounters.save hpart
        have hcomplete := fun hall => hhistory.complete hpart bytes hall
        rw [← hat] at hcomplete
        dsimp only
        split_ifs with hwritten hall hfinal
        · -- It is the last one.
          exact ⟨_, _, rfl, ⟨{ hsave with cancelled := fun _ => rfl },
            hcomplete (hsave.savedAll.mp hall)⟩, .last⟩
        · -- It is the last one, and the result cannot be written.
          exact ⟨_, _, rfl, ⟨hsave.cancel, hcomplete (hsave.savedAll.mp hall)⟩, .last⟩
        · -- More parts are asked for.
          have hkept : Kept size (s.withSaved (offset / kPartSize))
              (effects ++ [.write offset bytes, .done offset]) := by
            have hnext := hhistory.save hpart bytes (hsave.missing hall)
            rw [← hat, ← hfinished] at hnext
            exact ⟨hsave, hnext⟩
          obtain ⟨hrequest, hquiet⟩ := hkept.requestParts
          rw [List.append_assoc] at hrequest
          exact ⟨_, _, rfl, hrequest, .onward hquiet⟩
        · -- It cannot be written.
          have hquiet : ∀ effect ∈ [Effect.cancel], Quiet size effect := fun effect hmem =>
            Or.inl (List.mem_singleton.mp hmem)
          have hstopped := (hhistory.unwritten hpart hcounters.length).quiet hquiet
          exact ⟨_, _, rfl, ⟨hsave.cancel, hstopped⟩, .quiet hquiet⟩

/-- **A step that the reader may make does not fail, and keeps what is always so.** -/
theorem Kept.step (h : Kept size s effects) {next : Step} (hnext : Given size next) :
    ∃ s' more, s.step next = .ok (s', more) ∧ Kept size s' (effects ++ more) ∧
      WritesOf next more := by
  cases next with
  | finishWithBytes =>
    refine ⟨_, _, rfl, ⟨{ h.1 with cancelled := fun _ => rfl }, ?_⟩, .nil⟩
    rw [List.append_nil]
    exact h.stopped
  | startLoading =>
    rw [StreamedFileDownloader.step]
    split_ifs with hfinished
    · exact ⟨_, _, rfl, by rwa [List.append_nil], .nil⟩
    · obtain ⟨hrequest, hquiet⟩ := h.requestParts
      exact ⟨_, _, rfl, hrequest, .quiet hquiet⟩
  | part offset bytes written finalized => exact h.savePart hnext bytes written finalized
  | cancel =>
    have hquiet : ∀ effect ∈ [Effect.cancel], Quiet size effect := fun effect hmem =>
      Or.inl (List.mem_singleton.mp hmem)
    exact ⟨_, _, rfl, ⟨h.1.cancel, h.stopped.quiet hquiet⟩, .quiet hquiet⟩

/-! ## Runs -/

theorem Kept.new (hsize : 0 < size) : Kept size (new size) [] := by
  have hcount : 0 < partsCountOf size := Nat.div_pos (by omega) kPartSize_pos
  have hnone : ∀ (index : ℕ), (List.replicate (partsCountOf size) false)[index]? ≠ some true :=
    fun index htrue => absurd (List.eq_of_mem_replicate (List.mem_of_getElem? htrue)) (by simp)
  refine ⟨⟨rfl, List.length_replicate, Nat.zero_le _, rfl, ?_, fun hnot => nomatch hnot⟩, ?_⟩
  · exact (List.count_eq_zero.mpr fun htrue =>
      absurd (List.eq_of_mem_replicate htrue) (by simp)).symm
  · refine ⟨fun _ hmem => absurd hmem List.not_mem_nil, .nil,
      fun _ hmem => absurd hmem List.not_mem_nil, fun _ => ⟨⟨0, ?_⟩, rfl, fun index htrue =>
        absurd htrue (hnone index)⟩, fun hnot => nomatch hnot⟩
    exact List.getElem?_replicate_of_lt hcount

/-- The file is finalized once it is all written, and once only. -/
theorem Kept.finalize (h : Kept size s effects) :
    effects.count .finalize ≤ 1 ∧ (.finalize ∈ effects ↔ AllWritten size effects) := by
  rw [← List.count_pos_iff]
  cases hfinished : s.finished with
  | false =>
    obtain ⟨⟨index, hfalse⟩, hnone, -⟩ := h.2.unfinished hfinished
    rw [hnone]
    refine ⟨Nat.zero_le 1, iff_of_false (Nat.lt_irrefl 0) fun hall => ?_⟩
    obtain ⟨hlt, -⟩ := List.getElem?_eq_some_iff.mp hfalse
    exact h.2.notMem hfalse (hall index (h.1.length ▸ hlt))
  | true =>
    rcases h.2.finalized hfinished with ⟨hall, hone⟩ | ⟨hall, hnone⟩
    · rw [hone]
      exact ⟨Nat.le_refl 1, iff_of_true Nat.one_pos hall⟩
    · rw [hnone]
      exact ⟨Nat.zero_le 1, iff_of_false (Nat.lt_irrefl 0) hall⟩

end StreamedFileDownloader

end Yunogram.Storage
