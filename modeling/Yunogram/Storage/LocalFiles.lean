import Mathlib
import Yunogram.Machinery.LittleEndian

/-!
# Storage/LocalFiles — a local file that is written in three places

A local file is `base` with one of the endings `s`, `0` and `1`.  It is written to `s` by way of a
temporary file; where that fails it is written over `0`, which then takes the place of `s`.
`ReadFile` takes `s` where there is one, and else the later of `0` and `1` that has the right
signature.

The result is `crash_atomicity`: when a file that was being written, and was interrupted, is still
read as what it was or what it was to be.
-/

namespace Yunogram.Storage.Details

open Machinery

/-- `QByteArray`. -/
abbrev Bytes := List UInt8

/-- `TdfMagic`. -/
def tdfMagic : Bytes := [0x54, 0x44, 0x46, 0x24]

/-- `AppVersion`. -/
def appVersion : ℕ := 7002007

/-- A number as an `int32`. -/
def toInt32 (n : ℤ) : ℤ := Int.bmod n (2 ^ 32)

/-! ## A file that is written -/

/-- `FileWriteDescriptor`: the data, and what has been fed to MD5. -/
structure FileWriteDescriptor where
  safeData : Bytes
  fed : Bytes
  fullSize : ℕ

/-- A descriptor with nothing written. -/
def FileWriteDescriptor.new : FileWriteDescriptor := ⟨[], [], 0⟩

/-- `WriteEntry`; the paths are those of the files. -/
structure WriteEntry where
  data : Bytes
  md5 : Bytes

/-- `FileWriteDescriptor::writeData`, of a `QByteArray` that may be null. -/
def FileWriteDescriptor.writeData (d : FileWriteDescriptor) (data : Option Bytes) :
    FileWriteDescriptor :=
  let len := match data with
    | none => 0xffffffff
    | some data => data.length
  let bytes := data.getD []
  { safeData := d.safeData ++ bigEndian 4 len ++ bytes
    fed := d.fed ++ bigEndian 4 len ++ bytes
    fullSize := d.fullSize + (4 + bytes.length) }

/-- `FileWriteDescriptor::finish`. -/
def FileWriteDescriptor.finish (md5 : Bytes → Bytes) (d : FileWriteDescriptor) : WriteEntry where
  data := d.safeData
  md5 := md5 (d.fed ++ littleEndian 4 d.fullSize ++ littleEndian 4 appVersion ++ tdfMagic)

/-- The entry for some pieces of data. -/
def entryOf (md5 : Bytes → Bytes) (pieces : List (Option Bytes)) : WriteEntry :=
  (pieces.foldl FileWriteDescriptor.writeData .new).finish md5

/-! ## The files on the disk -/

/-- A file. -/
structure File where
  content : Bytes
  lastModified : ℕ
  deriving DecidableEq

/-- The files with the endings `s`, `0` and `1`. -/
structure Files where
  safe : Option File
  simple : Option File
  backup : Option File
  deriving DecidableEq

/-- `FileReadDescriptor`. -/
structure FileReadDescriptor where
  version : ℤ
  data : Bytes
  deriving DecidableEq

/-- One round of `ReadFile`: what is in a file. -/
def readContent (md5 : Bytes → Bytes) (content : Bytes) : Option FileReadDescriptor :=
  let magic := content.take 4
  if magic.length ≠ 4 then none
  else if magic ≠ tdfMagic then none
  else
    let versionBytes := (content.drop 4).take 4
    let version := toInt32 (ofLittleEndian versionBytes)
    if versionBytes.length ≠ 4 then none
    else if (appVersion : ℤ) < version then none
    else
      let bytes := content.drop 8
      let dataSize := toInt32 ((bytes.length : ℤ) - 16)
      if dataSize < 0 then none
      else
        let data := bytes.take dataSize.toNat
        let signature := (bytes.drop dataSize.toNat).take 16
        if md5 (data ++ littleEndian 4 dataSize.toNat ++ versionBytes ++ magic) ≠ signature then
          none
        else some ⟨version, data⟩

/-- `ReadFile`, and the files after it: the one that was not needed is removed. -/
def readFile (md5 : Bytes → Bytes) (files : Files) : Option FileReadDescriptor × Files :=
  let read (f : File) := readContent md5 f.content
  match files.safe, files.simple, files.backup with
  | some safe, _, _ => (read safe, files)
  | none, some simple, some backup =>
    if simple.lastModified < backup.lastModified then
      match read backup with
      | some result => (some result, { files with simple := none })
      | none => match read simple with
        | some result => (some result, { files with backup := none })
        | none => (none, files)
    else
      match read simple with
      | some result => (some result, { files with backup := none })
      | none => match read backup with
        | some result => (some result, { files with simple := none })
        | none => (none, files)
  | none, some simple, none => (read simple, files)
  | none, none, backup => (backup.bind read, files)

/-! ## Writing -/

/-- How it goes to open a file for writing: whether it opens, whether there is the directory, or it
can be made, and whether the file opens then. -/
structure OpenOutcome where
  first : Bool
  dirExists : Bool
  mkpath : Bool
  second : Bool

/-- `WriteManager::writeHeader`, as far as it opens the file. -/
def OpenOutcome.opens (o : OpenOutcome) : Bool :=
  o.first || (!o.dirExists && o.mkpath && o.second)

/-- How each operation of `WriteManager::writeNow` goes; of the magic, the version, the data and the
signature, how many bytes get into the file `0`. -/
structure Outcomes where
  openSave : OpenOutcome
  commit : Bool
  removeSimple : Bool
  openPlain : OpenOutcome
  written : ℕ × ℕ × ℕ × ℕ
  removeBackup : Bool
  rename : Bool
  removeSafe : Bool

/-- What is written of an entry. -/
def writtenOf (entry : WriteEntry) (written : ℕ × ℕ × ℕ × ℕ) : Bytes :=
  tdfMagic.take written.1 ++ (littleEndian 4 appVersion).take written.2.1
    ++ entry.data.take written.2.2.1 ++ entry.md5.take written.2.2.2

/-- All of an entry. -/
def wholeOf (entry : WriteEntry) : Bytes :=
  tdfMagic ++ littleEndian 4 appVersion ++ entry.data ++ entry.md5

/-- `WriteManager::writeNow`: the files as they are before, between and after its operations, and
while the file `0` is written. -/
def writeNow (entry : WriteEntry) (now : ℕ) (o : Outcomes) (files : Files) : List Files :=
  let removeBackup (files : Files) :=
    if o.removeBackup then { files with backup := none } else files
  files ::
    if o.openSave.opens && o.commit then
      let files := { files with safe := some ⟨wholeOf entry, now⟩ }
      let removed := if o.removeSimple then { files with simple := none } else files
      [files, removed, removeBackup removed]
    else if o.openPlain.opens then
      let content := writtenOf entry o.written
      let removed := removeBackup { files with simple := some ⟨content, now⟩ }
      (content.inits.map fun part => { files with simple := some ⟨part, now⟩ }) ++
        [removed,
          if o.rename then { removed with safe := removed.simple, simple := none }
          else if o.removeSafe then { removed with safe := none }
          else removed]
    else []

/-! ## What is written is read -/

variable {md5 : Bytes → Bytes}

theorem foldl_writeData (pieces : List (Option Bytes)) :
    (pieces.foldl FileWriteDescriptor.writeData .new).fed
        = (pieces.foldl FileWriteDescriptor.writeData .new).safeData ∧
      (pieces.foldl FileWriteDescriptor.writeData .new).fullSize
        = (pieces.foldl FileWriteDescriptor.writeData .new).safeData.length := by
  induction pieces using List.reverseRecOn with
  | nil => exact ⟨rfl, rfl⟩
  | append_singleton pieces piece ih =>
    rw [List.foldl_append]
    dsimp only [List.foldl_cons, List.foldl_nil, FileWriteDescriptor.writeData]
    rw [ih.1, ih.2]
    refine ⟨rfl, ?_⟩
    rw [List.length_append, List.length_append, length_bigEndian, Nat.add_assoc]

/-- The signature of an entry is that of its data. -/
theorem md5_entryOf (md5 : Bytes → Bytes) (pieces : List (Option Bytes)) :
    (entryOf md5 pieces).md5
      = md5 ((entryOf md5 pieces).data ++ littleEndian 4 (entryOf md5 pieces).data.length
          ++ littleEndian 4 appVersion ++ tdfMagic) := by
  show md5 _ = _
  rw [(foldl_writeData pieces).1, (foldl_writeData pieces).2]
  rfl

/-- **The whole of an entry is read.** -/
theorem readContent_whole (hmd5 : ∀ input, (md5 input).length = 16) {pieces : List (Option Bytes)}
    (hsize : (entryOf md5 pieces).data.length < 2 ^ 31) :
    readContent md5 (wholeOf (entryOf md5 pieces))
      = some ⟨appVersion, (entryOf md5 pieces).data⟩ := by
  have hsignature := md5_entryOf md5 pieces
  generalize entryOf md5 pieces = entry at *
  have hmagic : (wholeOf entry).take 4 = tdfMagic := rfl
  have hversion : ((wholeOf entry).drop 4).take 4 = littleEndian 4 appVersion := rfl
  have hbytes : (wholeOf entry).drop 8 = entry.data ++ entry.md5 := rfl
  have hlength : entry.md5.length = 16 := by rw [hsignature, hmd5]
  have hdataSize : toInt32 (((entry.data ++ entry.md5).length : ℤ) - 16) = entry.data.length := by
    rw [List.length_append, hlength, toInt32, Int.bmod_eq_of_le] <;> push_cast <;> omega
  have happ : toInt32 (ofLittleEndian (littleEndian 4 appVersion)) = appVersion := by decide
  unfold readContent
  dsimp only
  rw [hmagic, hversion, hbytes, hdataSize, Int.toNat_natCast, List.take_left, List.drop_left,
    happ, List.take_of_length_le hlength.le, hsignature]
  rw [if_neg (not_not_intro rfl), if_neg (not_not_intro rfl),
    if_neg (not_not_intro (length_littleEndian 4 appVersion)), if_neg (lt_irrefl _),
    if_neg (Int.not_lt.mpr (Int.natCast_nonneg _)),
    if_neg (show ¬ tdfMagic.length ≠ 4 from not_not_intro rfl)]

theorem readContent_nil : readContent md5 [] = none := rfl

/-! ## Where a file can be recovered -/

/-- A file is read as what it was or as what it was to be. -/
def ReadsAs (was next : FileReadDescriptor) (result : Option FileReadDescriptor) : Prop :=
  result = some was ∨ result = some next

section

variable {was next : FileReadDescriptor} {result result' : Option FileReadDescriptor}

theorem not_readsAs_none : ¬ ReadsAs was next none := by rintro (h | h) <;> exact nomatch h

theorem readsAs_orElse :
    ReadsAs was next (result <|> result')
      ↔ ReadsAs was next result ∨ (result = none ∧ ReadsAs was next result') := by
  cases result with
  | none => simp [not_readsAs_none]
  | some r => simp

/-- Two files are tried, the later one first. -/
theorem readFile_both (simple backup : File) :
    (readFile md5 ⟨none, some simple, some backup⟩).1
      = if simple.lastModified < backup.lastModified then
          readContent md5 backup.content <|> readContent md5 simple.content
        else readContent md5 simple.content <|> readContent md5 backup.content := by
  unfold readFile
  dsimp only
  split
  · cases readContent md5 backup.content with
    | some r => rfl
    | none => cases readContent md5 simple.content <;> rfl
  · cases readContent md5 simple.content with
    | some r => rfl
    | none => cases readContent md5 backup.content <;> rfl

end

/-- **What is in `0` is recovered** with what is in `1`, where neither is `s`: the later one is read
as it should, or has no right signature and the other one is. -/
def RecoverableFrom (md5 : Bytes → Bytes) (was next : FileReadDescriptor) (simple : File) :
    Option File → Prop
  | none => ReadsAs was next (readContent md5 simple.content)
  | some backup =>
    if simple.lastModified < backup.lastModified then
      ReadsAs was next (readContent md5 backup.content) ∨
        (readContent md5 backup.content = none ∧ ReadsAs was next (readContent md5 simple.content))
    else
      ReadsAs was next (readContent md5 simple.content) ∨
        (readContent md5 simple.content = none ∧ ReadsAs was next (readContent md5 backup.content))

/-- **When an interrupted write is recovered from.**  The file is committed to `s`, or `0` is not
opened either; or there is `s`, or a `1` that is read wherever the writing of `0` stops, and what
takes the place of `s`, or is left beside no `s`, is read. -/
def Recoverable (md5 : Bytes → Bytes) (was next : FileReadDescriptor) (entry : WriteEntry) (now : ℕ)
    (o : Outcomes) (files : Files) : Prop :=
  let content := writtenOf entry o.written
  let reads (content : Bytes) := ReadsAs was next (readContent md5 content)
  (o.openSave.opens = true ∧ o.commit = true) ∨ o.openPlain.opens = false ∨
    ((files.safe = none → ∃ backup, files.backup = some backup ∧ reads backup.content ∧
        (now < backup.lastModified ∨
          ∀ part, part <+: content → readContent md5 part = none ∨ reads part)) ∧
      if o.rename then reads content
      else files.safe = none ∨ o.removeSafe = true →
        RecoverableFrom md5 was next ⟨content, now⟩ (if o.removeBackup then none else files.backup))

section

variable {was next : FileReadDescriptor} {entry : WriteEntry} {now : ℕ} {o : Outcomes}
  {files : Files}

theorem readsAs_of_safe {safe : File} (hsafe : files.safe = some safe)
    (h : ReadsAs was next (readContent md5 safe.content)) :
    ReadsAs was next (readFile md5 files).1 := by
  unfold readFile
  rw [hsafe]
  exact h

theorem readsAs_of_none {simple : File} {backup : Option File} :
    ReadsAs was next (readFile md5 ⟨none, some simple, backup⟩).1
      ↔ RecoverableFrom md5 was next simple backup := by
  cases backup with
  | none => rfl
  | some backup =>
    rw [readFile_both, RecoverableFrom]
    split <;> exact readsAs_orElse

/-- **While `0` is written.**  Beside no `s` it is `1` that has to be read. -/
theorem writing_iff {content : Bytes}
    (hwas : ReadsAs was next (readFile md5 files).1) :
    (∀ part, part <+: content →
        ReadsAs was next (readFile md5 { files with simple := some ⟨part, now⟩ }).1) ↔
      (files.safe = none → ∃ backup, files.backup = some backup ∧
        ReadsAs was next (readContent md5 backup.content) ∧ (now < backup.lastModified ∨
          ∀ part, part <+: content →
            readContent md5 part = none ∨ ReadsAs was next (readContent md5 part))) := by
  obtain ⟨safe, simple, backup⟩ := files
  cases safe with
  | some safe =>
    exact ⟨(fun _ h => nomatch h), fun _ part _ => readsAs_of_safe rfl hwas⟩
  | none =>
    dsimp only
    simp only [readsAs_of_none, forall_const]
    constructor
    · intro h
      have hnil := h [] List.nil_prefix
      cases backup with
      | none => exact absurd hnil not_readsAs_none
      | some backup =>
        refine ⟨backup, rfl, ?_⟩
        unfold RecoverableFrom at h hnil
        dsimp only at h hnil
        split at hnil
        · next hlater =>
          refine ⟨hnil.resolve_right fun hsimple => not_readsAs_none hsimple.2, .inl hlater⟩
        · next hlater =>
          refine ⟨(hnil.resolve_left not_readsAs_none).2, .inr fun part hpart => ?_⟩
          have hread := h part hpart
          rw [if_neg hlater] at hread
          exact hread.elim .inr fun hread => .inl hread.1
    · rintro ⟨backup, rfl, hbackup, hparts⟩ part hpart
      unfold RecoverableFrom
      dsimp only
      split
      · exact .inl hbackup
      · next hlater =>
        rcases (hparts.resolve_left hlater) part hpart with hnone | hread
        · exact .inr ⟨hnone, hbackup⟩
        · exact .inl hread

/-- **When `0` is written.**  It takes the place of `s`, or stays beside it, or is left without. -/
theorem landing_iff {content : Bytes} {left : Option File}
    (hwas : ReadsAs was next (readFile md5 files).1)
    (hleft : left = none ∨ left = files.backup)
    (hwriting : ∀ part, part <+: content →
      ReadsAs was next (readFile md5 { files with simple := some ⟨part, now⟩ }).1) :
    (ReadsAs was next (readFile md5 ⟨files.safe, some ⟨content, now⟩, left⟩).1 ∧
        ReadsAs was next (readFile md5
          (if o.rename then ⟨some ⟨content, now⟩, none, left⟩
          else if o.removeSafe then ⟨none, some ⟨content, now⟩, left⟩
          else ⟨files.safe, some ⟨content, now⟩, left⟩)).1) ↔
      if o.rename then ReadsAs was next (readContent md5 content)
      else files.safe = none ∨ o.removeSafe = true →
        RecoverableFrom md5 was next ⟨content, now⟩ left := by
  obtain ⟨safe, simple, backup⟩ := files
  have hbeside : ∀ safe', safe = some safe' →
      ReadsAs was next (readFile md5 ⟨safe, some ⟨content, now⟩, left⟩).1 := by
    rintro safe' rfl
    exact readsAs_of_safe rfl hwas
  cases hrename : o.rename with
  | true =>
    simp only [if_true]
    refine ⟨fun h => h.2, fun hcontent => ⟨?_, hcontent⟩⟩
    cases safe with
    | some safe => exact hbeside safe rfl
    | none =>
      rcases hleft with rfl | rfl
      · exact hcontent
      · exact hwriting content (List.prefix_refl content)
  | false =>
    simp only [Bool.false_eq_true, if_false]
    cases hremove : o.removeSafe with
    | true =>
      simp only [if_true, or_true, forall_const, readsAs_of_none]
      refine ⟨fun h => h.2, fun h => ⟨?_, h⟩⟩
      cases safe with
      | some safe => exact hbeside safe rfl
      | none => exact readsAs_of_none.mpr h
    | false =>
      simp only [Bool.false_eq_true, if_false, or_false, and_self]
      cases safe with
      | some safe => exact ⟨(fun _ h => nomatch h), fun _ => hbeside safe rfl⟩
      | none => simp only [readsAs_of_none, forall_const]

end

/-- **The crash atomicity of a local file.**  Of a file that is read as `was`, everything that may
be on the disk while something else is written to it, and after it, is read as `was` or as what is
written if and only if `Recoverable` holds. -/
theorem crash_atomicity (md5 : Bytes → Bytes) (hmd5 : ∀ input, (md5 input).length = 16)
    (files : Files) (was : FileReadDescriptor) (hwas : (readFile md5 files).1 = some was)
    (pieces : List (Option Bytes)) (hsize : (entryOf md5 pieces).data.length < 2 ^ 31) (now : ℕ)
    (o : Outcomes) :
    (∀ state ∈ writeNow (entryOf md5 pieces) now o files,
        (readFile md5 state).1 = some was ∨
          (readFile md5 state).1 = some ⟨appVersion, (entryOf md5 pieces).data⟩) ↔
      Recoverable md5 was ⟨appVersion, (entryOf md5 pieces).data⟩ (entryOf md5 pieces) now o
        files := by
  have hwhole := readContent_whole hmd5 hsize
  generalize entryOf md5 pieces = entry at *
  have hold : ReadsAs was ⟨appVersion, entry.data⟩ (readFile md5 files).1 := .inl hwas
  show (∀ state ∈ writeNow entry now o files,
    ReadsAs was ⟨appVersion, entry.data⟩ (readFile md5 state).1) ↔ _
  unfold writeNow Recoverable
  dsimp only
  by_cases hcommit : o.openSave.opens && o.commit
  · -- the file is in `s`, whatever is removed
    rw [if_pos hcommit]
    refine iff_of_true ?_ (.inl (Bool.and_eq_true_iff.mp hcommit))
    intro state hstate
    rcases List.mem_cons.mp hstate with rfl | hstate
    · exact hold
    · have hsafe : state.safe = some ⟨wholeOf entry, now⟩ := by
        simp only [List.mem_cons, List.not_mem_nil, or_false] at hstate
        rcases hstate with rfl | rfl | rfl
        · rfl
        · split <;> rfl
        · split <;> split <;> rfl
      exact readsAs_of_safe hsafe (.inr hwhole)
  · have hnot : ¬ (o.openSave.opens = true ∧ o.commit = true) :=
      fun h => hcommit (Bool.and_eq_true_iff.mpr h)
    rw [if_neg hcommit]
    cases hopens : o.openPlain.opens with
    | false =>
      simp only [Bool.false_eq_true, if_false, true_or, or_true, iff_true]
      intro state hstate
      rw [List.mem_singleton.mp hstate]
      exact hold
    | true =>
      have hremoved : (if o.removeBackup = true then
            { files with simple := some ⟨writtenOf entry o.written, now⟩, backup := none }
          else { files with simple := some ⟨writtenOf entry o.written, now⟩ })
          = ⟨files.safe, some ⟨writtenOf entry o.written, now⟩,
            if o.removeBackup then none else files.backup⟩ := by
        split <;> rfl
      simp only [if_true, hremoved, hnot, false_or, Bool.true_eq_false, List.forall_mem_cons,
        List.forall_mem_append, List.forall_mem_map, List.mem_inits, List.not_mem_nil,
        false_implies, implies_true, and_true, hold, true_and]
      rw [← writing_iff hold]
      exact and_congr_right fun hwriting => landing_iff hold (by split <;> simp) hwriting

/-- MD5 where it is used below, on what is fed to it for a file with one byte. -/
def sampleMd5 (input : Bytes) : Bytes :=
  if input = fed 1 then bigEndian 16 0x6531a428f055e2d9eb627bd4338a187f
  else if input = fed 2 then bigEndian 16 0xaa1d210453c3bcf3ab7c9c547a69e1e7
  else List.replicate 16 0
where
  fed (byte : UInt8) : Bytes :=
    bigEndian 4 1 ++ [byte] ++ littleEndian 4 5 ++ littleEndian 4 appVersion ++ tdfMagic

theorem length_sampleMd5 (input : Bytes) : (sampleMd5 input).length = 16 := by
  unfold sampleMd5
  split
  · exact length_bigEndian ..
  · split
    · exact length_bigEndian ..
    · exact List.length_replicate

/-- A file in `s` with one byte. -/
def sampleFiles : Files := ⟨some ⟨wholeOf (entryOf sampleMd5 [some [1]]), 1⟩, none, none⟩

/-- The temporary file is not committed; of the file `0` so much is written. -/
def sampleOutcomes (written : ℕ × ℕ × ℕ × ℕ) : Outcomes where
  openSave := ⟨true, true, true, true⟩
  commit := false
  removeSimple := true
  openPlain := ⟨true, true, true, true⟩
  written := written
  removeBackup := true
  rename := true
  removeSafe := true

/-- **A file that was written whole, to `0`, is recovered.** -/
theorem crash_atomicity_sample :
    (readFile sampleMd5 sampleFiles).1 = some ⟨appVersion, [0, 0, 0, 1, 1]⟩ ∧
    (entryOf sampleMd5 [some [2]]).data.length < 2 ^ 31 ∧
    ∀ state ∈ writeNow (entryOf sampleMd5 [some [2]]) 2 (sampleOutcomes (4, 4, 5, 16)) sampleFiles,
      (readFile sampleMd5 state).1 = some ⟨appVersion, [0, 0, 0, 1, 1]⟩ ∨
        (readFile sampleMd5 state).1 = some ⟨appVersion, (entryOf sampleMd5 [some [2]]).data⟩ := by
  have hwas : (readFile sampleMd5 sampleFiles).1 = some ⟨appVersion, [0, 0, 0, 1, 1]⟩ := by
    decide +kernel
  have hsize : (entryOf sampleMd5 [some [2]]).data.length < 2 ^ 31 := by decide +kernel
  refine ⟨hwas, hsize, (crash_atomicity sampleMd5 length_sampleMd5 sampleFiles _ hwas [some [2]]
    hsize 2 (sampleOutcomes (4, 4, 5, 16))).mpr (.inr (.inr ⟨(fun h => nomatch h), .inr ?_⟩))⟩
  decide +kernel

/-- **A full disk loses a file**: nothing is written to `0`, and it takes the place of `s`. -/
theorem disk_full_loses_file :
    (readFile sampleMd5 sampleFiles).1 = some ⟨appVersion, [0, 0, 0, 1, 1]⟩ ∧
    ¬ ∀ state ∈ writeNow (entryOf sampleMd5 [some [2]]) 2 (sampleOutcomes (0, 0, 0, 0)) sampleFiles,
      (readFile sampleMd5 state).1 = some ⟨appVersion, [0, 0, 0, 1, 1]⟩ ∨
        (readFile sampleMd5 state).1 = some ⟨appVersion, (entryOf sampleMd5 [some [2]]).data⟩ := by
  decide +kernel

end Yunogram.Storage.Details
