import Yunogram.Machinery.Run
import Yunogram.Media.FullInCacheSteps

/-!
# Media/FullInCacheRuns — all is said to be in the cache when all of it was held

A run of a reader, with the flags of its slices: what comes, what is read and filled, what is
unloaded, and what the cache loses, in any order.

The result is `full_only_when_held`: the slices say that all is in the cache only when each of them
was all held at some moment, and they do say so once each was all held and was unloaded.
-/

namespace Yunogram.Media.Streaming

open Machinery Slices

variable {n : ℕ} {file : Bytes}

/-! ## Runs -/

/-- A reader, with what its slices say of the cache. -/
structure FullReader where
  reader : Reader
  full : Full

namespace FullReader

variable {m m' first : FullReader}

/-- The slices of the reader. -/
def slices (m : FullReader) : Slices := m.reader.slices

/-- **A step of a reader**, with what it does to the flags. -/
inductive Step (file : Bytes) : FullReader → FullReader → Prop
  | evict (m : FullReader) (n : ℕ) :
      Step file m ⟨{ m.reader with cache := m.reader.cache.erase n }, m.full⟩
  | read (m : FullReader) {n : ℕ} (hn : n ≠ 0) (hmode : m.slices.headerMode ≠ .unknown)
      (hcache : m.slices.headerMode ≠ .noCache) : Step file m ⟨m.reader.readFromCache n, m.full⟩
  | sizes (m : FullReader) (sizes : List ℕ) {full : Full} (hsome : sizes ≠ [])
      (hnot : isFullInHeader m.slices.size = false)
      (h : m.full.processCachedSizes m.slices sizes = some full) : Step file m ⟨m.reader, full⟩
  | result (m : FullReader) (n : ℕ) (parts : PartsMap) {slices : Slices} {full : Full}
      (hmem : (n, parts) ∈ m.reader.results)
      (hheader : n = 0 → computeIsGoodHeader m.slices.size parts = false)
      (h : m.full.processCacheResult m.slices n parts = some (slices, full)) :
      Step file m ⟨{ m.reader with slices }, full⟩
  | header (m : FullReader) (parts included : PartsMap) {slices slices' : Slices}
      {full full' : Full}
      (hmem : (0, parts) ∈ m.reader.results) (hincluded : (1, included) ∈ m.reader.results)
      (h : m.full.processCacheResult m.slices 0 parts = some (slices, full))
      (h' : full.processCacheResult slices 1 included = some (slices', full')) :
      Step file m ⟨{ m.reader with slices := slices' }, full'⟩
  | part (m : FullReader) (offset : ℕ) (bytes : Bytes) {slices : Slices} {full : Full}
      (hread : m.reader.HeaderKnown) (hoffset : kPartSize ∣ offset ∧ offset < m.slices.size)
      (hbytes : bytes.length = min kPartSize (m.slices.size - offset))
      (hfile : fileLoads file offset bytes) (hnew : m.slices.IsNew offset)
      (h : m.full.processPart m.slices offset bytes = some (slices, full)) :
      Step file m ⟨{ m.reader with slices }, full⟩
  | fill (m : FullReader) (offset count : ℕ) {slices : Slices} (filled : Slices.FillResult)
      (h : m.slices.fill offset count = some (slices, filled)) :
      Step file m ⟨(filled.sliceNumbersFromCache.foldl Reader.readFromCache
        { m.reader with slices }).putToCache filled.toCache, m.full⟩
  | headerDone (m : FullReader) {slices : Slices} (hread : m.reader.HeaderKnown)
      (h : m.slices.headerDone false = some slices) :
      Step file m ⟨{ m.reader with slices }, m.full⟩
  | unloadToCache (m : FullReader) {slices : Slices} {toCache : Option SerializedSlice}
      (h : m.slices.unloadToCache = some (slices, toCache)) :
      Step file m ⟨({ m.reader with slices } : Reader).putToCache toCache, m.full⟩

/-- A new reader of a file, after any others before it. -/
def IsNew (file : Bytes) (m : FullReader) : Prop :=
  Reader.Reads file m.reader ∧
    (∃ useCache, Reader.new m.slices.size useCache m.reader.cache = some m.reader) ∧
    m.full = Full.new m.slices

/-- What a reader may come to. -/
def Run (file : Bytes) : FullReader → FullReader → Prop := Relation.ReflTransGen (Step file)

/-- Those are steps that readers take. -/
theorem Step.served (h : Step file m m') :
    m'.reader = m.reader ∨ Reader.Served file m.reader m'.reader := by
  cases h with
  | evict n => exact Or.inr (.evict m.reader n)
  | read hn hmode hcache => exact Or.inr (.read m.reader hn hmode hcache)
  | sizes sizes hsome hnot h => exact Or.inl rfl
  | result n parts hmem hheader h =>
    obtain ⟨slices, hresult, heq⟩ := Option.map_eq_some_iff.mp h
    obtain ⟨rfl, -⟩ := Prod.mk.inj heq
    exact Or.inr (.result m.reader n parts hmem hheader hresult)
  | header parts included hmem hincluded h h' =>
    obtain ⟨slices, hresult, heq⟩ := Option.map_eq_some_iff.mp h
    obtain ⟨rfl, -⟩ := Prod.mk.inj heq
    obtain ⟨slices', hresult', heq'⟩ := Option.map_eq_some_iff.mp h'
    obtain ⟨rfl, -⟩ := Prod.mk.inj heq'
    exact Or.inr (.header m.reader parts included hmem hincluded hresult hresult')
  | part offset bytes hread hoffset hbytes hfile hnew h =>
    obtain ⟨slices, hpart, heq⟩ := Option.map_eq_some_iff.mp h
    obtain ⟨rfl, -⟩ := Prod.mk.inj heq
    exact Or.inr (.part m.reader offset bytes hread hoffset hbytes hfile hnew hpart)
  | fill offset count filled h => exact Or.inr (.fill m.reader offset count filled h)
  | headerDone hread h => exact Or.inr (.headerDone m.reader hread h)
  | unloadToCache h => exact Or.inr (.unloadToCache m.reader h)

/-- **What is so of a reader and of the flags.** -/
structure Ok (file : Bytes) (m : FullReader) : Prop where
  reads : Reader.Reads file m.reader
  pos : 0 < m.slices.size
  changed : ChangedOk m.slices
  full : FullOk m.slices m.full

theorem Ok.valid (h : Ok file m) : Valid (fileLoads file) m.slices := h.reads.reachable.inv.valid

theorem Ok.reads_step (h : Ok file m) (hstep : Step file m m') : Reader.Reads file m'.reader := by
  rcases hstep.served with heq | hserved
  · exact heq ▸ h.reads
  · obtain ⟨hsize, useCache, first, hnew, hsteps⟩ := h.reads
    exact ⟨hsize, useCache, first, hnew, hsteps.tail hserved⟩

/-- **What a step changes** of the slices and of the flags. -/
theorem Ok.change (h : Ok file m) (hstep : Step file m m') : m'.slices.size = m.slices.size ∧
    ChangedOk m'.slices ∧ Change m.slices m'.slices m.full m'.full := by
  have hi := h.reads.reachable.inv
  cases hstep with
  | evict n => exact ⟨rfl, h.changed, .quiet fun n _ => Quiet.refl _ n⟩
  | read hn hmode hcache => exact ⟨rfl, h.changed, .quiet fun n _ => Quiet.refl _ n⟩
  | sizes sizes hsome hnot hsizes =>
    exact ⟨rfl, h.changed, .sizes sizes rfl hsome hnot hsizes⟩
  | result n parts hmem hheader hresult =>
    obtain ⟨slices, hslices, heq⟩ := Option.map_eq_some_iff.mp hresult
    obtain ⟨rfl, -⟩ := Prod.mk.inj heq
    obtain ⟨hholds, hcount⟩ := hi.results n parts hmem
    by_cases hn : n = 0
    · obtain rfl := hn
      have hsize := (hi.valid.processCacheResult_header hholds (hcount rfl)
        (fun hgood => (hi.good hgood).2 parts hmem) hslices).2.1
      exact ⟨hsize, h.changed.processCacheResult hslices,
        (change_processCacheResult_header h.reads.allOk hsize hresult).1⟩
    · have hsize := (hi.valid.processCacheResult_slice hn hholds hslices).2.size
      exact ⟨hsize, h.changed.processCacheResult hslices,
        change_processCacheResult_slice hi.valid hn hresult⟩
  | @header parts included slices slices' full full' hmem hincluded hresult hresult' =>
    obtain ⟨s₁, hslices, heq⟩ := Option.map_eq_some_iff.mp hresult
    obtain ⟨rfl, -⟩ := Prod.mk.inj heq
    obtain ⟨s₂, hslices', heq'⟩ := Option.map_eq_some_iff.mp hresult'
    obtain ⟨rfl, -⟩ := Prod.mk.inj heq'
    obtain ⟨hholds, hcount⟩ := hi.results 0 parts hmem
    obtain ⟨hv, hsize, -⟩ := hi.valid.processCacheResult_header hholds (hcount rfl)
      (fun hgood => (hi.good hgood).2 parts hmem) hslices
    obtain ⟨hchange, hquiet⟩ := change_processCacheResult_header h.reads.allOk hsize hresult
    have hchanged := (h.changed.processCacheResult hslices).processCacheResult hslices'
    have hincludes : Holds s₁.size (fileLoads file) 1 included :=
      hsize ▸ (hi.results 1 included hincluded).1
    have hsize' := (hv.processCacheResult_slice Nat.one_ne_zero hincludes hslices').2.size
    refine ⟨hsize'.trans hsize, hchanged, ?_⟩
    rcases processCacheResult_slice hv Nat.one_ne_zero hresult' with
      ⟨rfl, rfl⟩ | ⟨hflagged, hbusy, rfl, hnot, hmode, hothers⟩
    · exact hchange
    · obtain ⟨rfl, hrest⟩ := hquiet (hsize ▸ hnot)
      refine .checked 1 hflagged hbusy fun k hk hflagged => ?_
      have hne := Nat.pos_iff_ne_zero.mp (hflagged.pos (hsize ▸ hnot)).1
      exact (hrest k hflagged).then (hothers k hk hne) hmode
  | part offset bytes hread hoffset hbytes hfile hnew hpart =>
    obtain ⟨slices, hslices, heq⟩ := Option.map_eq_some_iff.mp hpart
    obtain ⟨rfl, -⟩ := Prod.mk.inj heq
    exact ⟨(hi.valid.processPart_keeps hslices).size, h.changed.processPart hslices,
      change_processPart hpart⟩
  | fill offset count filled hfill =>
    dsimp only [slices]
    rw [Reader.putToCache_slices, Reader.readFromCache_slices]
    exact ⟨(hi.valid.fill hfill).2.1.size, h.changed.fill hfill,
      .quiet fun n hn => quiet_fill hi.valid hfill hn⟩
  | headerDone hread hdone =>
    exact ⟨headerDone_size hdone, h.changed.headerDone hdone,
      .quiet fun n _ => quiet_headerDone hdone n⟩
  | unloadToCache hunload =>
    dsimp only [slices]
    rw [Reader.putToCache_slices]
    exact ⟨(hi.valid.unloadToCache hunload).2.1.size,
      h.changed.relaxes (unloadToCache_drops hunload).relaxes,
      .quiet fun n _ => (unloadToCache_unloads h.changed hunload).quiet n⟩

/-- **Every step keeps it.** -/
theorem Ok.step (h : Ok file m) (hstep : Step file m m') : Ok file m' := by
  obtain ⟨hsize, hchanged, hchange⟩ := h.change hstep
  have hreads := h.reads_step hstep
  have hv : Valid (fileLoads file) m'.slices := hreads.reachable.inv.valid
  have hlength : m'.slices.data.length = m.slices.data.length := by
    rw [h.valid.length, hv.length, hsize]
  have hpos : 0 < m'.slices.size := hsize ▸ h.pos
  exact ⟨hreads, hpos, hchanged, h.full.change hv hpos hsize hlength hchange⟩

theorem Ok.run (h : Ok file m) (hrun : Run file m m') : Ok file m' := by
  induction hrun with
  | refl => exact h
  | tail _ hstep ih => exact ih.step hstep

/-- A new reader has no flag, and holds nothing. -/
theorem IsNew.ok (h : IsNew file m) : Ok file m := by
  obtain ⟨hreads, ⟨useCache, hnew⟩, hfull⟩ := h
  obtain ⟨slices, hslices, heq⟩ := Option.map_eq_some_iff.mp hnew
  have hv : Valid (fileLoads file) m.slices := hreads.reachable.inv.valid
  have hsame : m.slices = slices := congrArg Reader.slices heq.symm
  have hempty : ∀ n slice, sliceAt m.slices n = some slice → slice.parts = .empty := by
    intro n slice hslice
    rw [hsame] at hslice
    unfold Slices.new at hslices
    rw [Option.ite_none_left_eq_some, Option.ite_none_left_eq_some] at hslices
    obtain rfl := Option.some.inj hslices.2.2
    cases n with
    | zero => exact Option.some.inj hslice ▸ rfl
    | succ i =>
      have hmem := List.mem_of_getElem? (sliceAt_succ _ i ▸ hslice)
      dsimp only at hmem
      split_ifs at hmem
      · exact absurd hmem List.not_mem_nil
      · rw [List.eq_of_mem_replicate hmem]
        rfl
  have hpos : 0 < m.slices.size := by
    unfold Slices.new at hslices
    rw [Option.ite_none_left_eq_some] at hslices
    exact Nat.pos_of_ne_zero hslices.1
  have hlength : m.full.data.length = m.slices.data.length := by
    rw [hfull, Full.new, List.length_map]
  have hnone : ∀ n, m.full.flag n = false := by
    intro n
    rw [hfull]
    cases n with
    | zero => rfl
    | succ i =>
      rw [Full.flag_succ, Full.new, List.getD_eq_getElem?_getD, List.getElem?_map]
      cases m.slices.data[i]? <;> rfl
  refine ⟨hreads, hpos, ?_, hlength, ?_, fun _ => hfull ▸ rfl, ?_⟩
  · rw [hsame] at hslices ⊢
    exact ChangedOk.new hslices
  · rintro ⟨n, hn⟩
    rw [show m.full.fullInCache = false by rw [hfull]; rfl, eq_comm, ← Bool.not_eq_true,
      Full.checkFullInCache_iff hlength]
    intro hall
    exact absurd ((hall n hn).symm.trans (hnone n)) (by decide)
  · intro n slice hn hslice _ hparts
    have hpart : kPartSize = 131072 := rfl
    have hsize := hn.size_pos hv hpos
    rw [hempty n slice hslice, hn.partsCount_eq hv, hpart] at hparts
    have hzero : FlatMap.size (.empty : PartsMap) = 0 := rfl
    omega

/-! ## When all is said to be in the cache -/

/-- It is told what sizes the slices have in the cache, and a slice has its whole size there. -/
def Told (m m' : FullReader) (n : ℕ) : Prop :=
  m'.slices = m.slices ∧ ∃ sizes, m.full.processCachedSizes m.slices sizes = some m'.full ∧
    Full.SizeInCache sizes m.slices n

/-- A slice was all held at some moment, or it was told that it is in the cache. -/
def WasHeld (file : Bytes) (first m : FullReader) (n : ℕ) : Prop :=
  ∃ m₁, Run file first m₁ ∧ Run file m₁ m ∧
    (Held file m₁.slices n ∨ ∃ m₂, Step file m₁ m₂ ∧ Run file m₂ m ∧ Told m₁ m₂ n)

/-- A slice was all held when it was unloaded, and nothing came for it since. -/
def Unloaded (file : Bytes) (first m : FullReader) (n : ℕ) : Prop :=
  ∃ m₁ m₂, Run file first m₁ ∧ Step file m₁ m₂ ∧ Held file m₁.slices n ∧ Rests m₂.slices n ∧
    Relation.ReflTransGen (fun a b => Step file a b ∧ Rests b.slices n) m₂ m

/-- A slice is all held, and was looked at. -/
def Kept (file : Bytes) (m : FullReader) (n : ℕ) : Prop :=
  Held file m.slices n ∧ ∃ slice, sliceAt m.slices n = some slice ∧ Counts m.slices n slice

theorem Ok.size_run (h : Ok file m) (hrun : Run file m m') : m'.slices.size = m.slices.size := by
  induction hrun with
  | refl => rfl
  | tail hsteps hstep ih => exact ((h.run hsteps).change hstep).1.trans ih

theorem Ok.length_run (h : Ok file m) (hrun : Run file m m') :
    m'.slices.data.length = m.slices.data.length := by
  rw [h.valid.length, (h.run hrun).valid.length, h.size_run hrun]

/-- The slices of the reader are those of any state of the run. -/
theorem Ok.flagged_run (h : Ok file m) (hrun : Run file m m') {n : ℕ} :
    Flagged m'.slices n ↔ Flagged m.slices n :=
  ⟨fun hn => hn.keeps (h.size_run hrun).symm (h.length_run hrun).symm,
    fun hn => hn.keeps (h.size_run hrun) (h.length_run hrun)⟩

/-- **A flag that is set was set at some step**, at which the slice was all held. -/
theorem IsNew.wasHeld (h : IsNew file first) (hrun : Run file first m) {n : ℕ}
    (hn : Flagged m.slices n) (hflag : m.full.flag n = true) : WasHeld file first m n := by
  have hok := h.ok
  have hstart : ¬first.full.flag n = true := by
    rw [h.2.2]
    cases n with
    | zero => exact Bool.false_ne_true
    | succ i =>
      rw [Full.flag_succ, Full.new, List.getD_eq_getElem?_getD, List.getElem?_map]
      cases first.slices.data[i]? <;> exact Bool.false_ne_true
  obtain ⟨m₁, m₂, hrun₁, hstep, hrun₂, hnot, hset⟩ :=
    became (p := fun m => m.full.flag n = true) hrun hstart hflag
  have hok₁ := hok.run hrun₁
  have hok₂ := hok₁.step hstep
  obtain ⟨hsize, -, hchange⟩ := hok₁.change hstep
  have hn₂ : Flagged m₂.slices n := (hok₂.flagged_run hrun₂).mp hn
  have hlength := hok₁.length_run (.single hstep)
  rcases hchange.gained hok₁.full hok₂.valid hsize hlength hn₂ hset (Bool.not_eq_true _ ▸ hnot) with
    hheld | ⟨sizes, hsame, hsizes, hwhole⟩
  · exact ⟨m₂, hrun₁.tail hstep, hrun₂, Or.inl hheld⟩
  · exact ⟨m₁, hrun₁, .head hstep hrun₂,
      Or.inr ⟨m₂, hstep, hrun₂, hsame, sizes, hsizes, hwhole⟩⟩

/-- **A slice that was all held when it was unloaded keeps its flag.** -/
theorem IsNew.flag_of_unloaded (h : IsNew file first) (hrun : Run file first m) {n : ℕ}
    (hn : Flagged m.slices n) (hunloaded : Unloaded file first m n) : m.full.flag n = true := by
  obtain ⟨m₁, m₂, hrun₁, hstep, hheld, hrests, hwhile⟩ := hunloaded
  have hok₁ := h.ok.run hrun₁
  have hok₂ := hok₁.step hstep
  have hn₁ : Flagged m₁.slices n := (h.ok.flagged_run hrun₁).mpr ((h.ok.flagged_run hrun).mp hn)
  have hn₂ : Flagged m₂.slices n := (hok₁.flagged_run (.single hstep)).mpr hn₁
  have hflag₂ : m₂.full.flag n = true := by
    obtain ⟨hsize, -, hchange⟩ := hok₁.change hstep
    have hlength := hok₁.length_run (.single hstep)
    refine hchange.kept hok₁.full hok₂.valid hsize hlength hn₂ hrests ?_
    exact hchange.unloaded hok₁.full hok₁.valid hok₁.pos hn₁ hheld hrests
  clear hrun hn
  induction hwhile with
  | refl => exact hflag₂
  | @tail a b hsteps hnext ih =>
    have hrun' : Run file m₂ a := Relation.ReflTransGen.mono (fun _ _ hab => hab.1) _ _ hsteps
    have hoka := hok₂.run hrun'
    have hokb := hoka.step hnext.1
    obtain ⟨hsize, -, hchange⟩ := hoka.change hnext.1
    have hnb : Flagged b.slices n := (hok₂.flagged_run (hrun'.tail hnext.1)).mpr hn₂
    exact hchange.kept hoka.full hokb.valid hsize (hoka.length_run (.single hnext.1)) hnb hnext.2 ih

/-- Of no slices none is ever held. -/
theorem not_held_of_none (hv : Valid (fileLoads file) m.slices) (hnone : ¬HasSlices m.slices) :
    ¬Held file m.slices 1 := by
  have hfull : isFullInHeader m.slices.size = false := by
    rw [← Bool.not_eq_true]
    exact fun hfull => hnone ⟨0, by rw [Flagged, if_pos hfull]⟩
  have hlength : m.slices.data.length = 0 := by
    refine Nat.eq_zero_of_not_pos fun hpos => hnone ⟨1, ?_⟩
    rw [Flagged, if_neg (by simp [hfull])]
    exact ⟨Nat.le_refl 1, hpos⟩
  have hcount := hv.length
  rw [if_neg (by simp [hfull]), hlength] at hcount
  intro hheld
  have hsize : 0 < maxSliceSize 1 m.slices.size := by
    rw [maxSliceSize, if_neg Nat.one_ne_zero, if_neg (by omega)]
    decide
  obtain ⟨part, hmem, -⟩ := hheld 0 hsize
  rw [partsAt, sliceAt_succ, List.getElem?_eq_none (Nat.le_of_eq hlength)] at hmem
  exact absurd hmem List.not_mem_nil

/-- **All is said to be in the cache only when it was all held**: when the slices say so, each of
them was all held at some moment, or it was told that the cache has as many bytes for it.  And they
say so once each slice is all held and was looked at, or was unloaded when it was all held. -/
theorem full_only_when_held (hnew : IsNew file first) (hrun : Run file first m) :
    (m.full.fullInCache = true → ∀ n, SliceOf m.slices n → WasHeld file first m n) ∧
      ((∀ n, SliceOf m.slices n → Kept file m n ∨ Unloaded file first m n) →
        m.full.fullInCache = true) := by
  have hok := hnew.ok.run hrun
  constructor
  · intro hall n hn
    have hslices : HasSlices m.slices := by
      by_contra hnone
      exact absurd (hall.symm.trans (hok.full.none hnone)) (by decide)
    rw [hok.full.all hslices, Full.checkFullInCache_iff hok.full.length] at hall
    have hflagged := hn.flagged hok.valid hslices
    exact hnew.wasHeld hrun hflagged (hall n hflagged)
  · intro hall
    have hslices : HasSlices m.slices := by
      by_contra hnone
      have hone : SliceOf m.slices 1 := by
        rw [SliceOf, if_neg fun hfull => hnone ⟨0, by rw [Flagged, if_pos hfull]⟩]
        exact ⟨Nat.le_refl 1, by rw [sliceStart, Nat.sub_self, Nat.zero_mul]; exact hok.pos⟩
      rcases hall 1 hone with ⟨hheld, -⟩ | ⟨m₁, -, hrun₁, -, hheld, -⟩
      · exact not_held_of_none hok.valid hnone hheld
      · refine not_held_of_none (hnew.ok.run hrun₁).valid ?_ hheld
        rintro ⟨n, hn⟩
        exact hnone ⟨n, (hnew.ok.flagged_run hrun).mpr ((hnew.ok.flagged_run hrun₁).mp hn)⟩
    rw [hok.full.all hslices, Full.checkFullInCache_iff hok.full.length]
    intro n hn
    rcases hall n (hn.sliceOf hok.valid) with ⟨hheld, slice, hslice, hcounts⟩ | hunloaded
    · refine hok.full.held n slice hn hslice hcounts ?_
      rw [← partsAt_eq hslice]
      exact (hn.held_iff hok.valid).mp hheld
    · exact hnew.flag_of_unloaded hrun hn hunloaded

/-- A reader of three bytes, that were loaded; the cache has nothing of them. -/
def sampleReader (read : Bool) (parts : PartsMap) (full : Bool) : FullReader :=
  ⟨⟨⟨[], ⟨parts, !read, read, !parts.isEmpty⟩, [], 3, .unknown⟩, .empty, [(0, .empty)]⟩,
    ⟨full, [], full⟩⟩

theorem sampleReader_new :
    Reader.new 3 true .empty = some (sampleReader false .empty false).reader := by
  have hslices : Slices.new 3 true = some (sampleReader false .empty false).slices := by decide
  have hresults : cacheResults .empty 0 3 = [(0, .empty)] := by
    rw [cacheResults, FlatMap.find?_empty, Option.getD_none, parseCacheEntry, parseCachedMap_nil]
    rfl
  rw [Reader.new, hslices, hresults]
  rfl

theorem sampleReader_isNew : IsNew [1, 2, 3] (sampleReader false .empty false) :=
  ⟨⟨by decide, true, _, sampleReader_new, .refl⟩, ⟨true, sampleReader_new⟩, rfl⟩

theorem sampleReader_result :
    Step [1, 2, 3] (sampleReader false .empty false) (sampleReader true .empty false) :=
  .result (sampleReader false .empty false) 0 .empty List.mem_cons_self (fun _ => rfl)
    (by decide +kernel)

theorem sampleReader_part : Step [1, 2, 3] (sampleReader true .empty false)
    (sampleReader true (FlatMap.empty.emplace 0 [1, 2, 3]) true) :=
  .part (sampleReader true .empty false) 0 [1, 2, 3] (Or.inr rfl) (by decide) (by decide) rfl
    ⟨rfl, fun hgood => nomatch hgood⟩ (by decide +kernel)

/-- Three bytes that are held are said to be in the cache. -/
theorem full_only_when_held_three :
    (sampleReader true (FlatMap.empty.emplace 0 [1, 2, 3]) true).full.fullInCache = true := by
  refine (full_only_when_held sampleReader_isNew
    ((Relation.ReflTransGen.single sampleReader_result).tail sampleReader_part)).2
    fun n hn => Or.inl ?_
  obtain rfl : n = 0 := hn
  refine ⟨fun b hb => ⟨(0, [1, 2, 3]), List.mem_cons_self, Nat.zero_le b, ?_, ?_⟩,
    _, rfl, Or.inl rfl⟩
  · exact (Nat.zero_add 3).symm ▸ hb
  · rw [Nat.sub_zero, sliceStart, Nat.zero_sub, Nat.zero_mul, Nat.zero_add]

/-- What was received is said to be in the cache, which has nothing, and nothing came from it. -/
theorem full_before_written : ∃ file first m₁ m, IsNew file first ∧ Step file first m₁ ∧
    Step file m₁ m ∧ m.full.fullInCache = true ∧ (∀ part ∈ m.reader.results, part = (0, .empty)) ∧
    first.reader.cache = .empty ∧ m₁.reader.cache = .empty ∧ m.reader.cache = .empty :=
  ⟨[1, 2, 3], _, _, _, sampleReader_isNew, sampleReader_result, sampleReader_part, rfl,
    fun _ hpart => List.mem_singleton.mp hpart, rfl, rfl, rfl⟩

end FullReader

end Yunogram.Media.Streaming
