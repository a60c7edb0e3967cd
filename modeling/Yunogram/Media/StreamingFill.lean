import Yunogram.Media.StreamingReader

/-!
# Media/StreamingFill — what is copied to a buffer, and what is asked for where something is missing

A buffer is filled from the parts of one slice or of two that follow one another.  What is copied
are the bytes of the file (`Valid.fill_success`), for the parts that are there have no gap.  Where
there is one, the parts from it on are asked for: at most `kLoadFromRemoteMax` of them, those that
start first. -/

namespace Yunogram.Media.Streaming

open Machinery

variable {size n offset start till filled : ℕ} {parts result : PartsMap} {bytes file : Bytes}
  {s s' : Slices} {entries : List (ℕ × Bytes)} {loads : ℕ → Bytes → Prop}

/-! ## Parts without a gap are copied -/

/-- Parts without a gap are loaded up to where the last of them ends. -/
theorem Consecutive.findNotLoadedStart (h : Consecutive start entries) :
    findNotLoadedStart entries start = start + (entries.flatMap Prod.snd).length := by
  induction entries generalizing start with
  | nil => rfl
  | cons part entries ih =>
    obtain ⟨rfl, hpos, -, hfull, hrest⟩ := h
    rw [Streaming.findNotLoadedStart, if_pos ⟨Nat.le_refl _, Nat.le_add_right _ _⟩,
      List.flatMap_cons, List.length_append]
    rcases entries.eq_nil_or_concat with rfl | ⟨_, _, rfl⟩
    · rfl
    · rw [hfull (by simp), ih hrest]
      omega

/-- **The assertion of `CopyLoaded` holds of parts without a gap**, and it copies what they are. -/
theorem Consecutive.copyLoaded (h : Consecutive start entries) (hne : entries ≠ [])
    (hbefore : ∀ part ∈ entries, part.1 < till) (hstart : start ≤ filled)
    (hfirst : filled < start + kPartSize) (hfilled : filled < till)
    (htill : till ≤ start + (entries.flatMap Prod.snd).length) :
    copyLoaded till entries filled
      = some (((entries.flatMap Prod.snd).drop (filled - start)).take (till - filled)) := by
  induction entries generalizing start filled with
  | nil => exact absurd rfl hne
  | cons part entries ih =>
    obtain ⟨rfl, hpos, hle, hfull, hrest⟩ := h
    rw [List.flatMap_cons, List.length_append] at htill
    rw [Streaming.copyLoaded, List.flatMap_cons]
    rcases entries with _ | ⟨next, rest⟩
    · rw [List.flatMap_nil, List.length_nil, Nat.add_zero] at htill
      rw [Nat.min_eq_right htill, if_pos ⟨hstart, hfilled⟩, Streaming.copyLoaded, Option.map_some,
        List.flatMap_nil, List.append_nil, List.append_nil]
    · have hwhole : part.2.length = kPartSize := hfull (by simp)
      have hlt : part.1 + kPartSize < till :=
        hrest.1 ▸ hbefore next (List.mem_cons_of_mem _ List.mem_cons_self)
      have hsize : 0 < kPartSize := by decide
      have hmore := ih hrest (by simp) (fun b hb => hbefore b (List.mem_cons_of_mem _ hb))
        (Nat.le_refl _) (Nat.lt_add_of_pos_right hsize) hlt (by omega)
      rw [hwhole, Nat.min_eq_left hlt.le, if_pos ⟨hstart, hfirst⟩, hmore, Option.map_some,
        Nat.sub_self, List.drop_zero]
      have hdrop : (part.2.drop (filled - part.1)).length = part.1 + kPartSize - filled := by
        rw [List.length_drop, hwhole]
        omega
      have hthis : (part.2.drop (filled - part.1)).take (till - filled)
          = part.2.drop (filled - part.1) := List.take_of_length_le (by omega)
      have hthen : till - filled - (part.1 + kPartSize - filled) = till - (part.1 + kPartSize) := by
        omega
      rw [List.drop_append_of_le_length (by omega), List.take_append,
        List.take_of_length_le hdrop.le, hthis, hdrop, hthen]

/-- **Parts of a file without a gap are bytes of the file.** -/
theorem Consecutive.flatMap_eq (h : Consecutive start entries) {base : ℕ}
    (hfile : ∀ part ∈ entries, part.2 = (file.drop (base + part.1)).take kPartSize) :
    entries.flatMap Prod.snd
      = (file.drop (base + start)).take (entries.flatMap Prod.snd).length := by
  induction entries generalizing start with
  | nil => rfl
  | cons part entries ih =>
    obtain ⟨rfl, hpos, hle, hfull, hrest⟩ := h
    have hpart := hfile part List.mem_cons_self
    have hih := ih hrest fun b hb => hfile b (List.mem_cons_of_mem _ hb)
    rw [List.flatMap_cons, List.length_append]
    rcases entries.eq_nil_or_concat with rfl | ⟨init, last, rfl⟩
    · rw [List.flatMap_nil, List.append_nil, List.length_nil, Nat.add_zero]
      have hlength := congrArg List.length hpart
      rw [List.length_take] at hlength
      rw [hlength]
      conv_lhs => rw [hpart]
      rcases Nat.le_total kPartSize (file.drop (base + part.1)).length with hle | hle
      · rw [Nat.min_eq_left hle]
      · rw [Nat.min_eq_right hle, List.take_of_length_le hle, List.take_length]
    · rw [hfull (by simp), List.take_add, ← hpart, List.drop_drop, Nat.add_assoc, ← hih]

/-- What is copied of a whole are bytes of the file. -/
theorem Consecutive.copyLoaded_file (h : Consecutive start entries) (hne : entries ≠ []) {base : ℕ}
    (hfile : ∀ part ∈ entries, part.2 = (file.drop (base + part.1)).take kPartSize)
    (hbefore : ∀ part ∈ entries, part.1 < till) (hstart : start ≤ filled)
    (hfirst : filled < start + kPartSize) (hfilled : filled < till)
    (htill : till ≤ Streaming.findNotLoadedStart entries start) :
    Streaming.copyLoaded till entries filled
      = some ((file.drop (base + filled)).take (till - filled)) := by
  rw [h.findNotLoadedStart] at htill
  rw [h.copyLoaded hne hbefore hstart hfirst hfilled htill, h.flatMap_eq hfile, List.drop_take,
    List.drop_drop, List.take_take, Nat.min_eq_left (by omega)]
  congr 3
  omega

/-! ## What is loaded of a range -/

/-- Nothing is loaded from an offset on, where all parts are after it. -/
theorem findNotLoadedStart_of_lt (h : ∀ part ∈ entries, start < part.1) :
    findNotLoadedStart entries start = start := by
  cases entries with
  | nil => rfl
  | cons part entries =>
    have hpart := h part List.mem_cons_self
    rw [findNotLoadedStart, if_neg (by omega)]

/-- Two parts that overlap are one. -/
theorem eq_of_dvd_of_lt {o : ℕ} (hstart : kPartSize ∣ start) (ho : kPartSize ∣ o) (hle : start ≤ o)
    (hlt : o < start + kPartSize) : start = o := by
  obtain ⟨i, rfl⟩ := hstart
  obtain ⟨j, rfl⟩ := ho
  have hsize : kPartSize = 131072 := rfl
  rw [hsize] at hle hlt ⊢
  omega

/-- **Up to where all is loaded, each part is there.** -/
theorem findNotLoadedStart_covers
    (hparts : ∀ part ∈ entries, kPartSize ∣ part.1 ∧ part.1 < size ∧
      part.2.length = min kPartSize (size - part.1))
    (hstart : kPartSize ∣ start ∨ size ≤ start) :
    start ≤ findNotLoadedStart entries start ∧
      (kPartSize ∣ findNotLoadedStart entries start ∨ size ≤ findNotLoadedStart entries start) ∧
      ∀ o, kPartSize ∣ o → o < size → start ≤ o → o < findNotLoadedStart entries start →
        ∃ part ∈ entries, part.1 = o := by
  induction entries generalizing start with
  | nil => exact ⟨Nat.le_refl _, hstart, fun o _ _ hle hlt => absurd hlt (Nat.not_lt.mpr hle)⟩
  | cons part entries ih =>
    obtain ⟨hdvd, hlt, hlength⟩ := hparts part List.mem_cons_self
    rw [findNotLoadedStart]
    split_ifs with hloaded
    · have hnext : kPartSize ∣ part.1 + part.2.length ∨ size ≤ part.1 + part.2.length := by
        rcases Nat.le_total kPartSize (size - part.1) with hle | hle
        · rw [hlength, Nat.min_eq_left hle]
          exact Or.inl (Nat.dvd_add hdvd (Nat.dvd_refl _))
        · rw [hlength, Nat.min_eq_right hle]
          exact Or.inr (by omega)
      obtain ⟨hle, hend, hcovers⟩ := ih (fun b hb => hparts b (List.mem_cons_of_mem _ hb)) hnext
      refine ⟨hloaded.2.trans hle, hend, fun o ho hsize hstart hlt => ?_⟩
      by_cases hthis : o < part.1 + part.2.length
      · exact ⟨part, List.mem_cons_self, eq_of_dvd_of_lt hdvd ho (hloaded.1.trans hstart) (by omega)⟩
      · obtain ⟨b, hb, rfl⟩ := hcovers o ho hsize (Nat.le_of_not_lt hthis) hlt
        exact ⟨b, List.mem_cons_of_mem _ hb, rfl⟩
    · exact ⟨Nat.le_refl _, hstart, fun o _ _ hle hlt => absurd hlt (Nat.not_lt.mpr hle)⟩

/-- The last part that starts at an offset or before it, with all after it. -/
theorem drop_countP (hsorted : entries.Pairwise fun a b => a.1 < b.1)
    (hcount : entries.countP (·.1 ≤ start) ≠ 0) :
    ∃ part rest, entries.drop (entries.countP (·.1 ≤ start) - 1) = part :: rest ∧
      part.1 ≤ start ∧ ∀ b ∈ rest, start < b.1 := by
  induction entries with
  | nil => exact absurd rfl hcount
  | cons part entries ih =>
    obtain ⟨hpart, hsorted⟩ := List.pairwise_cons.mp hsorted
    by_cases hle : part.1 ≤ start
    · have hsucc : (part :: entries).countP (·.1 ≤ start) = entries.countP (·.1 ≤ start) + 1 :=
        List.countP_cons_of_pos (decide_eq_true hle)
      rw [hsucc, Nat.add_sub_cancel]
      by_cases hzero : entries.countP (·.1 ≤ start) = 0
      · rw [hzero]
        refine ⟨part, entries, rfl, hle, fun b hb => Nat.lt_of_not_le fun hb' => ?_⟩
        exact List.countP_eq_zero.mp hzero b hb (decide_eq_true hb')
      · obtain ⟨a, rest, heq, hrest⟩ := ih hsorted hzero
        refine ⟨a, rest, ?_, hrest⟩
        obtain ⟨m, hm⟩ := Nat.exists_eq_succ_of_ne_zero hzero
        rw [hm] at heq ⊢
        exact heq
    · refine absurd (List.countP_eq_zero.mpr fun b hb hb' => hle ?_) hcount
      rcases List.mem_cons.mp hb with rfl | hb
      · exact of_decide_eq_true hb'
      · exact (hpart b hb).le.trans (of_decide_eq_true hb')

/-- Where the part of an offset starts. -/
def partStart (offset : ℕ) : ℕ := offset / kPartSize * kPartSize

theorem partStart_le (offset : ℕ) : partStart offset ≤ offset := Nat.div_mul_le_self _ _

theorem lt_partStart_add (offset : ℕ) : offset < partStart offset + kPartSize := by
  have hdiv := Nat.div_add_mod' offset kPartSize
  have hmod := Nat.mod_lt offset (show 0 < kPartSize by decide)
  rw [partStart]
  omega

theorem dvd_partStart (offset : ℕ) : kPartSize ∣ partStart offset := Dvd.intro_left _ rfl

variable {slice : Slice} {from' : ℕ}

/-- What is ready to be read of a slice: parts from the one of the offset on, without a gap, and up
to the end of what is read. -/
structure Ready (from' till : ℕ) (entries : List (ℕ × Bytes)) : Prop where
  consecutive : Consecutive (partStart from') entries
  ne_nil : entries ≠ []
  before : ∀ part ∈ entries, part.1 < till
  loaded : till ≤ findNotLoadedStart entries (partStart from')

/-- **What is ready has no gap.** -/
theorem Holds.prepareFill_ready (h : Holds size loads n slice.parts) (hlt : from' < till)
    (hready : (slice.prepareFill from' till).ready = true) :
    Ready from' till (slice.prepareFill from' till).parts := by
  unfold Slice.prepareFill at hready ⊢
  dsimp only at hready ⊢
  split_ifs at hready ⊢ with hcount hhave
  obtain ⟨part, rest, hdrop, hpart, hrest⟩ := drop_countP slice.parts.sorted hcount
  have hparts : Slice.partsBetween slice.parts from' till = part :: rest.filter (·.1 < till) := by
    rw [Slice.partsBetween, hdrop]
    exact List.filter_cons_of_pos (decide_eq_true (hpart.trans_lt hlt))
  have hloaded := Nat.le_of_not_lt hhave
  rw [hparts] at hloaded ⊢
  have hmem : ∀ b ∈ part :: rest.filter (·.1 < till), b ∈ slice.parts.entries := fun b hb => by
    rw [← hparts] at hb
    exact List.mem_of_mem_drop (List.mem_filter.mp hb).1
  have hbefore : ∀ b ∈ part :: rest.filter (·.1 < till), b.1 < till := fun b hb => by
    rw [← hparts] at hb
    exact of_decide_eq_true (List.mem_filter.mp hb).2
  have hafter : ∀ b ∈ rest.filter (·.1 < till), from' < b.1 := fun b hb =>
    hrest b (List.mem_filter.mp hb).1
  -- A first part that ends where the wanted one starts is followed by what starts after the offset.
  have hfirst : partStart from' ≤ part.1 := by
    by_contra hbefore
    have hend : part.1 + kPartSize ≤ partStart from' := by
      refine Nat.le_of_lt_add_of_dvd (by omega) ?_ (dvd_partStart from')
      exact Nat.dvd_add (h part (hmem part List.mem_cons_self)).1 (Nat.dvd_refl _)
    have hlength := (h part (hmem part List.mem_cons_self)).2.2.1
    have hle := partStart_le from'
    have hnext : findNotLoadedStart (part :: rest.filter (·.1 < till)) (partStart from')
        = partStart from' := by
      rw [findNotLoadedStart]
      split_ifs with hloaded
      · have heq : part.1 + part.2.length = partStart from' := by omega
        rw [heq]
        exact findNotLoadedStart_of_lt fun b hb => hle.trans_lt (hafter b hb)
      · rfl
    rw [partStart] at hnext hle
    omega
  have hsorted : (part :: rest.filter (·.1 < till)).Pairwise fun a b => a.1 < b.1 := by
    rw [← hparts, Slice.partsBetween]
    exact (slice.parts.sorted.sublist (List.drop_sublist _ _)).filter _
  refine ⟨consecutive_of_findNotLoadedStart hsorted
    (fun b hb => ⟨(h b (hmem b hb)).1, (h b (hmem b hb)).2.1, (h b (hmem b hb)).2.2.1⟩)
    (dvd_partStart from') (fun b hb => ?_) fun last hlast => ?_, by simp, hbefore, hloaded⟩
  · rcases List.mem_cons.mp hb with rfl | hb
    · exact hfirst
    · exact (partStart_le from').trans (hafter b hb).le
  · exact (hbefore last (List.mem_of_getLast? hlast)).trans_le hloaded

/-! ## What is asked for -/

/-- **An offset is asked for**, or as many before it as may be. -/
def AskedFor (o : ℕ) (offsets : List ℕ) : Prop :=
  o ∈ offsets ∨ offsets.length = kLoadFromRemoteMax ∧ ∀ x ∈ offsets, x < o

/-- All offsets of parts that are missing from one on, before another. -/
def missingOffsets (parts : PartsMap) (till : ℕ) : ℕ → ℕ → List ℕ
  | 0, _ => []
  | rounds + 1, offset =>
    if till ≤ offset then []
    else if parts.contains offset then missingOffsets parts till rounds (offset + kPartSize)
    else offset :: missingOffsets parts till rounds (offset + kPartSize)

/-- A vector that is full takes no more. -/
theorem take_append_singleton {k : ℕ} {l rest : List ℕ} {x : ℕ} (hl : l.length ≤ k) :
    (l ++ x :: rest).take k = (if l.length < k then ((l ++ [x]) ++ rest).take k else l) := by
  split_ifs with hroom
  · rw [List.append_assoc, List.singleton_append]
  · rw [List.take_append_of_le_length (by omega), List.take_of_length_le (by omega)]

/-- **The loop of `offsetsFromLoader` takes the first of what is missing.** -/
theorem offsetsFromLoaderLoop_eq {rounds : ℕ} {l : List ℕ} (hl : l.length ≤ kLoadFromRemoteMax) :
    Slice.offsetsFromLoaderLoop parts till rounds offset l
      = (l ++ missingOffsets parts till rounds offset).take kLoadFromRemoteMax := by
  induction rounds generalizing offset l with
  | zero =>
    rw [Slice.offsetsFromLoaderLoop, missingOffsets, List.append_nil, List.take_of_length_le hl]
  | succ rounds ih =>
    rw [Slice.offsetsFromLoaderLoop, missingOffsets]
    split_ifs with hend hcontains
    · rw [List.append_nil, List.take_of_length_le hl]
    · exact ih hl
    · rw [take_append_singleton hl, Slice.stackAdd]
      split_ifs with hroom
      · exact ih (by rw [List.length_append, List.length_singleton]; exact hroom)
      · rfl

theorem missingOffsets_sorted {rounds : ℕ} :
    (missingOffsets parts till rounds offset).Pairwise (· < ·) ∧
      ∀ o ∈ missingOffsets parts till rounds offset, offset ≤ o := by
  have hsize : 0 < kPartSize := by decide
  induction rounds generalizing offset with
  | zero => exact ⟨List.Pairwise.nil, fun _ h => absurd h List.not_mem_nil⟩
  | succ rounds ih =>
    obtain ⟨hsorted, hle⟩ := @ih (offset + kPartSize)
    rw [missingOffsets]
    split_ifs
    · exact ⟨List.Pairwise.nil, fun _ h => absurd h List.not_mem_nil⟩
    · exact ⟨hsorted, fun o ho => (Nat.le_add_right _ _).trans (hle o ho)⟩
    · refine ⟨List.pairwise_cons.mpr ⟨fun o ho => ?_, hsorted⟩, fun o ho => ?_⟩
      · exact (Nat.lt_add_of_pos_right hsize).trans_le (hle o ho)
      · rcases List.mem_cons.mp ho with rfl | ho
        · exact Nat.le_refl _
        · exact (Nat.le_add_right _ _).trans (hle o ho)

/-- **Every part that is missing is of them.** -/
theorem mem_missingOffsets {rounds o : ℕ} (hoffset : kPartSize ∣ offset) (ho : kPartSize ∣ o)
    (hle : offset ≤ o) (htill : o < till) (hrounds : o < offset + rounds * kPartSize)
    (hmissing : parts.contains o = false) : o ∈ missingOffsets parts till rounds offset := by
  induction rounds generalizing offset with
  | zero => omega
  | succ rounds ih =>
    have hnext : o ≠ offset → offset + kPartSize ≤ o := fun hne => by
      by_contra hlt
      exact hne (eq_of_dvd_of_lt hoffset ho hle (Nat.lt_of_not_le hlt)).symm
    have hdvd : kPartSize ∣ offset + kPartSize := Nat.dvd_add hoffset (Nat.dvd_refl _)
    have hrest : o < offset + kPartSize + rounds * kPartSize := by
      rw [Nat.succ_mul] at hrounds
      omega
    rw [missingOffsets, if_neg (by omega)]
    split_ifs with hcontains
    · refine ih hdvd (hnext fun heq => ?_) hrest
      rw [heq, hcontains] at hmissing
      exact absurd hmissing (by decide)
    · by_cases heq : o = offset
      · rw [heq]
        exact List.mem_cons_self
      · exact List.mem_cons_of_mem _ (ih hdvd (hnext heq) hrest)

/-- What is taken of offsets in their order asks for each of them. -/
theorem AskedFor.take {o : ℕ} {l : List ℕ} (hsorted : l.Pairwise (· < ·)) (ho : o ∈ l) :
    AskedFor o (l.take kLoadFromRemoteMax) := by
  obtain ⟨i, hi, rfl⟩ := List.mem_iff_getElem.mp ho
  by_cases hlt : i < kLoadFromRemoteMax
  · exact Or.inl (List.mem_take_iff_getElem.mpr ⟨i, lt_min hlt hi, rfl⟩)
  · refine Or.inr ⟨by rw [List.length_take]; omega, fun x hx => ?_⟩
    obtain ⟨j, hj, rfl⟩ := List.mem_take_iff_getElem.mp hx
    exact List.pairwise_iff_getElem.mp hsorted j i _ hi (by omega)

/-- **Offsets that are wanted are added up to the end of the vector.** -/
theorem foldl_addOr {f : ℕ → ℕ} {p : ℕ → Prop} [DecidablePred p] {l xs : List ℕ}
    (hl : l.length ≤ kLoadFromRemoteMax) :
    xs.foldl (fun offsets x =>
        if p x then Slices.addOr kLoadFromRemoteMax offsets (f x) else offsets) l
      = (l ++ (xs.filter p).map f).take kLoadFromRemoteMax := by
  induction xs generalizing l with
  | nil => rw [List.foldl_nil, List.filter_nil, List.map_nil, List.append_nil,
      List.take_of_length_le hl]
  | cons x xs ih =>
    rw [List.foldl_cons]
    split_ifs with hp
    · have hfilter : (x :: xs).filter p = x :: xs.filter p :=
        List.filter_cons_of_pos (decide_eq_true hp)
      rw [hfilter, List.map_cons, take_append_singleton hl, Slices.addOr, Slice.stackAdd]
      split_ifs with hroom
      · rw [Option.getD_some]
        exact ih (by rw [List.length_append, List.length_singleton]; exact hroom)
      · rw [Option.getD_none, ih hl, List.take_append_of_le_length (by omega),
          List.take_of_length_le hl]
    · rw [List.filter_cons_of_neg (by simpa using hp)]
      exact ih hl

/-- **What one slice asks for is asked for in the file**, after what others before it ask for. -/
theorem AskedFor.add {f : ℕ → ℕ} {p : ℕ → Prop} [DecidablePred p] {l xs : List ℕ} {o : ℕ}
    (h : AskedFor o xs) (hxs : xs.Pairwise (· < ·)) (hf : StrictMono f)
    (hp : p o) (hdown : ∀ x, x < o → p x) (hsorted : l.Pairwise (· < ·))
    (hbefore : ∀ y ∈ l, ∀ x, y < f x) :
    AskedFor (f o) ((l ++ (xs.filter p).map f).take kLoadFromRemoteMax) := by
  rcases h with hmem | ⟨hlength, hlt⟩
  · refine AskedFor.take (List.pairwise_append.mpr ⟨hsorted, ?_, fun y hy z hz => ?_⟩) ?_
    · exact List.pairwise_map.mpr ((hxs.filter p).imp fun hab => hf hab)
    · obtain ⟨x, -, rfl⟩ := List.mem_map.mp hz
      exact hbefore y hy x
    · exact List.mem_append_right _ (List.mem_map_of_mem (List.mem_filter.mpr
        ⟨hmem, decide_eq_true hp⟩))
  · have hall : xs.filter p = xs := List.filter_eq_self.mpr fun x hx =>
      decide_eq_true (hdown x (hlt x hx))
    refine Or.inr ⟨?_, fun y hy => ?_⟩
    · rw [List.length_take, List.length_append, hall, List.length_map, hlength]
      omega
    · rcases List.mem_append.mp (List.mem_of_mem_take hy) with hy | hy
      · exact hbefore y hy o
      · rw [hall] at hy
        obtain ⟨x, hx, rfl⟩ := List.mem_map.mp hy
        exact hf (hlt x hx)

/-- What is asked for stays so when others are added. -/
theorem AskedFor.append {o : ℕ} {l rest : List ℕ} (h : AskedFor o l)
    (hl : l.length ≤ kLoadFromRemoteMax) : AskedFor o ((l ++ rest).take kLoadFromRemoteMax) := by
  rcases h with hmem | ⟨hlength, hlt⟩
  · refine Or.inl ?_
    rw [List.take_append, List.take_of_length_le hl]
    exact List.mem_append_left _ hmem
  · rw [List.take_append_of_le_length hlength.ge, List.take_of_length_le hl]
    exact Or.inr ⟨hlength, hlt⟩

/-- What is asked for of a slice is in order, and at most as much as may be. -/
theorem prepareFill_sorted :
    (slice.prepareFill from' till).offsetsFromLoader.Pairwise (· < ·) ∧
      (slice.prepareFill from' till).offsetsFromLoader.length ≤ kLoadFromRemoteMax := by
  have hloader : ∀ a b, (slice.offsetsFromLoader a b).Pairwise (· < ·) ∧
      (slice.offsetsFromLoader a b).length ≤ kLoadFromRemoteMax := fun a b => by
    rw [Slice.offsetsFromLoader, offsetsFromLoaderLoop_eq (Nat.zero_le _), List.nil_append]
    exact ⟨missingOffsets_sorted.1.sublist (List.take_sublist _ _), List.length_take_le _ _⟩
  unfold Slice.prepareFill
  dsimp only
  split_ifs
  · exact hloader _ _
  · exact hloader _ _
  · exact hloader _ _

/-- **A part of the range that is missing is asked for**, and nothing is ready. -/
theorem Holds.prepareFill_missing {o : ℕ} (h : Holds size loads n slice.parts)
    (htill : till ≤ maxSliceSize n size) (ho : kPartSize ∣ o) (hfrom : partStart from' ≤ o)
    (hlt : o < till) (hmissing : slice.parts.contains o = false) :
    (slice.prepareFill from' till).ready = false ∧
      AskedFor o (slice.prepareFill from' till).offsetsFromLoader := by
  have hasked : ∀ start, kPartSize ∣ start → start ≤ o → AskedFor o (slice.offsetsFromLoader start
      (((till + kPartSize - 1) / kPartSize + kPreloadPartsAhead) * kPartSize)) := by
    intro start hstart hle
    have hpreload : till ≤ ((till + kPartSize - 1) / kPartSize + kPreloadPartsAhead) * kPartSize := by
      have hsize : kPartSize = 131072 := rfl
      have hahead : kPreloadPartsAhead = 8 := rfl
      rw [hsize, hahead]
      omega
    generalize ((till + kPartSize - 1) / kPartSize + kPreloadPartsAhead) * kPartSize = preload
      at hpreload
    rw [Slice.offsetsFromLoader, offsetsFromLoaderLoop_eq (Nat.zero_le _), List.nil_append]
    refine AskedFor.take missingOffsets_sorted.1 (mem_missingOffsets hstart ho hle
      (hlt.trans_le hpreload) ?_ hmissing)
    have hmul : preload * 1 ≤ preload * kPartSize := Nat.mul_le_mul_left _ (by decide)
    omega
  have hparts : ∀ part ∈ Slice.partsBetween slice.parts from' till, kPartSize ∣ part.1 ∧
      part.1 < maxSliceSize n size ∧ part.2.length = min kPartSize (maxSliceSize n size - part.1) := by
    intro part hpart
    have hpart := h part (List.mem_of_mem_drop (List.mem_filter.mp hpart).1)
    exact ⟨hpart.1, hpart.2.1, hpart.2.2.1⟩
  obtain ⟨-, hend, hcovers⟩ := findNotLoadedStart_covers hparts (Or.inl (dvd_partStart from'))
  have hhave : findNotLoadedStart (Slice.partsBetween slice.parts from' till) (partStart from') ≤ o := by
    by_contra hbefore
    obtain ⟨part, hpart, rfl⟩ := hcovers o ho (hlt.trans_le htill) hfrom (Nat.lt_of_not_le hbefore)
    have hmem := List.mem_of_mem_drop (List.mem_filter.mp hpart).1
    have hfound := FlatMap.contains_iff.mpr ⟨_, FlatMap.find?_eq_some.mpr hmem⟩
    exact absurd hfound (by simp [hmissing])
  have hwhole := hend.resolve_right (by omega)
  unfold Slice.prepareFill
  dsimp only
  rw [partStart] at hhave hwhole
  split_ifs with hcount
  · exact ⟨rfl, hasked _ (dvd_partStart from') hfrom⟩
  · exact ⟨rfl, hasked _ hwhole hhave⟩
  · omega

variable {count : ℕ}

/-! ## From the slices of a range -/

/-- What is loaded for an offset are bytes of the file. -/
def fileLoads (file : Bytes) (offset : ℕ) (bytes : Bytes) : Prop :=
  bytes = (file.drop offset).take kPartSize

/-- **What is ready of a slice is copied**, and it is what the file has there. -/
theorem Holds.copyLoaded (h : Holds size (fileLoads file) n slice.parts) (hlt : from' < till)
    (hready : (slice.prepareFill from' till).ready = true) :
    copyLoaded till (slice.prepareFill from' till).parts from'
      = some ((file.drop (sliceStart n + from')).take (till - from')) := by
  obtain ⟨hconsecutive, hne, hbefore, hloaded⟩ := h.prepareFill_ready hlt hready
  exact hconsecutive.copyLoaded_file hne
    (fun part hpart => (h part (Slice.prepareFill_subset hpart)).2.2.2) hbefore (partStart_le from')
    (lt_partStart_add from') hlt hloaded

namespace Slices

/-- What is read of the slice that a range starts in. -/
def firstRead (s : Slices) (offset count : ℕ) : Slice.PrepareFillResult :=
  (s.data.getD (offset / kInSlice) .empty).prepareFill (offset - offset / kInSlice * kInSlice)
    (min kInSlice (offset + count - offset / kInSlice * kInSlice))

/-- What is read of the next slice. -/
def secondRead (s : Slices) (offset count : ℕ) : Slice.PrepareFillResult :=
  (s.data.getD (offset / kInSlice + 1) .empty).prepareFill 0
    (offset + count - (offset / kInSlice + 1) * kInSlice)

/-- Where the slices of a range end. -/
def tillSlice (offset count : ℕ) : ℕ := (offset + count + kInSlice - 1) % 2 ^ 32 / kInSlice

/-- The assertion about the slices of a range. -/
def InSlices (s : Slices) (offset count : ℕ) : Prop :=
  (offset / kInSlice + 1 = tillSlice offset count ∨ offset / kInSlice + 2 = tillSlice offset count) ∧
    tillSlice offset count ≤ s.data.length

/-- What is asked for of the slices of a range. -/
def asked (s : Slices) (offset count : ℕ) : List ℕ :=
  if offset / kInSlice + 1 < tillSlice offset count then
    s.handlePrepareResult (offset / kInSlice + 1) (s.secondRead offset count)
      (s.handlePrepareResult (offset / kInSlice) (s.firstRead offset count) [])
  else s.handlePrepareResult (offset / kInSlice) (s.firstRead offset count) []

/-- The header is waited for. -/
def AwaitsHeader (s : Slices) : Prop :=
  s.headerMode ≠ .noCache ∧ s.header.loadedFromCache = false ∧ s.header.loadingFromCache = true

/-- What is copied from the slices of a range. -/
def Copied (s : Slices) (offset count : ℕ) (buffer : Bytes) : Prop :=
  ∃ first, copyLoaded (min kInSlice (offset + count - offset / kInSlice * kInSlice))
      (s.firstRead offset count).parts (offset - offset / kInSlice * kInSlice) = some first ∧
    (offset / kInSlice + 1 < tillSlice offset count ∧ (s.secondRead offset count).ready = true ∧
        (∃ second, copyLoaded (offset + count - (offset / kInSlice + 1) * kInSlice)
          (s.secondRead offset count).parts 0 = some second ∧ buffer = first ++ second) ∨
      ¬offset / kInSlice + 1 < tillSlice offset count ∧ buffer = first)

/-- What a fill from slices that are not ready waits for. -/
def awaits (s : Slices) (offset count : ℕ) : Slices × FillResult :=
  let first := s.handleReadFromCache (offset / kInSlice)
    ⟨[], s.asked offset count, none, .waitingRemote, []⟩
  if offset / kInSlice + 1 < tillSlice offset count then
    first.1.handleReadFromCache (offset / kInSlice + 1) first.2
  else first

/-- Nothing is put to a slice by what is kept in the header. -/
theorem addToHeader_data {i : ℕ} (h : s.addToHeader i entries = some s') : s'.data = s.data := by
  unfold addToHeader at h
  split_ifs at h with hmode
  · rw [Option.some.inj h]
  · clear hmode
    induction entries generalizing s with
    | nil => rw [Option.some.inj h]
    | cons part entries ih =>
      rw [List.foldlM_cons] at h
      obtain ⟨s₁, hadd, hrest⟩ := Option.bind_eq_some_iff.mp h
      refine (ih hrest).trans ?_
      dsimp only at hadd
      split_ifs at hadd
      · obtain ⟨header, -, rfl⟩ := Option.map_eq_some_iff.mp hadd
        rfl
      · rw [Option.some.inj hadd]

/-- **What a fill may do.** -/
theorem fill_cases {filled : FillResult} (h : s.fill offset count = some (s', filled)) :
    0 < count ∧ offset + count ≤ s.size ∧
      (s.AwaitsHeader ∧ filled = .waiting ∧ s' = s ∨
        isFullInHeader s.size = true ∧ s.fillFromHeader offset count = some filled ∧ s' = s ∨
        isFullInHeader s.size = false ∧ s.InSlices offset count ∧
          (filled.state = .success ∧ (s.firstRead offset count).ready = true ∧
              s.Copied offset count filled.buffer ∧
              (∃ s₁ : Slices, s₁.data = s.data ∧
                s₁.serializeAndUnloadUnused = some (s', filled.toCache)) ∨
            ((s.firstRead offset count).ready = false ∨
                offset / kInSlice + 1 < tillSlice offset count ∧
                  (s.secondRead offset count).ready = false) ∧
              (s', filled) = s.awaits offset count)) := by
  unfold fill at h
  rw [Option.ite_none_left_eq_some] at h
  obtain ⟨hrequest, h⟩ := h
  refine ⟨by omega, by omega, ?_⟩
  split_ifs at h with hheader hloading hfull
  · obtain ⟨rfl, rfl⟩ := Prod.mk.inj (Option.some.inj h)
    exact Or.inl ⟨⟨hheader.1, Bool.not_eq_true _ ▸ hheader.2, hloading⟩, rfl, rfl⟩
  · obtain ⟨filled', hfilled, heq⟩ := Option.map_eq_some_iff.mp h
    obtain ⟨rfl, rfl⟩ := Prod.mk.inj heq
    exact Or.inr (Or.inl ⟨hfull, hfilled, rfl⟩)
  · refine Or.inr (Or.inr ⟨Bool.not_eq_true _ ▸ hfull, ?_⟩)
    dsimp only at h
    rw [Option.ite_none_left_eq_some, not_not] at h
    obtain ⟨hslices, h⟩ := h
    refine ⟨hslices, ?_⟩
    split_ifs at h with hsecond hready hready
    · obtain ⟨first, hfirst, h⟩ := Option.bind_eq_some_iff.mp h
      obtain ⟨s₁, hadd, h⟩ := Option.bind_eq_some_iff.mp h
      obtain ⟨second, hcopy, h⟩ := Option.bind_eq_some_iff.mp h
      obtain ⟨s₂, hadd', h⟩ := Option.bind_eq_some_iff.mp h
      obtain ⟨_, hcopied, h⟩ := Option.bind_eq_some_iff.mp h
      obtain rfl := Option.some.inj hcopied
      obtain ⟨_, hunload, h⟩ := Option.bind_eq_some_iff.mp h
      obtain ⟨rfl, rfl⟩ := Prod.mk.inj (Option.some.inj h)
      have hdata := addToHeader_data hadd
      have hdata' := addToHeader_data hadd'
      exact Or.inl ⟨rfl, hready.1, ⟨first, hfirst, Or.inl ⟨hsecond, hready.2, second, hcopy, rfl⟩⟩,
        s₂, hdata'.trans hdata, hunload⟩
    · refine Or.inr ⟨?_, ?_⟩
      · rcases not_and_or.mp hready with hfirst | hnext
        · exact Or.inl (Bool.not_eq_true _ ▸ hfirst)
        · exact Or.inr ⟨hsecond, Bool.not_eq_true _ ▸ hnext⟩
      · have htwo : offset / kInSlice + 1 < tillSlice offset count := hsecond
        rw [awaits, asked, if_pos htwo, if_pos htwo]
        exact (Option.some.inj h).symm
    · obtain ⟨first, hfirst, h⟩ := Option.bind_eq_some_iff.mp h
      obtain ⟨s₁, hadd, h⟩ := Option.bind_eq_some_iff.mp h
      obtain ⟨_, hcopied, h⟩ := Option.bind_eq_some_iff.mp h
      obtain rfl := Option.some.inj hcopied
      obtain ⟨_, hunload, h⟩ := Option.bind_eq_some_iff.mp h
      obtain ⟨rfl, rfl⟩ := Prod.mk.inj (Option.some.inj h)
      have hdata := addToHeader_data hadd
      exact Or.inl ⟨rfl, hready.1, ⟨first, hfirst, Or.inr ⟨hsecond, rfl⟩⟩, s₁, hdata, hunload⟩
    · refine Or.inr ⟨?_, ?_⟩
      · refine Or.inl (Bool.not_eq_true _ ▸ fun hfirst => hready ⟨hfirst, rfl⟩)
      · have hone : ¬offset / kInSlice + 1 < tillSlice offset count := hsecond
        rw [awaits, asked, if_neg hone, if_neg hone]
        exact (Option.some.inj h).symm

end Slices

open Slices

theorem Valid.getD (hv : Valid loads s) (i : ℕ) :
    Holds s.size loads (i + 1) (s.data.getD i .empty).parts := by
  rw [List.getD_eq_getElem?_getD]
  cases hslice : s.data[i]? with
  | none => exact Holds.empty
  | some slice => exact hv.slices i slice hslice

/-- Where a range is in its slices. -/
theorem Slices.InSlices.bounds (h : s.InSlices offset count) (hsize : s.size < 2 ^ 32)
    (hcount : 0 < count) (hend : offset + count ≤ s.size) :
    offset / kInSlice * kInSlice ≤ offset ∧ offset < (offset / kInSlice + 1) * kInSlice ∧
      offset / kInSlice < s.data.length ∧
      (¬offset / kInSlice + 1 < tillSlice offset count →
        offset + count ≤ (offset / kInSlice + 1) * kInSlice) ∧
      (offset / kInSlice + 1 < tillSlice offset count →
        (offset / kInSlice + 1) * kInSlice < offset + count ∧
          offset + count ≤ (offset / kInSlice + 2) * kInSlice ∧
          offset / kInSlice + 1 < s.data.length) := by
  obtain ⟨hslices, hlength⟩ := h
  have hslice : kInSlice = 8388608 := rfl
  unfold tillSlice at hslices hlength ⊢
  rw [hslice] at hslices hlength ⊢
  omega

/-- **What was copied from the slices is what the file has there.** -/
theorem Slices.Copied.eq {buffer : Bytes} (h : s.Copied offset count buffer)
    (hv : Valid (fileLoads file) s) (hcount : 0 < count) (hend : offset + count ≤ s.size)
    (hslices : s.InSlices offset count) (hready : (s.firstRead offset count).ready = true) :
    buffer = (file.drop offset).take count := by
  obtain ⟨hstart, hnext, -, hone, htwo⟩ := hslices.bounds hv.size hcount hend
  have hzero : ∀ i, sliceStart (i + 1) = i * kInSlice := fun _ => rfl
  have hmul : (offset / kInSlice + 1) * kInSlice = offset / kInSlice * kInSlice + kInSlice :=
    Nat.succ_mul _ _
  have hfirstLt : offset - offset / kInSlice * kInSlice
      < min kInSlice (offset + count - offset / kInSlice * kInSlice) := by
    generalize offset / kInSlice * kInSlice = start at *
    omega
  obtain ⟨first, hfirst, hcopied⟩ := h
  rw [firstRead, (hv.getD _).copyLoaded hfirstLt hready, Option.some.injEq, hzero,
    Nat.add_sub_cancel' hstart] at hfirst
  rcases hcopied with ⟨hsecond, hready', second, hcopy, rfl⟩ | ⟨hsecond, rfl⟩
  · obtain ⟨hlt, -⟩ := htwo hsecond
    rw [secondRead, (hv.getD _).copyLoaded (Nat.sub_pos_of_lt hlt) hready', Option.some.injEq, hzero,
      Nat.sub_zero] at hcopy
    generalize (offset / kInSlice + 1) * kInSlice = next at *
    rw [Nat.add_zero] at hcopy
    generalize offset / kInSlice * kInSlice = start at *
    have hfull : min kInSlice (offset + count - start) - (offset - start) = next - offset := by omega
    obtain ⟨rest, rfl⟩ : ∃ rest, next = offset + rest := ⟨next - offset, by omega⟩
    obtain ⟨more, rfl⟩ : ∃ more, count = rest + more := ⟨count - rest, by omega⟩
    rw [← hfirst, ← hcopy, hfull, List.take_add, List.drop_drop, Nat.add_sub_cancel_left,
      ← Nat.add_assoc, Nat.add_sub_cancel_left]
  · have hle := hone hsecond
    rw [hmul] at hle
    generalize offset / kInSlice * kInSlice = start at *
    have hall : min kInSlice (offset + count - start) - (offset - start) = count := by omega
    rw [← hfirst, hall]

/-! ## What is missing is asked for -/

/-- The part of the file that starts at an offset is missing where it is read from. -/
def Slices.missing (s : Slices) (o : ℕ) : Bool :=
  if isFullInHeader s.size then !s.header.parts.contains o
  else !(s.data.getD (o / kInSlice) .empty).parts.contains (o % kInSlice)

/-- What a slice asks for that was read from the cache, or that is not to be. -/
theorem handlePrepareResult_eq {i : ℕ} {prepared : Slice.PrepareFillResult} {l : List ℕ}
    (hl : l.length ≤ kLoadFromRemoteMax) (hcache : s.cacheNotLoaded i = false) :
    s.handlePrepareResult i prepared l
      = (l ++ (prepared.offsetsFromLoader.filter
          fun x => x < kInSlice ∧ x + i * kInSlice < s.size).map (· + i * kInSlice)).take
            kLoadFromRemoteMax := by
  rw [handlePrepareResult, if_neg (by simp [hcache])]
  exact foldl_addOr hl

/-- What the first slice asks for is before the next one. -/
theorem handlePrepareResult_nil {i : ℕ} :
    (s.handlePrepareResult i (slice.prepareFill from' till) []).Pairwise (· < ·) ∧
      (s.handlePrepareResult i (slice.prepareFill from' till) []).length ≤ kLoadFromRemoteMax ∧
      ∀ y ∈ s.handlePrepareResult i (slice.prepareFill from' till) [], y < (i + 1) * kInSlice := by
  cases hcache : s.cacheNotLoaded i with
  | true =>
    rw [handlePrepareResult, if_pos hcache]
    exact ⟨List.Pairwise.nil, Nat.zero_le _, fun _ h => absurd h List.not_mem_nil⟩
  | false =>
    rw [handlePrepareResult_eq (Nat.zero_le _) hcache, List.nil_append]
    refine ⟨?_, List.length_take_le _ _, fun y hy => ?_⟩
    · refine List.Pairwise.sublist (List.take_sublist _ _) (List.pairwise_map.mpr ?_)
      exact (prepareFill_sorted.1.filter _).imp fun hab => Nat.add_lt_add_right hab _
    · obtain ⟨x, hx, rfl⟩ := List.mem_map.mp (List.mem_of_mem_take hy)
      have hlt := (of_decide_eq_true (List.mem_filter.mp hx).2).1
      rw [Nat.succ_mul, Nat.add_comm]
      exact Nat.add_lt_add_left hlt _

/-- A part that a slice asks for, after what the slices before it do. -/
theorem Valid.handlePrepareResult (hv : Valid loads s) {i o : ℕ} {l : List ℕ}
    (hi : i < s.data.length) (htill : i * kInSlice + till ≤ s.size) (hslice : till ≤ kInSlice)
    (ho : kPartSize ∣ o) (hfrom : i * kInSlice + partStart from' ≤ o) (hlt : o < i * kInSlice + till)
    (hmissing : s.missing o = true) (hcache : s.cacheNotLoaded (o / kInSlice) = false)
    (hl : l.length ≤ kLoadFromRemoteMax) (hsorted : l.Pairwise (· < ·))
    (hbefore : ∀ y ∈ l, y < i * kInSlice) :
    AskedFor o (s.handlePrepareResult i ((s.data.getD i .empty).prepareFill from' till) l) := by
  obtain ⟨hfull, hcount⟩ := hv.index (List.getElem?_eq_getElem hi)
  have hindex : o / kInSlice = i := by
    refine Nat.div_eq_of_lt_le ((Nat.le_add_right _ _).trans hfrom) ?_
    rw [Nat.succ_mul]
    exact hlt.trans_le (Nat.add_le_add_left hslice _)
  have hmod := Nat.mod_add_div' o kInSlice
  rw [hindex] at hmod hcache
  rw [missing, if_neg (by simp [hfull]), Bool.not_eq_true', hindex] at hmissing
  have hmax : till ≤ maxSliceSize (i + 1) s.size := by
    rw [(maxSliceSize_eq hv.size (Nat.succ_pos i) hcount).2]
    exact le_min hslice (Nat.le_sub_of_add_le' htill)
  have hdvd : kPartSize ∣ o % kInSlice := (Nat.dvd_mod_iff kPartSize_dvd_kInSlice).mpr ho
  rw [handlePrepareResult_eq hl hcache]
  have hmono : StrictMono (· + i * kInSlice) := fun a b hab => Nat.add_lt_add_right hab _
  have hbefore' : ∀ y ∈ l, ∀ x, y < x + i * kInSlice := fun y hy x =>
    (hbefore y hy).trans_le (Nat.le_add_left _ _)
  generalize o % kInSlice = rest at *
  generalize i * kInSlice = start at *
  have hpart : partStart from' ≤ rest := by omega
  obtain ⟨-, hasked⟩ := (hv.getD i).prepareFill_missing hmax hdvd hpart (by omega) hmissing
  have hadd : AskedFor (rest + start) _ :=
    hasked.add (p := fun x => x < kInSlice ∧ x + start < s.size) prepareFill_sorted.1 hmono
      ⟨by omega, by omega⟩ (fun x hx => ⟨by omega, by omega⟩) hsorted hbefore'
  rwa [hmod] at hadd

/-- The part of an offset is in the slice of the offset. -/
theorem add_partStart_sub (offset : ℕ) : offset / kInSlice * kInSlice
    + partStart (offset - offset / kInSlice * kInSlice) = partStart offset := by
  have hdvd : kPartSize ∣ offset / kInSlice * kInSlice := kPartSize_dvd_kInSlice.mul_left _
  have hle : offset / kInSlice * kInSlice ≤ offset := Nat.div_mul_le_self _ _
  obtain ⟨m, hm⟩ := hdvd
  rw [hm, Nat.mul_comm kPartSize m] at hle ⊢
  obtain ⟨rest, rfl⟩ := Nat.exists_eq_add_of_le hle
  rw [Nat.add_sub_cancel_left, partStart, partStart, Nat.add_comm (m * kPartSize) rest,
    Nat.add_mul_div_right _ _ (by decide), Nat.add_mul, Nat.add_comm]

/-- **Each part of the range that is missing is asked for**, of the slices that do not wait for the
cache. -/
theorem Valid.asked (hv : Valid loads s) (hcount : 0 < count) (hend : offset + count ≤ s.size)
    (hslices : s.InSlices offset count) {o : ℕ} (ho : kPartSize ∣ o)
    (hfrom : partStart offset ≤ o) (hlt : o < offset + count) (hmissing : s.missing o = true)
    (hcache : s.cacheNotLoaded (o / kInSlice) = false) : AskedFor o (s.asked offset count) := by
  obtain ⟨hstart, hnext, hi, hone, htwo⟩ := hslices.bounds hv.size hcount hend
  have hmul : (offset / kInSlice + 1) * kInSlice = offset / kInSlice * kInSlice + kInSlice :=
    Nat.succ_mul _ _
  have hmul' : (offset / kInSlice + 2) * kInSlice
      = (offset / kInSlice + 1) * kInSlice + kInSlice := Nat.succ_mul _ _
  rw [← add_partStart_sub] at hfrom
  obtain ⟨hsorted, hlength, hbefore⟩ :
      (s.handlePrepareResult (offset / kInSlice) (s.firstRead offset count) []).Pairwise (· < ·) ∧
        (s.handlePrepareResult (offset / kInSlice) (s.firstRead offset count) []).length
          ≤ kLoadFromRemoteMax ∧
        ∀ y ∈ s.handlePrepareResult (offset / kInSlice) (s.firstRead offset count) [],
          y < (offset / kInSlice + 1) * kInSlice := handlePrepareResult_nil
  unfold Slices.asked
  by_cases hfirst : o < (offset / kInSlice + 1) * kInSlice
  · have hasked : AskedFor o (s.handlePrepareResult (offset / kInSlice) (s.firstRead offset count) []) := by
      refine hv.handlePrepareResult hi ?_ (Nat.min_le_left _ _) ho hfrom ?_ hmissing hcache
        (Nat.zero_le _) List.Pairwise.nil (fun _ h => absurd h List.not_mem_nil)
      · generalize offset / kInSlice * kInSlice = start at *
        omega
      · rw [hmul] at hfirst
        generalize offset / kInSlice * kInSlice = start at *
        omega
    split_ifs with hsecond
    · cases hcache' : s.cacheNotLoaded (offset / kInSlice + 1) with
      | true =>
        rw [Slices.handlePrepareResult, if_pos hcache']
        exact hasked
      | false =>
        rw [handlePrepareResult_eq hlength hcache']
        exact hasked.append hlength
    · exact hasked
  · have hsecond : offset / kInSlice + 1 < tillSlice offset count := by
      by_contra hsecond
      exact hfirst (hlt.trans_le (hone hsecond))
    obtain ⟨hstart', hend', hi'⟩ := htwo hsecond
    rw [if_pos hsecond]
    have hzero : partStart 0 = 0 := by rw [partStart, Nat.zero_div, Nat.zero_mul]
    have hle : (offset / kInSlice + 1) * kInSlice + partStart 0 ≤ o := by
      rw [hzero, Nat.add_zero]
      exact Nat.le_of_not_lt hfirst
    rw [hmul'] at hend'
    refine hv.handlePrepareResult hi' ?_ ?_ ho hle ?_ hmissing hcache hlength hsorted hbefore
    · rwa [Nat.add_sub_cancel' hstart'.le]
    · exact Nat.sub_le_of_le_add (hend'.trans (Nat.add_comm _ _).le)
    · rwa [Nat.add_sub_cancel' hstart'.le]

/-! ## What a fill gives -/

/-- The slice is read from the cache. -/
def Slices.reads (s : Slices) (i : ℕ) : Prop :=
  ∃ slice, s.data[i]? = some slice ∧ slice.loadingFromCache = true

/-- **A slice that is not loaded is read from the cache**, and nothing else changes. -/
theorem handleReadFromCache_spec (s : Slices) {i : ℕ} (hi : i < s.data.length) (result : FillResult) :
    (s.handleReadFromCache i result).2.offsetsFromLoader = result.offsetsFromLoader ∧
      (s.cacheNotLoaded i = true → (s.handleReadFromCache i result).2.state = .waitingCache ∧
        (s.handleReadFromCache i result).1.reads i) ∧
      ((s.handleReadFromCache i result).2.state = result.state ∨
        (s.handleReadFromCache i result).2.state = .waitingCache) ∧
      (∀ j, (s.handleReadFromCache i result).1.cacheNotLoaded j = s.cacheNotLoaded j) ∧
      (∀ j, s.reads j → (s.handleReadFromCache i result).1.reads j) ∧
      (s.handleReadFromCache i result).1.data.length = s.data.length := by
  have hslice : s.data[i]? = some s.data[i] := List.getElem?_eq_getElem hi
  unfold handleReadFromCache
  split_ifs with hcache
  · rw [hslice]
    dsimp only
    split_ifs with hloading
    · exact ⟨rfl, fun _ => ⟨rfl, s.data[i], hslice, hloading⟩, Or.inr rfl, fun _ => rfl,
        fun _ h => h, rfl⟩
    · refine ⟨rfl, fun _ => ⟨rfl, _, List.getElem?_set_self hi, rfl⟩, Or.inr rfl, fun j => ?_,
        fun j hj => ?_, List.length_set⟩
      · unfold cacheNotLoaded
        dsimp only
        rw [List.getElem?_set]
        split_ifs with hij
        · rw [← hij, hslice]
          rfl
        · rfl
      · obtain ⟨slice, hslice', hread⟩ := hj
        by_cases hij : i = j
        · rw [← hij]
          exact ⟨_, List.getElem?_set_self hi, rfl⟩
        · refine ⟨slice, ?_, hread⟩
          dsimp only
          rw [List.getElem?_set_ne hij]
          exact hslice'
  · exact ⟨rfl, fun h => absurd h hcache, Or.inl rfl, fun _ => rfl, fun _ h => h, rfl⟩

/-- What a fill that is not ready waits for. -/
theorem awaits_spec (hslices : s.InSlices offset count) (hsize : s.size < 2 ^ 32) (hcount : 0 < count)
    (hend : offset + count ≤ s.size) :
    (s.awaits offset count).2.offsetsFromLoader = s.asked offset count ∧
      (s.awaits offset count).2.state ≠ .success ∧
      ∀ i, (i = offset / kInSlice ∨ i = offset / kInSlice + 1 ∧
          offset / kInSlice + 1 < tillSlice offset count) → s.cacheNotLoaded i = true →
        (s.awaits offset count).2.state = .waitingCache ∧ (s.awaits offset count).1.reads i := by
  obtain ⟨-, -, hi, -, htwo⟩ := hslices.bounds hsize hcount hend
  obtain ⟨hoffsets, hcache, hstate, hsame, hreads, hlength⟩ := handleReadFromCache_spec s hi
    ⟨[], s.asked offset count, none, .waitingRemote, []⟩
  obtain ⟨first, hfirst⟩ : ∃ first, s.handleReadFromCache (offset / kInSlice)
    ⟨[], s.asked offset count, none, .waitingRemote, []⟩ = first := ⟨_, rfl⟩
  have hne : first.2.state ≠ .success := by
    rw [hfirst] at hstate
    rcases hstate with h | h
    · rw [h]
      exact FillState.noConfusion
    · rw [h]
      exact FillState.noConfusion
  rw [hfirst] at hoffsets hcache hreads hlength
  simp only [hfirst] at hsame
  by_cases hsecond : offset / kInSlice + 1 < tillSlice offset count
  · obtain ⟨hoffsets', hcache', hstate', -, hreads', -⟩ :=
      handleReadFromCache_spec first.1 (hlength.symm ▸ (htwo hsecond).2.2) first.2
    have hawaits : s.awaits offset count
        = first.1.handleReadFromCache (offset / kInSlice + 1) first.2 := by
      rw [awaits, if_pos hsecond, hfirst]
    rw [hawaits]
    refine ⟨hoffsets'.trans hoffsets, ?_, fun i hi hnot => ?_⟩
    · rcases hstate' with h | h
      · rwa [h]
      · rw [h]
        exact FillState.noConfusion
    · rcases hi with rfl | ⟨rfl, -⟩
      · obtain ⟨hwaiting, hread⟩ := hcache hnot
        exact ⟨hstate'.elim (fun h => h.trans hwaiting) id, hreads' _ hread⟩
      · rw [← hsame] at hnot
        exact hcache' hnot
  · have hawaits : s.awaits offset count = first := by
      rw [awaits, if_neg hsecond, hfirst]
    rw [hawaits]
    refine ⟨hoffsets, hne, fun i hi hnot => ?_⟩
    rcases hi with rfl | ⟨-, hlt⟩
    · exact hcache hnot
    · exact absurd hlt hsecond

variable {done : FillResult}

/-- **A fill that succeeds gives the bytes of the file.** -/
theorem Valid.fill_success (hv : Valid (fileLoads file) s)
    (h : s.fill offset count = some (s', done)) (hstate : done.state = .success) :
    done.buffer = (file.drop offset).take count := by
  obtain ⟨hcount, hend, ⟨-, rfl, -⟩ | ⟨-, hheader, -⟩ | ⟨-, hslices, hdone | ⟨-, hawaits⟩⟩⟩ :=
    fill_cases h
  · exact absurd hstate (by decide)
  · unfold fillFromHeader at hheader
    dsimp only at hheader
    split_ifs at hheader with hready
    · rw [hv.header.copyLoaded (Nat.lt_add_of_pos_right hcount) hready, Option.map_some,
        Option.some.injEq] at hheader
      rw [← hheader, Nat.add_sub_cancel_left, sliceStart, Nat.zero_sub, Nat.zero_mul, Nat.zero_add]
    · obtain rfl := Option.some.inj hheader
      exact absurd hstate FillState.noConfusion
  · obtain ⟨-, hready, hcopied, -⟩ := hdone
    exact hcopied.eq hv hcount hend hslices hready
  · obtain ⟨-, hne, -⟩ := awaits_spec hslices hv.size hcount hend
    rw [← hawaits] at hne
    exact absurd hstate hne

/-- **Whatever is missing for a fill is waited for**: the header, the slice it is in, or the part.
-/
theorem Valid.fill_missing (hv : Valid loads s) (h : s.fill offset count = some (s', done))
    (hstate : done.state ≠ .success) {o : ℕ} (ho : kPartSize ∣ o) (hfrom : partStart offset ≤ o)
    (hlt : o < offset + count) (hmissing : s.missing o = true) :
    s.AwaitsHeader ∨
      done.state = .waitingCache ∧ s.cacheNotLoaded (o / kInSlice) = true ∧
        s'.reads (o / kInSlice) ∨
      AskedFor o done.offsetsFromLoader := by
  obtain ⟨hcount, hend, ⟨hheader, -⟩ | ⟨hfull, hheader, -⟩ | ⟨-, hslices, hdone | ⟨-, hawaits⟩⟩⟩ :=
    fill_cases h
  · exact Or.inl hheader
  · refine Or.inr (Or.inr ?_)
    rw [missing, if_pos hfull, Bool.not_eq_true'] at hmissing
    obtain ⟨hready, hasked⟩ := hv.header.prepareFill_missing hend ho hfrom hlt hmissing
    have hoffsets : done.offsetsFromLoader
        = (((s.header.prepareFill offset (offset + count)).offsetsFromLoader.filter
          fun full => full < s.size).map id).take kLoadFromRemoteMax := by
      unfold fillFromHeader at hheader
      dsimp only at hheader
      rw [if_neg (by simp [hready])] at hheader
      obtain rfl := Option.some.inj hheader
      exact foldl_addOr (f := id) (p := fun full => full < s.size) (Nat.zero_le _)
    rw [hoffsets, ← List.nil_append (List.map _ _)]
    exact hasked.add prepareFill_sorted.1 strictMono_id (hlt.trans_le hend)
      (fun x hx => hx.trans (hlt.trans_le hend)) List.Pairwise.nil
      (fun _ hmem => absurd hmem List.not_mem_nil)
  · exact absurd hdone.1 hstate
  · obtain ⟨hoffsets, -, hcache⟩ := awaits_spec hslices hv.size hcount hend
    obtain ⟨hstart, -, -, hone, htwo⟩ := hslices.bounds hv.size hcount hend
    rw [← hawaits] at hoffsets hcache
    cases hnot : s.cacheNotLoaded (o / kInSlice) with
    | false =>
      rw [hoffsets]
      exact Or.inr (Or.inr (hv.asked hcount hend hslices ho hfrom hlt hmissing hnot))
    | true =>
      have hindex : o / kInSlice = offset / kInSlice ∨ o / kInSlice = offset / kInSlice + 1 ∧
          offset / kInSlice + 1 < tillSlice offset count := by
        rw [← add_partStart_sub] at hfrom
        have hle : offset / kInSlice * kInSlice ≤ o := (Nat.le_add_right _ _).trans hfrom
        by_cases hfirst : o < (offset / kInSlice + 1) * kInSlice
        · exact Or.inl (Nat.div_eq_of_lt_le hle hfirst)
        · have hsecond : offset / kInSlice + 1 < tillSlice offset count := by
            by_contra hsecond
            exact hfirst (hlt.trans_le (hone hsecond))
          exact Or.inr ⟨Nat.div_eq_of_lt_le (Nat.le_of_not_lt hfirst)
            (hlt.trans_le (htwo hsecond).2.1), hsecond⟩
      obtain ⟨hwaiting, hread⟩ := hcache _ hindex hnot
      exact Or.inr (Or.inl ⟨hwaiting, rfl, hread⟩)

/-- Parts are always added to the header, which may be full. -/
theorem addToHeader_isSome (s : Slices) (i : ℕ) (entries : List (ℕ × Bytes)) :
    ∃ s', s.addToHeader i entries = some s' := by
  unfold addToHeader
  split_ifs
  · exact ⟨s, rfl⟩
  · next hmode =>
    clear hmode
    induction entries generalizing s with
    | nil => exact ⟨s, rfl⟩
    | cons part entries ih =>
      rw [List.foldlM_cons]
      dsimp only
      split_ifs with hroom
      · rw [Slice.addPart, if_neg hroom.1, Option.map_some]
        exact ih _
      · exact ih s

/-- **The assertion of `CopyLoaded` never fails**: a fill that does not return was no request for
what is there, or the slices of it are not, or nobody reads the header, or what was used before
cannot be unloaded. -/
theorem Valid.fill_none (hv : Valid (fileLoads file) s) (h : s.fill offset count = none) :
    (count = 0 ∨ s.size < offset + count ∨ kInSlice < count) ∨
      (isFullInHeader s.size = false ∧ ¬s.InSlices offset count) ∨
      (s.headerMode ≠ .noCache ∧ s.header.loadedFromCache = false ∧
        s.header.loadingFromCache = false) ∨
      ∃ s₁, Valid (fileLoads file) s₁ ∧ KeepsHeader s s₁ ∧ s₁.serializeAndUnloadUnused = none := by
  unfold Slices.fill at h
  split_ifs at h with hrequest hheader hloading hfull
  · exact Or.inl (by omega)
  · exact Or.inr (Or.inr (Or.inl ⟨hheader.1, Bool.not_eq_true _ ▸ hheader.2,
      Bool.not_eq_true _ ▸ hloading⟩))
  · have hcount : 0 < count := by omega
    unfold fillFromHeader at h
    dsimp only at h
    split_ifs at h with hready
    · rw [hv.header.copyLoaded (Nat.lt_add_of_pos_right hcount) hready] at h
      exact nomatch h
    · exact nomatch h
  · have hcount : 0 < count := by omega
    have hend : offset + count ≤ s.size := by omega
    have hread : s.headerMode = .unknown → s.header.loadedFromCache = true := fun hmode => by
      by_contra hunread
      exact hheader ⟨by simp [hmode], hunread⟩
    by_cases hslices : s.InSlices offset count
    · refine Or.inr (Or.inr (Or.inr ?_))
      have hchecked := hslices
      unfold InSlices tillSlice at hchecked
      obtain ⟨hstart, hnext, -, -, htwo⟩ := hslices.bounds hv.size hcount hend
      have hmul : (offset / kInSlice + 1) * kInSlice = offset / kInSlice * kInSlice + kInSlice :=
        Nat.succ_mul _ _
      have hfirstLt : offset - offset / kInSlice * kInSlice
          < min kInSlice (offset + count - offset / kInSlice * kInSlice) := by
        generalize offset / kInSlice * kInSlice = start at *
        omega
      dsimp only at h
      rw [if_neg (not_not.mpr hchecked)] at h
      split_ifs at h with hsecond hready hready
      · obtain ⟨s₁, hs₁⟩ := addToHeader_isSome (s.markSliceUsed (offset / kInSlice))
          (offset / kInSlice) (s.firstRead offset count).parts
        obtain ⟨s₂, hs₂⟩ := addToHeader_isSome (s₁.markSliceUsed (offset / kInSlice + 1))
          (offset / kInSlice + 1) (s.secondRead offset count).parts
        obtain ⟨hv₁, hkeeps₁⟩ := (hv.markSliceUsed _).addToHeader hread
          (fun part hpart => hv.prepareFill hpart) hs₁
        obtain ⟨hv₂, hkeeps₂⟩ := (hv₁.markSliceUsed _).addToHeader
          (fun hmode => (hkeeps₁.loaded (hkeeps₁.mode.symm.trans hmode)).trans
            (hread (hkeeps₁.mode.symm.trans hmode)))
          (fun part hpart => hkeeps₁.size.symm ▸ hv.prepareFill hpart) hs₂
        refine ⟨s₂, hv₂, KeepsHeader.trans
          ⟨hkeeps₁.size, hkeeps₁.mode, hkeeps₁.loaded, hkeeps₁.parts⟩
          ⟨hkeeps₂.size, hkeeps₂.mode, hkeeps₂.loaded, hkeeps₂.parts⟩, ?_⟩
        have hfirst := (hv.getD (offset / kInSlice)).copyLoaded hfirstLt hready.1
        have hcopy := (hv.getD (offset / kInSlice + 1)).copyLoaded
          (Nat.sub_pos_of_lt (htwo hsecond).1) hready.2
        rw [firstRead] at hs₁
        rw [secondRead] at hs₂
        simpa only [hfirst, hs₁, hcopy, hs₂, Option.bind_eq_bind, Option.bind_some,
          Option.bind_eq_none_iff, reduceCtorEq, imp_false, Prod.forall,
          ← Option.eq_none_iff_forall_ne_some] using h
      · obtain ⟨s₁, hs₁⟩ := addToHeader_isSome (s.markSliceUsed (offset / kInSlice))
          (offset / kInSlice) (s.firstRead offset count).parts
        obtain ⟨hv₁, hkeeps₁⟩ := (hv.markSliceUsed _).addToHeader hread
          (fun part hpart => hv.prepareFill hpart) hs₁
        refine ⟨s₁, hv₁, ⟨hkeeps₁.size, hkeeps₁.mode, hkeeps₁.loaded, hkeeps₁.parts⟩, ?_⟩
        have hfirst := (hv.getD (offset / kInSlice)).copyLoaded hfirstLt hready.1
        rw [firstRead] at hs₁
        simpa only [hfirst, hs₁, Option.bind_eq_bind, Option.bind_some,
          Option.bind_eq_none_iff, reduceCtorEq, imp_false, Prod.forall,
          ← Option.eq_none_iff_forall_ne_some] using h
    · exact Or.inr (Or.inl ⟨Bool.not_eq_true _ ▸ hfull, hslices⟩)

end Yunogram.Media.Streaming
