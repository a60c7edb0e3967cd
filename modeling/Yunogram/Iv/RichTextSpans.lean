import Mathlib
import Yunogram.Iv.RichTextSerializer

/-!
# Iv/RichTextSpans — what a serialized text says, and what is around which part of it

Writing a range takes steps of two kinds: the position moves on, or an entity's own range is
written, which is shorter or is that of an entity further back in the order (`cost`).  So enough
steps are enough for all entities, however they overlap.

The result is `serializeRichTextValue_spans`: without custom emoji the text is written in full, and
if of two entities one is always inside the other or apart from it, each entity is around its own
range, once.
-/

namespace Yunogram.Iv

variable {Object Context : Type}

/-! ## Reading a tree -/

section

variable (alt : Object → QString)

mutual

/-- The text of a rich text; an object stands for its replacement. -/
def MTPRichText.plainText : MTPRichText Object → QString
  | .textEmpty => []
  | .textPlain text => text
  | .textConcat texts => plainTexts texts
  | .wrapped _ text => text.plainText
  | .object object => alt object

/-- …and of those of a list. -/
def plainTexts : List (MTPRichText Object) → QString
  | [] => []
  | text :: texts => text.plainText ++ plainTexts texts

end

mutual

/-- What is around the parts of a rich text, each with the place and the length of its text. -/
def MTPRichText.spans : ℕ → MTPRichText Object → List (RichTextWrapper × ℕ × ℕ)
  | start, .wrapped wrapper text =>
    (wrapper, start, (text.plainText alt).length) :: text.spans start
  | start, .textConcat texts => spansOf start texts
  | _, _ => []

/-- …and of those of a list. -/
def spansOf : ℕ → List (MTPRichText Object) → List (RichTextWrapper × ℕ × ℕ)
  | _, [] => []
  | start, text :: texts =>
    text.spans start ++ spansOf (start + (text.plainText alt).length) texts

end

variable {parts parts' : List (MTPRichText Object)} {part : MTPRichText Object} {start : ℕ}

theorem plainTexts_append :
    plainTexts alt (parts ++ parts') = plainTexts alt parts ++ plainTexts alt parts' := by
  induction parts with
  | nil => rw [List.nil_append, plainTexts, List.nil_append]
  | cons part parts ih => rw [List.cons_append, plainTexts, plainTexts, ih, List.append_assoc]

theorem spansOf_append : spansOf alt start (parts ++ parts') =
    spansOf alt start parts ++ spansOf alt (start + (plainTexts alt parts).length) parts' := by
  induction parts generalizing start with
  | nil => rw [List.nil_append, spansOf, List.nil_append, plainTexts, List.length_nil, Nat.add_zero]
  | cons part parts ih =>
    rw [List.cons_append, spansOf, spansOf, ih, plainTexts, List.length_append, List.append_assoc,
      Nat.add_assoc]

theorem plainTexts_singleton : plainTexts alt [part] = part.plainText alt := by
  rw [plainTexts, plainTexts, List.append_nil]

theorem spansOf_singleton : spansOf alt start [part] = part.spans alt start := by
  rw [spansOf, spansOf, List.append_nil]

@[simp] theorem plainText_makePlainRichText (text : QString) :
    (makePlainRichText text : MTPRichText Object).plainText alt = text := by
  rw [makePlainRichText]
  split_ifs with hempty
  · rw [List.isEmpty_iff.mp hempty, MTPRichText.plainText]
  · rw [MTPRichText.plainText]

@[simp] theorem spans_makePlainRichText (text : QString) :
    (makePlainRichText text : MTPRichText Object).spans alt start = [] := by
  rw [makePlainRichText]
  split_ifs
  · simp [MTPRichText.spans]
  · simp [MTPRichText.spans]

/-- **Joined parts say what they say one after the other**, with the same around them. -/
theorem joinRichTextParts_spec (parts : List (MTPRichText Object)) (start : ℕ) :
    (joinRichTextParts parts).plainText alt = plainTexts alt parts ∧
      (joinRichTextParts parts).spans alt start = spansOf alt start parts := by
  match parts with
  | [] => simp [joinRichTextParts, MTPRichText.plainText, MTPRichText.spans, plainTexts, spansOf]
  | [part] => exact ⟨(plainTexts_singleton alt).symm, (spansOf_singleton alt).symm⟩
  | _ :: _ :: _ => simp [joinRichTextParts, MTPRichText.plainText, MTPRichText.spans]

end

/-! ## Sorted entities -/

section

variable {n : ℕ} {entities : Fin n → RangeEntity} {position till : ℕ} {skip : Option (Fin n)}
  {index i : Fin n}

/-- The entities are sorted, outer ones first. -/
def Sorted (entities : Fin n → RangeEntity) : Prop :=
  ∀ i j, i < j → (entities i).Before (entities j)

theorem Sorted.offset_le (h : Sorted entities) {i j : Fin n} (hij : i ≤ j) :
    (entities i).offset ≤ (entities j).offset := by
  rcases hij.eq_or_lt with rfl | hlt
  · exact le_rfl
  · rcases h i j hlt with hoffset | ⟨hoffset, -⟩
    · exact hoffset.le
    · exact hoffset.le

theorem Sorted.length_le (h : Sorted entities) {i j : Fin n} (hij : i ≤ j)
    (hoffset : (entities i).offset = (entities j).offset) :
    (entities j).length ≤ (entities i).length := by
  rcases hij.eq_or_lt with rfl | hlt
  · exact le_rfl
  · rcases h i j hlt with hless | ⟨-, hlength | ⟨hlength, -⟩⟩
    · exact absurd hoffset hless.ne
    · exact hlength.le
    · exact hlength.ge

/-- Two entities with one range. -/
def SameRange (a b : RangeEntity) : Prop := a.offset = b.offset ∧ a.length = b.length

theorem skip_iff : skipEntityForRange entities index (some i) = true ↔
    index = i ∨ index < i ∧ SameRange (entities index) (entities i) := by
  simp [skipEntityForRange, SameRange, and_assoc]

theorem fits_iff : fits entities position till skip index = true ↔
    skipEntityForRange entities index skip = false ∧ position ≤ (entities index).offset ∧
      (entities index).till ≤ till := by
  simp [fits, and_assoc]

theorem first_of_find? {p : Fin n → Bool} (h : (List.finRange n).find? p = some i) :
    p i = true ∧ ∀ j, p j = true → i ≤ j := by
  obtain ⟨hi, before, after, hall, hnot⟩ := List.find?_eq_some_iff_append.mp h
  refine ⟨hi, fun j hj => ?_⟩
  have hmem : j ∈ before ++ i :: after := hall ▸ List.mem_finRange j
  have hsorted : (before ++ i :: after).Pairwise (· < ·) := hall ▸ List.pairwise_lt_finRange n
  rcases List.mem_append.mp hmem with hbefore | hafter
  · have hfalse := hnot j hbefore
    rw [hj] at hfalse
    exact nomatch hfalse
  · rcases List.mem_cons.mp hafter with rfl | hafter
    · exact le_rfl
    · exact ((List.pairwise_cons.mp (List.pairwise_append.mp hsorted).2.1).1 j hafter).le

/-- The second loop finds what the first one has found. -/
theorem findOuterEntityAt_eq (hsorted : Sorted entities)
    (hfits : fits entities position till skip i = true) (hoffset : (entities i).offset = position)
    (hfirst : ∀ j, fits entities position till skip j = true → i ≤ j) {indices : List (Fin n)}
    (hindices : indices.Pairwise (· < ·)) (hmem : i ∈ indices) :
    findOuterEntityAt entities position till skip indices = some i := by
  obtain ⟨hskip, -, htill⟩ := fits_iff.mp hfits
  induction indices with
  | nil => exact nomatch hmem
  | cons index rest ih =>
    obtain ⟨hless, hrest⟩ := List.pairwise_cons.mp hindices
    rw [findOuterEntityAt]
    rcases List.mem_cons.mp hmem with rfl | hmem
    · rw [hskip, if_neg Bool.false_ne_true, if_pos ⟨hoffset, htill⟩]
    · have hlt := hless i hmem
      have hle : (entities index).offset ≤ position := hoffset ▸ hsorted.offset_le hlt.le
      split_ifs with hskipped hfound hpast
      · exact ih hrest hmem
      · refine absurd (hfirst index (fits_iff.mpr ⟨?_, hfound.1.ge, hfound.2⟩)) (not_le.mpr hlt)
        exact Bool.not_eq_true _ ▸ hskipped
      · exact absurd hle (not_le.mpr hpast)
      · exact ih hrest hmem

/-- **Where the loop goes**: to the first entity that fits, or to the end. -/
theorem nextEntityStart_spec (skip : Option (Fin n)) (hsorted : Sorted entities) (hlt : position < till) :
    (∀ i, fits entities position till skip i = true →
      nextEntityStart entities position till skip ≤ (entities i).offset) ∧
    nextEntityStart entities position till skip ≤ till ∧
    (position < nextEntityStart entities position till skip ∨
      ∃ i, fits entities position till skip i = true ∧ (entities i).offset = position ∧
        (∀ j, fits entities position till skip j = true → i ≤ j) ∧
        nextEntityStart entities position till skip = position ∧
        findOuterEntityAt entities position till skip (List.finRange n) = some i) := by
  cases hfind : (List.finRange n).find? (fits entities position till skip) with
  | none =>
    have hnext : nextEntityStart entities position till skip = till := by
      rw [nextEntityStart, hfind]
    rw [hnext]
    refine ⟨fun i hi => ?_, le_rfl, .inl hlt⟩
    exact absurd hi (List.find?_eq_none.mp hfind i (List.mem_finRange i))
  | some i =>
    have hnext : nextEntityStart entities position till skip = (entities i).offset := by
      rw [nextEntityStart, hfind]
    obtain ⟨hi, hfirst⟩ := first_of_find? hfind
    obtain ⟨-, hposition, htill⟩ := fits_iff.mp hi
    rw [hnext]
    refine ⟨fun j hj => hsorted.offset_le (hfirst j hj), ?_, ?_⟩
    · exact (Nat.le_add_right _ _).trans htill
    · rcases hposition.eq_or_lt with heq | hless
      · refine .inr ⟨i, hi, heq.symm, hfirst, heq.symm, ?_⟩
        exact findOuterEntityAt_eq hsorted hi heq.symm hfirst (List.pairwise_lt_finRange n)
          (List.mem_finRange i)
      · exact .inl hless

/-! ## Enough steps -/

/-- How far back in the order the entities may stand that fit into a range. -/
def rank : Option (Fin n) → ℕ
  | none => n
  | some index => n - 1 - index

/-- What is left to do from a position on: each turn makes it less. -/
def cost (position till : ℕ) (skip : Option (Fin n)) : ℕ := (till - position) * (n + 1) + rank skip

/-- A range is that of the entity it is of. -/
def RangeOf (entities : Fin n → RangeEntity) (position till : ℕ) (skip : Option (Fin n)) : Prop :=
  position ≤ till ∧ ∀ index, skip = some index →
    (entities index).offset ≤ position ∧ (entities index).till = till

theorem rank_lt (skip : Option (Fin n)) : rank skip < n + 1 := by
  cases skip with
  | none => exact Nat.lt_succ_self n
  | some index => rw [rank]; omega

theorem cost_advance (skip : Option (Fin n)) {next : ℕ} (hlt : position < next) (hle : next ≤ till) :
    cost next till skip < cost position till skip := by
  rw [cost, cost, Nat.add_lt_add_iff_right]
  exact Nat.mul_lt_mul_of_pos_right (by omega) (Nat.succ_pos n)

/-- An entity that fits and is as long as the rest of the range stands further back. -/
theorem rank_of_fits (hsorted : Sorted entities) (hrange : RangeOf entities position till skip)
    (hfits : fits entities position till skip index = true)
    (hoffset : (entities index).offset = position) (htill : (entities index).till = till) :
    rank (some index) < rank skip := by
  cases skip with
  | none => rw [rank, rank]; omega
  | some s =>
    obtain ⟨hle, hs⟩ := hrange.2 s rfl
    have hless : s < index := by
      by_contra hnot
      have hback := not_lt.mp hnot
      have heq : (entities index).offset = (entities s).offset :=
        le_antisymm (hsorted.offset_le hback) (hle.trans_eq hoffset.symm)
      have hlength : (entities index).length = (entities s).length := by
        rw [RangeEntity.till] at htill hs
        omega
      have hskip : skipEntityForRange entities index (some s) = true := by
        rw [skip_iff]
        rcases hback.eq_or_lt with hsame | hlt
        · exact .inl hsame
        · exact .inr ⟨hlt, heq, hlength⟩
      rw [(fits_iff.mp hfits).1] at hskip
      exact nomatch hskip
    rw [rank, rank]
    omega

/-- **An entity's own range costs less** than the range it fits into. -/
theorem cost_inner (hsorted : Sorted entities) (hrange : RangeOf entities position till skip)
    (hfits : fits entities position till skip index = true)
    (hoffset : (entities index).offset = position) :
    cost (entities index).offset (entities index).till (some index) < cost position till skip := by
  have htill := (fits_iff.mp hfits).2.2
  rw [cost, cost, hoffset]
  rcases htill.eq_or_lt with heq | hless
  · rw [heq, Nat.add_lt_add_iff_left]
    exact rank_of_fits hsorted hrange hfits hoffset heq
  · have hpos : position < (entities index).till := by
      rw [RangeEntity.till, hoffset]
      exact Nat.lt_add_of_pos_right (entities index).positive
    have hmul : ((entities index).till - position + 1) * (n + 1) ≤ (till - position) * (n + 1) :=
      Nat.mul_le_mul_right _ (by omega)
    have hrank := rank_lt (some index)
    rw [Nat.add_mul, Nat.one_mul] at hmul
    omega

/-! ## Entities inside of one another -/

/-- Of two ranges, one is before the other or inside of it. -/
def NestedOrApart (a b : RangeEntity) : Prop :=
  a.till ≤ b.offset ∨ b.till ≤ a.offset ∨ a.offset ≤ b.offset ∧ b.till ≤ a.till ∨
    b.offset ≤ a.offset ∧ a.till ≤ b.till

instance : DecidableRel NestedOrApart := fun _ _ => inferInstanceAs (Decidable (_ ∨ _))

/-- **What fits into a range** is the first entity that does, what fits into its range, and what
fits behind it. -/
theorem fits_split (hsorted : Sorted entities)
    (hlaminar : ∀ i j, NestedOrApart (entities i) (entities j))
    (hrange : RangeOf entities position till skip)
    (hi : fits entities position till skip i = true) (hoffset : (entities i).offset = position)
    (hfirst : ∀ j, fits entities position till skip j = true → i ≤ j) (j : Fin n) :
    fits entities position till skip j = true ↔ j = i ∨
      fits entities (entities i).offset (entities i).till (some i) j = true ∨
      fits entities (entities i).till till skip j = true := by
  obtain ⟨hskip, -, htill⟩ := fits_iff.mp hi
  have hipos := (entities i).positive
  have hjpos := (entities j).positive
  constructor
  · intro hj
    obtain ⟨hjskip, hjposition, hjtill⟩ := fits_iff.mp hj
    rcases eq_or_ne j i with heq | hne
    · exact .inl heq
    have hlt : i < j := lt_of_le_of_ne (hfirst j hj) hne.symm
    rcases Nat.lt_or_ge (entities j).offset (entities i).till with hinside | hbehind
    · -- it starts inside, so it ends inside
      refine .inr (.inl (fits_iff.mpr ⟨?_, hoffset.symm ▸ hjposition, ?_⟩))
      · rw [← Bool.not_eq_true, skip_iff]
        rintro (heq | ⟨hless, -⟩)
        · exact hne heq
        · exact absurd hlt hless.not_gt
      · rcases hlaminar i j with h | h | h | ⟨hle, h⟩
        · exact absurd hinside (not_lt.mpr h)
        · rw [RangeEntity.till] at h
          omega
        · exact h.2
        · have hsame : (entities i).offset = (entities j).offset := by omega
          have hlength := hsorted.length_le hlt.le hsame
          rw [RangeEntity.till, RangeEntity.till, hsame]
          omega
    · exact .inr (.inr (fits_iff.mpr ⟨hjskip, hbehind, hjtill⟩))
  · rintro (rfl | hinner | hbehind)
    · exact hi
    · obtain ⟨hjskip, hjposition, hjtill⟩ := fits_iff.mp hinner
      refine fits_iff.mpr ⟨?_, hoffset ▸ hjposition, hjtill.trans htill⟩
      cases hs : skip with
      | none => rfl
      | some s =>
        subst hs
        obtain ⟨hsle, hstill⟩ := hrange.2 s rfl
        rw [← Bool.not_eq_true, skip_iff]
        intro hskipped
        -- what is skipped has the whole range, so the first entity has it too
        have hsame : SameRange (entities j) (entities s) := by
          rcases hskipped with rfl | ⟨-, h⟩
          · exact ⟨rfl, rfl⟩
          · exact h
        have hrangej : (entities j).till = (entities s).till := by
          rw [RangeEntity.till, RangeEntity.till, hsame.1, hsame.2]
        have hsamei : SameRange (entities j) (entities i) := by
          have ho : (entities j).offset = (entities i).offset := by
            rw [hsame.1]
            rw [hsame.1] at hjposition
            omega
          refine ⟨ho, ?_⟩
          simp only [RangeEntity.till] at hjtill htill hrangej hstill
          omega
        rw [← Bool.not_eq_true, skip_iff] at hjskip hskip
        push Not at hjskip hskip
        have hij : i < j := by
          rcases lt_trichotomy j i with hless | heq | hless
          · exact absurd hsamei (hjskip.2 hless)
          · exact absurd heq hjskip.1
          · exact hless
        have hsi : SameRange (entities i) (entities s) :=
          ⟨hsamei.1.symm.trans hsame.1, hsamei.2.symm.trans hsame.2⟩
        rcases hskipped with rfl | ⟨hless, -⟩
        · exact hskip.2 hij hsi
        · exact hskip.2 (hij.trans hless) hsi
    · obtain ⟨hjskip, hjposition, hjtill⟩ := fits_iff.mp hbehind
      refine fits_iff.mpr ⟨hjskip, ?_, hjtill⟩
      rw [RangeEntity.till] at hjposition
      omega

/-- What fits is split into parts without anything in common. -/
theorem fits_apart (hi : fits entities position till skip i = true)
    (hoffset : (entities i).offset = position) {j : Fin n} :
    (fits entities (entities i).offset (entities i).till (some i) j = true → j ≠ i ∧
      ¬ fits entities (entities i).till till skip j = true) ∧
    (fits entities (entities i).till till skip j = true → j ≠ i) := by
  have hipos := (entities i).positive
  have hjpos := (entities j).positive
  refine ⟨fun hinner => ⟨?_, fun hbehind => ?_⟩, ?_⟩
  · rintro rfl
    have hskip := (fits_iff.mp hinner).1
    rw [← Bool.not_eq_true, skip_iff] at hskip
    exact hskip (.inl rfl)
  · have hend := (fits_iff.mp hinner).2.2
    have hstart := (fits_iff.mp hbehind).2.1
    simp only [RangeEntity.till] at hend hstart
    omega
  · rintro hbehind rfl
    have hstart := (fits_iff.mp hbehind).2.1
    rw [RangeEntity.till] at hstart
    omega

end

/-! ## Writing a range -/

section

variable {n : ℕ} (entities : Fin n → RangeEntity) (lookup : Lookup Object Context)
  (alt : Object → QString) (text : QString)

/-- What some entities have around their ranges. -/
def spansOfChosen (chosen : List (Fin n × Option RichTextWrapper)) :
    List (RichTextWrapper × ℕ × ℕ) :=
  chosen.filterMap fun p =>
    p.2.map fun wrapper => (wrapper, (entities p.1).offset, (entities p.1).length)

/-- Each of the entities that fit is chosen once, with what it has around its range. -/
structure ChosenFrom (position till : ℕ) (skip : Option (Fin n))
    (chosen : List (Fin n × Option RichTextWrapper)) : Prop where
  nodup : (chosen.map Prod.fst).Nodup
  mem : ∀ i, i ∈ chosen.map Prod.fst ↔ fits entities position till skip i = true
  wrapper : ∀ p ∈ chosen, ∃ context, p.2 = (lookup.wrapper context (entities p.1)).1

/-- **What is written of a range**: the parts before, the text from the position on, and if the
entities are inside of one another each of those that fit around its own range. -/
structure Writes (position till : ℕ) (skip : Option (Fin n)) (parts : List (MTPRichText Object))
    (result : MTPRichText Object) : Prop where
  text : result.plainText alt = plainTexts alt parts ++ mid text position (till - position)
  spans : (∀ i j, NestedOrApart (entities i) (entities j)) →
    ∀ start, start + (plainTexts alt parts).length = position →
      ∃ chosen, ChosenFrom entities lookup position till skip chosen ∧
        result.spans alt start = spansOf alt start parts ++ spansOfChosen entities chosen

variable {entities lookup alt text} {position till : ℕ} {skip : Option (Fin n)}
  {parts : List (MTPRichText Object)} {result : MTPRichText Object}

theorem mid_append {next : ℕ} (hle : position ≤ next) (htill : next ≤ till) :
    mid text position (next - position) ++ mid text next (till - next) =
      mid text position (till - position) := by
  have hdrop : text.drop next = (text.drop position).drop (next - position) := by
    rw [List.drop_drop, Nat.add_sub_cancel' hle]
  have hsum : till - position = next - position + (till - next) := by omega
  rw [mid, mid, mid, hdrop, hsum, List.take_add]

theorem length_mid (hle : position ≤ till) (htext : till ≤ text.length) :
    (mid text position (till - position)).length = till - position := by
  rw [mid, List.length_take, List.length_drop]
  omega

/-- Nothing is left to write. -/
theorem writes_end (h : ¬ position < till) (hle : position ≤ till) :
    Writes entities lookup alt text position till skip parts (joinRichTextParts parts) := by
  obtain rfl : position = till := by omega
  refine ⟨?_, fun _ start _ => ⟨[], ⟨List.nodup_nil, fun i => ?_, nofun⟩, ?_⟩⟩
  · rw [(joinRichTextParts_spec alt parts 0).1, Nat.sub_self, mid, List.take_zero, List.append_nil]
  · refine iff_of_false List.not_mem_nil fun hfits => ?_
    obtain ⟨-, hstart, hend⟩ := fits_iff.mp hfits
    have hpos := (entities i).positive
    rw [RangeEntity.till] at hend
    omega
  · rw [(joinRichTextParts_spec alt parts start).2, spansOfChosen, List.filterMap_nil,
      List.append_nil]

/-- Plain text up to the next entity. -/
theorem Writes.plain {next : ℕ} (hle : position ≤ next) (htill : next ≤ till)
    (htext : till ≤ text.length)
    (hnext : ∀ i, fits entities position till skip i = true → next ≤ (entities i).offset)
    (h : Writes entities lookup alt text next till skip
      (parts ++ [makePlainRichText (mid text position (next - position))]) result) :
    Writes entities lookup alt text position till skip parts result := by
  refine ⟨?_, fun hlaminar start hstart => ?_⟩
  · rw [h.text, plainTexts_append, plainTexts_singleton, plainText_makePlainRichText,
      List.append_assoc, mid_append hle htill]
  · obtain ⟨chosen, hchosen, hspans⟩ := h.spans hlaminar start (by
      rw [plainTexts_append, plainTexts_singleton, plainText_makePlainRichText, List.length_append,
        length_mid hle (htill.trans htext)]
      omega)
    refine ⟨chosen, ⟨hchosen.nodup, fun i => (hchosen.mem i).trans ?_, hchosen.wrapper⟩, ?_⟩
    · constructor
      · intro hfits
        obtain ⟨hskip, hposition, hend⟩ := fits_iff.mp hfits
        exact fits_iff.mpr ⟨hskip, hle.trans hposition, hend⟩
      · intro hfits
        obtain ⟨hskip, -, hend⟩ := fits_iff.mp hfits
        exact fits_iff.mpr ⟨hskip, hnext i hfits, hend⟩
    · rw [hspans, spansOf_append, spansOf_singleton, spans_makePlainRichText, List.append_nil]

/-- An entity around its range, and what is written behind it. -/
theorem Writes.entity {i : Fin n} {inner wrapped : MTPRichText Object}
    {wrapper : Option RichTextWrapper} (hsorted : Sorted entities)
    (hrange : RangeOf entities position till skip) (htext : till ≤ text.length)
    (hi : fits entities position till skip i = true) (hoffset : (entities i).offset = position)
    (hfirst : ∀ j, fits entities position till skip j = true → i ≤ j)
    (hwrapper : ∃ context, wrapper = (lookup.wrapper context (entities i)).1)
    (hwrapped : wrapped = wrapRichText wrapper inner)
    (hinner : Writes entities lookup alt text (entities i).offset (entities i).till (some i) []
      inner)
    (h : Writes entities lookup alt text (entities i).till till skip (parts ++ [wrapped]) result) :
    Writes entities lookup alt text position till skip parts result := by
  have htill := (fits_iff.mp hi).2.2
  have hle : position ≤ (entities i).till := by rw [← hoffset]; exact Nat.le_add_right _ _
  have hplain : wrapped.plainText alt = mid text position ((entities i).till - position) := by
    have hinnerText := hinner.text
    rw [hoffset] at hinnerText
    rw [hwrapped]
    cases wrapper with
    | none => exact hinnerText
    | some wrapper => rw [wrapRichText, MTPRichText.plainText]; exact hinnerText
  have hlength : (wrapped.plainText alt).length = (entities i).length := by
    rw [hplain, length_mid hle (htill.trans htext), RangeEntity.till, hoffset,
      Nat.add_sub_cancel_left]
  refine ⟨?_, fun hlaminar start hstart => ?_⟩
  · rw [h.text, plainTexts_append, plainTexts_singleton, hplain, List.append_assoc,
      mid_append hle htill]
  · obtain ⟨chosen, hchosen, hspans⟩ := h.spans hlaminar start (by
      rw [plainTexts_append, plainTexts_singleton, List.length_append, hlength, RangeEntity.till,
        hoffset, ← hstart, Nat.add_assoc])
    obtain ⟨chosen', hchosen', hspans'⟩ := hinner.spans hlaminar position hoffset.symm
    have hsplit := fits_split hsorted hlaminar hrange hi hoffset hfirst
    refine ⟨(i, wrapper) :: (chosen' ++ chosen), ⟨?_, fun j => ?_, ?_⟩, ?_⟩
    · rw [List.map_cons, List.map_append, List.nodup_cons, List.nodup_append]
      refine ⟨?_, hchosen'.nodup, hchosen.nodup, ?_⟩
      · rw [List.mem_append, hchosen'.mem, hchosen.mem]
        rintro (hmem | hmem)
        · exact ((fits_apart hi hoffset).1 hmem).1 rfl
        · exact (fits_apart hi hoffset).2 hmem rfl
      · rintro j hj j' hj' rfl
        exact ((fits_apart hi hoffset).1 ((hchosen'.mem j).mp hj)).2 ((hchosen.mem j).mp hj')
    · rw [hsplit, List.map_cons, List.map_append, List.mem_cons, List.mem_append, hchosen'.mem,
        hchosen.mem]
    · intro p hp
      rcases List.mem_cons.mp hp with rfl | hp
      · exact hwrapper
      · rcases List.mem_append.mp hp with hp | hp
        · exact hchosen'.wrapper p hp
        · exact hchosen.wrapper p hp
    · have hown : wrapped.spans alt position =
          spansOfChosen entities ((i, wrapper) :: chosen') := by
        rw [spansOf, List.nil_append] at hspans'
        rw [hwrapped, spansOfChosen]
        cases wrapper with
        | none => exact hspans'
        | some wrapper =>
          rw [hwrapped, wrapRichText, MTPRichText.plainText] at hlength
          rw [wrapRichText, MTPRichText.spans, hlength, hspans', List.filterMap_cons, hoffset]
          rfl
      rw [hspans, spansOf_append, spansOf_singleton, hstart, hown, List.append_assoc,
        ← List.cons_append, spansOfChosen, spansOfChosen, spansOfChosen, List.filterMap_append]

variable (lookup alt text) in
/-- **A range is written in as many steps as it costs**, whatever entities there are. -/
theorem serializeRichTextRange_spec (hsorted : Sorted entities) (fuel : ℕ) (till : ℕ)
    (skip : Option (Fin n)) (position : ℕ) (parts : List (MTPRichText Object)) (context : Context)
    (hfuel : cost position till skip < fuel) (hrange : RangeOf entities position till skip)
    (htext : till ≤ text.length) :
    ∃ result context', serializeRichTextRange entities lookup text fuel till skip position parts
        context = some (result, context') ∧
      ((∀ i, (entities i).type ≠ .customEmoji) → ∃ rich, result = some rich ∧
        Writes entities lookup alt text position till skip parts rich) := by
  induction fuel generalizing till skip position parts context with
  | zero => exact absurd hfuel (Nat.not_lt_zero _)
  | succ fuel ih =>
    rw [serializeRichTextRange]
    split_ifs with hlt
    · obtain ⟨hnext, hnextTill, hcases⟩ := nextEntityStart_spec skip hsorted hlt
      dsimp only
      split_ifs with hgo
      · -- plain text up to the next entity
        have hcost := cost_advance skip hgo hnextTill
        obtain ⟨result, context', hrun, hwrites⟩ := ih till skip _
          (parts ++ [makePlainRichText (mid text position
            (nextEntityStart entities position till skip - position))]) context
          (by omega) ⟨hnextTill, fun s hs => ⟨(hrange.2 s hs).1.trans hgo.le, (hrange.2 s hs).2⟩⟩
          htext
        refine ⟨result, context', hrun, fun hemoji => ?_⟩
        obtain ⟨rich, hrich, hwrites⟩ := hwrites hemoji
        exact ⟨rich, hrich, hwrites.plain hgo.le hnextTill htext hnext⟩
      · obtain ⟨i, hi, hoffset, hfirst, -, hfound⟩ := hcases.resolve_left hgo
        have htill := (fits_iff.mp hi).2.2
        have hpos : position < (entities i).till := by
          rw [RangeEntity.till, hoffset]
          exact Nat.lt_add_of_pos_right (entities i).positive
        have hcostInner := cost_inner hsorted hrange hi hoffset
        have hcostBehind := cost_advance skip hpos htill
        obtain ⟨inner, contextInner, hrunInner, hwritesInner⟩ := ih (entities i).till (some i)
          (entities i).offset [] context (by omega)
          ⟨Nat.le_add_right _ _, fun s hs => by
            obtain rfl := Option.some.inj hs
            exact ⟨le_rfl, rfl⟩⟩ (htill.trans htext)
        rw [hfound]
        dsimp only
        rw [hrunInner]
        cases inner with
        | none =>
          refine ⟨none, contextInner, rfl, fun hemoji => ?_⟩
          obtain ⟨rich, hrich, -⟩ := hwritesInner hemoji
          exact nomatch hrich
        | some inner =>
          dsimp only
          rcases hentity : serializeRichTextEntity lookup contextInner (entities i)
            (mid text (entities i).offset (entities i).length) inner with ⟨wrapped, contextAfter⟩
          cases wrapped with
          | none =>
            refine ⟨none, contextAfter, rfl, fun hemoji => ?_⟩
            rw [serializeRichTextEntity, if_neg (hemoji i)] at hentity
            exact nomatch congrArg Prod.fst hentity
          | some wrapped =>
            obtain ⟨result, context', hrun, hwrites⟩ := ih till skip (entities i).till
              (parts ++ [wrapped]) contextAfter (by omega)
              ⟨htill, fun s hs => ⟨(hrange.2 s hs).1.trans hpos.le, (hrange.2 s hs).2⟩⟩ htext
            refine ⟨result, context', hrun, fun hemoji => ?_⟩
            obtain ⟨rich, hrich, hwrites⟩ := hwrites hemoji
            obtain ⟨richInner, hrichInner, hwritesInner⟩ := hwritesInner hemoji
            obtain rfl := Option.some.inj hrichInner
            rw [serializeRichTextEntity, if_neg (hemoji i)] at hentity
            have hwrapped := Option.some.inj (congrArg Prod.fst hentity)
            exact ⟨rich, hrich, Writes.entity hsorted hrange htext hi hoffset hfirst
              ⟨contextInner, rfl⟩ hwrapped.symm hwritesInner hwrites⟩
    · exact ⟨_, context, rfl, fun _ => ⟨_, rfl, writes_end hlt hrange.1⟩⟩

end

/-! ## A text with entities -/

/-- The entities that have something around their text: of a type that always has, a mention of a
user who is found, or a date. -/
def RangeEntity.Represented (lookup : Lookup Object Context) (e : RangeEntity) : Prop :=
  match e.type with
  | .bold | .italic | .underline | .strikeOut | .code | .subscript | .superscript | .marked
  | .spoiler | .customUrl => True
  | .mentionName => ∀ context, (lookup.collectMentionUser context e.data).1.isSome
  | .formattedDate => (lookup.deserializeFormattedDateData e.data).1 ≠ 0
  | _ => False

theorem RangeEntity.Represented.wrapper {lookup : Lookup Object Context} {e : RangeEntity}
    (h : e.Represented lookup) (context : Context) : (lookup.wrapper context e).1.isSome := by
  rw [Represented] at h
  rw [Lookup.wrapper]
  cases htype : e.type
  case customUrl =>
    dsimp only
    split_ifs
    · rfl
    · rfl
    · rfl
  case mentionName =>
    rw [htype] at h
    exact (Option.isSome_map ..).trans (h context)
  case formattedDate =>
    rw [htype] at h
    exact Option.isSome_of_eq_some (if_neg h)
  all_goals first | rfl | (rw [htype] at h; exact h.elim)

theorem till_le_of_mem {text : QString} {entities : List EntityInText} {e : RangeEntity}
    (h : e ∈ inRange text entities) : e.till ≤ text.length := by
  obtain ⟨raw, -, hraw⟩ := List.mem_filterMap.mp h
  rw [EntityInText.inRange?] at hraw
  split_ifs at hraw with hout
  obtain rfl := Option.some.inj hraw
  show raw.offset.toNat + raw.length.toNat ≤ text.length
  omega

/-- **A text is written in full, with each of its entities around its own range, once**: writing
ends for all entities; without custom emoji in the text what is written says the text; and if
moreover of two entities one is inside the other or apart from it, what is around its parts are the
entities that have something around their text, each around its range. -/
theorem serializeRichTextValue_spans (lookup : Lookup Object Context) (std : StdSort)
    (alt : Object → QString) (text : QString) (entities : List EntityInText) (context : Context) :
    ∃ result context', serializeRichTextValue lookup std text entities context =
        some (result, context') ∧
      ((∀ e ∈ inRange text entities, e.type ≠ .customEmoji) →
        ∃ rich, result = some rich ∧ rich.plainText alt = text ∧
          ((∀ a ∈ inRange text entities, ∀ b ∈ inRange text entities, NestedOrApart a b) →
            ∃ chosen : List (RangeEntity × Option RichTextWrapper),
              (chosen.map Prod.fst).Perm (inRange text entities) ∧
              (∀ p ∈ chosen, (∃ context, p.2 = (lookup.wrapper context p.1).1) ∧
                (p.1.Represented lookup → p.2.isSome)) ∧
              rich.spans alt 0 = chosen.filterMap fun p =>
                p.2.map fun wrapper => (wrapper, p.1.offset, p.1.length))) := by
  set sorted := sortedRichTextEntities std text entities with hdef
  have hperm : sorted.Perm (inRange text entities) := std.perm _
  have hsorted : Sorted sorted.get := fun i j hlt =>
    List.pairwise_iff_getElem.mp (std.sorted (inRange text entities)) i j i.2 j.2 hlt
  have hmem : ∀ i, sorted.get i ∈ inRange text entities := fun i =>
    hperm.mem_iff.mp (List.get_mem sorted i)
  have hcost : cost 0 text.length (none : Option (Fin sorted.length)) <
      enoughSteps text.length sorted.length := by
    rw [cost, enoughSteps, rank, Nat.sub_zero]
    exact Nat.lt_succ_self _
  obtain ⟨result, context', hrun, hwrites⟩ := serializeRichTextRange_spec lookup alt text hsorted
    _ text.length none 0 [] context hcost ⟨Nat.zero_le _, nofun⟩ le_rfl
  refine ⟨result, context', hrun, fun hemoji => ?_⟩
  obtain ⟨rich, hrich, hwrites⟩ := hwrites fun i => hemoji _ (hmem i)
  refine ⟨rich, hrich, ?_, fun hlaminar => ?_⟩
  · rw [hwrites.text, plainTexts, List.nil_append, mid, List.drop_zero, Nat.sub_zero,
      List.take_length]
  · obtain ⟨chosen, hchosen, hspans⟩ := hwrites.spans
      (fun i j => hlaminar _ (hmem i) _ (hmem j)) 0 (by rw [plainTexts]; rfl)
    have hall : (chosen.map Prod.fst).Perm (List.finRange sorted.length) := by
      refine (List.perm_ext_iff_of_nodup hchosen.nodup (List.nodup_finRange _)).mpr fun i => ?_
      rw [hchosen.mem]
      exact iff_of_true (fits_iff.mpr ⟨rfl, Nat.zero_le _, till_le_of_mem (hmem i)⟩)
        (List.mem_finRange i)
    refine ⟨chosen.map fun p => (sorted.get p.1, p.2), ?_, ?_, ?_⟩
    · have hget : (List.finRange sorted.length).map sorted.get = sorted := List.map_get_finRange _
      have hmap := hall.map sorted.get
      rw [hget, List.map_map] at hmap
      rw [List.map_map]
      exact hmap.trans hperm
    · intro p hp
      obtain ⟨q, hq, rfl⟩ := List.mem_map.mp hp
      obtain ⟨context, hcontext⟩ := hchosen.wrapper q hq
      exact ⟨⟨context, hcontext⟩, fun hrep => hcontext ▸ hrep.wrapper context⟩
    · rw [hspans, spansOf, List.nil_append, spansOfChosen, List.filterMap_map]
      rfl

/-! ### What is inside of a custom emoji -/

theorem before_total (a b : RangeEntity) : a.Before b ∨ b.Before a := by
  simp only [RangeEntity.Before]
  omega

theorem before_trans {a b c : RangeEntity} (hab : a.Before b) (hbc : b.Before c) : a.Before c := by
  simp only [RangeEntity.Before] at hab hbc ⊢
  omega

instance : Std.Total RangeEntity.Before := ⟨before_total⟩

instance : IsTrans RangeEntity RangeEntity.Before := ⟨fun _ _ _ => before_trans⟩

/-- A sort that puts one entity after the other where it belongs. -/
def insertionSort : StdSort where
  sort := List.insertionSort RangeEntity.Before
  perm := List.perm_insertionSort _
  sorted := List.pairwise_insertionSort _

/-- Nothing is found, and a custom emoji is written as its text. -/
def plainLookup : Lookup Empty Unit where
  collectMentionUser := fun context _ => (none, context)
  decodeRichPageLinkUrl := fun _ => none
  deserializeFormattedDateData := fun _ => (0, ⟨false, false, false, false, false, false⟩)
  customEmoji := fun context _ segment => (some (makePlainRichText segment), context)

/-- **What is inside of a custom emoji is not written**, although the one is inside the other. -/
theorem emoji_drops_inner : ¬ ∀ (lookup : Lookup Empty Unit) (std : StdSort) (text : QString)
    (entities : List EntityInText) (rich : MTPRichText Empty),
    serializeRichTextValue lookup std text entities () = some (some rich, ()) →
    (∀ a ∈ inRange text entities, ∀ b ∈ inRange text entities, NestedOrApart a b) →
    ∀ e ∈ inRange text entities, e.Represented lookup →
      ∃ wrapper, (wrapper, e.offset, e.length) ∈ rich.spans Empty.elim 0 := by
  intro hall
  obtain ⟨wrapper, hmem⟩ := hall plainLookup insertionSort (ascii "ab")
    [⟨.customEmoji, 0, 2, []⟩, ⟨.bold, 0, 1, []⟩] (.textPlain (ascii "ab")) rfl (by
      decide) ⟨.bold, 0, 1, [], Nat.one_pos⟩ (by decide) trivial
  simp [MTPRichText.spans] at hmem

end Yunogram.Iv
