import Yunogram.Iv.SimpleTextSplit

/-!
# Iv/SimpleTextClip — parts of a text that was put together

A text with others before and behind it is cut out of the whole as it was (`mid_append`), when all
entities are within their texts.  Between gaps, which have only characters that are trimmed, a tidy
text is what trimming leaves (`trim_gaps_around`). -/

namespace Yunogram.Iv.SimpleText

open Markdown (shiftRight)

/-! ## Clipping -/

theorem text_ext {a b : TextWithEntities} (htext : a.text = b.text)
    (hentities : a.entities = b.entities) : a = b := by
  cases a
  cases b
  congr

/-- Every entity has a range within the text. -/
def IsWithin (text : TextWithEntities) : Prop :=
  ∀ e ∈ text.entities, 0 ≤ e.offset ∧ 0 < e.length ∧ e.offset + e.length ≤ text.text.length

theorem IsWithin.append {a b : TextWithEntities} (ha : IsWithin a) (hb : IsWithin b) :
    IsWithin (append a b) := by
  intro e he
  rw [append_text, List.length_append]
  rcases List.mem_append.1 he with he | he
  · have hrange := ha e he
    omega
  · obtain ⟨e', he', rfl⟩ := List.mem_map.1 he
    have hrange := hb e' he'
    rw [shiftRight]
    dsimp only
    omega

theorem IsWithin.of_no_entities {text : TextWithEntities} (h : text.entities = []) :
    IsWithin text := by
  intro e he
  rw [h] at he
  exact absurd he List.not_mem_nil

section

variable {start till : ℤ} {e : EntityInText}

/-- An entity in the part is kept, at its place there. -/
theorem clipped_inside (hstart : start ≤ e.offset) (hpos : 0 < e.length)
    (htill : e.offset + e.length ≤ till) :
    clipped start till e = some { e with offset := e.offset - start } := by
  rw [clipped, max_eq_left hstart, min_eq_left htill, if_pos (by omega)]
  congr
  omega

theorem clipped_before (h : e.offset + e.length ≤ start) : clipped start till e = none := by
  rw [clipped, if_neg]
  have hmax := le_max_right e.offset start
  have hmin := min_le_left (e.offset + e.length) till
  omega

theorem clipped_after (h : till ≤ e.offset) : clipped start till e = none := by
  rw [clipped, if_neg]
  have hmax := le_max_left e.offset start
  have hmin := min_le_right (e.offset + e.length) till
  omega

end

/-- The entities of a part, between what is before it and what is behind. -/
theorem filterMap_clipped {a b c : TextWithEntities} (ha : IsWithin a) (hb : IsWithin b)
    (hc : IsWithin c) :
    (append (append a b) c).entities.filterMap
      (clipped a.text.length (a.text.length + b.text.length)) = b.entities := by
  have hfirst : a.entities.filterMap
      (clipped a.text.length (a.text.length + b.text.length)) = [] := by
    rw [List.filterMap_eq_nil_iff]
    exact fun e he => clipped_before (ha e he).2.2
  have hmiddle : (b.entities.map fun e => shiftRight e a.text.length).filterMap
      (clipped a.text.length (a.text.length + b.text.length)) = b.entities := by
    rw [List.filterMap_map]
    refine (List.filterMap_congr fun e he => ?_).trans List.filterMap_some
    obtain ⟨hpos, hlength, htill⟩ := hb e he
    rw [Function.comp_apply, clipped_inside]
    · rw [shiftRight]
      congr
      dsimp only
      omega
    all_goals
      rw [shiftRight]
      dsimp only
      omega
  have hlast : (c.entities.map fun e => shiftRight e (append a b).text.length).filterMap
      (clipped a.text.length (a.text.length + b.text.length)) = [] := by
    rw [List.filterMap_map, List.filterMap_eq_nil_iff]
    intro e he
    obtain ⟨hpos, -, -⟩ := hc e he
    rw [Function.comp_apply, clipped_after]
    rw [shiftRight, append_text, List.length_append]
    dsimp only
    omega
  change (a.entities ++ b.entities.map _ ++ c.entities.map _).filterMap _ = _
  rw [List.filterMap_append, List.filterMap_append, hfirst, hmiddle, hlast, List.nil_append,
    List.append_nil]

variable {ui : ExactTextUtilities}

/-- **A part is cut out as it was put in.** -/
theorem mid_append {a b c : TextWithEntities} (ha : IsWithin a) (hb : IsWithin b)
    (hc : IsWithin c) :
    ui.mid (append (append a b) c) a.text.length b.text.length = b := by
  rw [ui.mid_eq _ _ _ (Int.natCast_nonneg _), filterMap_clipped ha hb hc]
  refine text_ext ?_ rfl
  dsimp only
  rw [Int.toNat_natCast, Int.toNat_natCast, append_text, append_text, List.append_assoc,
    List.drop_left, List.take_left]

/-! ## Trimming what is around a text -/

theorem leftTrimmed_append {isTrimmed : UInt16 → Bool} {stop : ℤ} {taken rest : QString}
    (htaken : ∀ c ∈ taken, isTrimmed c = true) (hne : rest ≠ []) (start : ℕ)
    (hstop : (start + taken.length : ℤ) ≤ stop)
    (hrest : stop = start + taken.length ∨ ∀ c rest', rest = c :: rest' → isTrimmed c = false) :
    leftTrimmed isTrimmed stop start (taken ++ rest) = start + taken.length := by
  induction taken generalizing start with
  | nil =>
    obtain ⟨c, rest', rfl⟩ := List.exists_cons_of_ne_nil hne
    rw [List.nil_append, leftTrimmed, if_neg]
    · rfl
    · rintro ⟨hstart, hc⟩
      rcases hrest with hrest | hrest
      · rw [List.length_nil] at hrest
        omega
      · rw [hrest c rest' rfl] at hc
        exact Bool.false_ne_true hc
  | cons c taken ih =>
    rw [List.length_cons] at hstop hrest
    have htail := fun d hd => htaken d (List.mem_cons_of_mem c hd)
    rw [List.cons_append, leftTrimmed, if_pos, ih htail, List.length_cons]
    · omega
    · push_cast
      omega
    · refine hrest.imp_left fun h => ?_
      rw [h]
      push_cast
      omega
    · exact ⟨by omega, htaken c List.mem_cons_self⟩

theorem le_firstMonospaceOffset {isMonospace : EntityInText → Bool} {entities : List EntityInText}
    {least length : ℤ} (hleast : ∀ e ∈ entities, least ≤ e.offset) (hlength : least ≤ length) :
    least ≤ firstMonospaceOffset isMonospace entities length := by
  rw [firstMonospaceOffset]
  cases hmin : ((entities.filter isMonospace).map (·.offset)).min? with
  | none => exact hlength
  | some first =>
    obtain ⟨e, he, rfl⟩ := List.mem_map.1 (List.min?_mem hmin)
    exact hleast e (List.mem_filter.1 he).1

/-- A text of trimmed characters only. -/
structure IsGap (ui : ExactTextUtilities) (gap : TextWithEntities) : Prop where
  entities : gap.entities = []
  trimmed : ∀ c ∈ gap.text, ui.isTrimmed c = true

theorem IsGap.empty : IsGap ui { text := [] } := ⟨rfl, by simp⟩

theorem IsGap.newline : IsGap ui newline := ⟨rfl, ui.newline_trimmed⟩

theorem rdropWhile_append_gap {isTrimmed : UInt16 → Bool} (text : QString) {gap : QString}
    (h : ∀ c ∈ gap, isTrimmed c = true) :
    (text ++ gap).rdropWhile isTrimmed = text.rdropWhile isTrimmed := by
  induction gap using List.reverseRecOn with
  | nil => rw [List.append_nil]
  | append_singleton gap c ih =>
    rw [← List.append_assoc, List.rdropWhile_concat_pos _ _ _ (h c (by simp)),
      ih fun d hd => h d (List.mem_append_left _ hd)]

/-- **Trimming takes away what is around a tidy text.** -/
theorem trim_gaps_around {before text after : TextWithEntities} (hbefore : IsGap ui before)
    (htidy : IsTidy ui.toTextUtilities text) (hwithin : IsWithin text) (hne : text.text ≠ [])
    (hafter : IsGap ui after) : ui.trim (append (append before text) after) = text := by
  have hentities : (append (append before text) after).entities
      = text.entities.map fun e => shiftRight e before.text.length := by
    simp [append, hbefore.entities, hafter.entities]
  have hkept : (append (append before text) after).text.rdropWhile ui.isTrimmed
      = before.text ++ text.text := by
    rw [append_text, append_text, rdropWhile_append_gap _ hafter.trimmed,
      rdropWhile_append_self _ htidy.right hne]
  have hleast : ∀ e ∈ (append (append before text) after).entities,
      (before.text.length : ℤ) ≤ e.offset := by
    intro e he
    rw [hentities] at he
    obtain ⟨e', he', rfl⟩ := List.mem_map.1 he
    have hpos := htidy.inside e' he'
    rw [shiftRight]
    dsimp only
    omega
  have hstart : leftTrimmed ui.isTrimmed (firstMonospaceOffset ui.isMonospace
      (append (append before text) after).entities (before.text ++ text.text).length) 0
      (before.text ++ text.text) = before.text.length := by
    rw [← Nat.zero_add before.text.length]
    refine leftTrimmed_append hbefore.trimmed hne 0 ?_ ?_
    · rw [Nat.cast_zero, zero_add]
      refine le_firstMonospaceOffset hleast ?_
      rw [List.length_append]
      omega
    · rw [Nat.cast_zero, zero_add]
      obtain ⟨c, rest, hcons⟩ := List.exists_cons_of_ne_nil hne
      rcases htidy.left c rest hcons with hc | ⟨e, he, hmono, hzero⟩
      · right
        intro d rest' heq
        rw [hcons] at heq
        exact (List.cons.inj heq).1 ▸ hc
      · refine .inl (firstMonospaceOffset_eq hleast
          ⟨shiftRight e before.text.length, ?_, ?_, ?_⟩ _)
        · rw [hentities]
          exact List.mem_map_of_mem he
        · rw [shiftRight, ui.monospace_offset, hmono]
        · rw [shiftRight, hzero, zero_add]
  refine text_ext ?_ ?_
  · rw [ui.trim_text, trimmedText, hkept, hstart, List.drop_left]
  · have htrim := ui.trim_entities (append (append before text) after)
    dsimp only at htrim
    rw [hkept, hstart, List.length_append, Nat.cast_add, filterMap_clipped
      (.of_no_entities hbefore.entities) hwithin (.of_no_entities hafter.entities)] at htrim
    exact htrim

/-- A tidy text is left as it is, with its entities. -/
theorem trim_eq_self {text : TextWithEntities} (htidy : IsTidy ui.toTextUtilities text)
    (hwithin : IsWithin text) (hne : text.text ≠ []) : ui.trim text = text := by
  have heq : append (append { text := [] } text) { text := [] } = text := by
    refine text_ext ?_ ?_ <;> simp [append, shiftRight]
  rw [← heq]
  exact heq.symm ▸ trim_gaps_around .empty htidy hwithin hne .empty

/-- What clipping leaves of an entity. -/
theorem clipped_some {start till : ℤ} {e e' : EntityInText} (h : clipped start till e = some e') :
    (0 ≤ e'.offset ∧ 0 < e'.length ∧ e'.offset + e'.length ≤ till - start) ∧
      e'.type = e.type ∧ e'.data = e.data := by
  rw [clipped] at h
  split_ifs at h with hlt
  obtain rfl := Option.some.inj h
  have hmax := le_max_right e.offset start
  have hmin := min_le_right (e.offset + e.length) till
  refine ⟨⟨?_, ?_, ?_⟩, rfl, rfl⟩ <;> dsimp only at hlt ⊢ <;> omega

theorem mem_trim {text : TextWithEntities} {e' : EntityInText}
    (h : e' ∈ (ui.trim text).entities) :
    ∃ e ∈ text.entities, e'.type = e.type ∧ e'.data = e.data := by
  rw [ui.trim_entities] at h
  obtain ⟨e, he, hclip⟩ := List.mem_filterMap.1 h
  exact ⟨e, he, (clipped_some hclip).2⟩

/-- Trimming clips to what is left. -/
theorem isWithin_trim (text : TextWithEntities) : IsWithin (ui.trim text) := by
  intro e' he'
  have hlength := congrArg List.length (ui.trim_text text)
  rw [trimmedText, List.length_drop] at hlength
  rw [ui.trim_entities] at he'
  obtain ⟨e, he, hclip⟩ := List.mem_filterMap.1 he'
  have hrange := (clipped_some hclip).1
  omega

end Yunogram.Iv.SimpleText
