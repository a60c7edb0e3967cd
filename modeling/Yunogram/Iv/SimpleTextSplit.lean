import Yunogram.Iv.SimpleTextLength

/-!
# Iv/SimpleTextSplit — the page of a simple message

`SplitTextIntoRichPage` makes blocks of a text: its entities of code and of quotes, first ones
first, become blocks of their own, and what is between them becomes paragraphs.  An entity that
begins before the end of the one before is passed over.

The range of an entity is clipped with the text that is cut (`clipped`); when it has nothing left in
there, the entity is left out. -/

namespace Yunogram.Iv.SimpleText

open Markdown (shiftRight)

/-! ## Cutting -/

/-- An entity in the part of its text between two places. -/
def clipped (start till : ℤ) (entity : EntityInText) : Option EntityInText :=
  let offset := max entity.offset start
  let finish := min (entity.offset + entity.length) till
  if offset < finish then
    some { entity with offset := offset - start, length := finish - offset }
  else
    none

/-- `TextUtilities::Trim` and `Ui::Text::Mid`, which cut texts and clip entities exactly.  Being
monospace does not depend on the place, and a line break is trimmed. -/
structure ExactTextUtilities extends TextUtilities where
  mid : TextWithEntities → ℤ → ℤ → TextWithEntities
  newline_trimmed : ∀ c ∈ newline.text, isTrimmed c = true
  monospace_offset : ∀ entity offset, isMonospace { entity with offset } = isMonospace entity
  trim_entities : ∀ text, let kept := text.text.rdropWhile isTrimmed
    (trim text).entities = text.entities.filterMap (clipped
      (leftTrimmed isTrimmed (firstMonospaceOffset isMonospace text.entities kept.length) 0 kept)
      kept.length)
  mid_eq : ∀ text position n, 0 ≤ position → mid text position n =
    { text := (text.text.drop position.toNat).take n.toNat
      entities := text.entities.filterMap (clipped position (position + n)) }

/-! ## Splitting -/

/-- `isBlockEntity`. -/
def isBlockEntity (entity : EntityInText) : Bool :=
  entity.type = .pre || entity.type = .blockquote

/-- `stripBlockEntities`. -/
def stripBlockEntities (part : TextWithEntities) : TextWithEntities :=
  { part with entities := part.entities.filter fun entity => !isBlockEntity entity }

/-- `ranges::sort` of the segments by their offsets; those of one offset come in any order. -/
structure SegmentSort where
  sort : List EntityInText → List EntityInText
  perm : ∀ segments, (sort segments).Perm segments
  sorted : ∀ segments, (sort segments).Pairwise fun a b => a.offset ≤ b.offset

section

variable (ui : ExactTextUtilities)

/-- `Ui::Text::Mid`, then without block entities and trimmed. -/
def cutPart (text : TextWithEntities) (position n : ℤ) : TextWithEntities :=
  ui.trim (stripBlockEntities (ui.mid text position n))

/-- `emitParagraph`: the blocks that it adds. -/
def emitParagraph (text : TextWithEntities) (start till : ℤ) : List Block :=
  let paragraph := cutPart ui text start (till - start)
  if paragraph.text = [] then [] else [{ kind := .paragraph, text := paragraph }]

/-- The blocks that are added for a segment with such a body. -/
def emitSegment (segment : EntityInText) (body : TextWithEntities) : List Block :=
  if body.text = [] then
    []
  else if segment.type = .pre then
    [{ kind := .code, text := body, language := segment.data }]
  else
    [{ kind := .quote, text := body, collapsed := segment.data ≠ [] }]

/-- `for (const auto &segment : segments)` from the cursor on, and the last paragraph. -/
def splitFrom (text : TextWithEntities) (cursor : ℤ) : List EntityInText → List Block
  | [] => emitParagraph ui text cursor text.text.length
  | segment :: segments =>
    if segment.offset < cursor then
      splitFrom text cursor segments
    else
      emitParagraph ui text cursor segment.offset
        ++ emitSegment segment (cutPart ui text segment.offset segment.length)
        ++ splitFrom text (segment.offset + segment.length) segments

/-- `SplitTextIntoRichPage`. -/
def splitTextIntoRichPage (std : SegmentSort) (text : TextWithEntities) : RichPage where
  blocks := splitFrom ui text 0 (std.sort (text.entities.filter isBlockEntity))

end

/-! ## The pieces of any text -/

/-- A text is these pieces, with nothing between and around them but what is trimmed. -/
inductive Pieces (isTrimmed : UInt16 → Bool) : QString → List QString → Prop
  | done (gap : QString) (h : ∀ c ∈ gap, isTrimmed c = true) : Pieces isTrimmed gap []
  | piece (gap body rest : QString) (bodies : List QString) (h : ∀ c ∈ gap, isTrimmed c = true)
    (others : Pieces isTrimmed rest bodies) :
    Pieces isTrimmed (gap ++ body ++ rest) (body :: bodies)

section

variable {isTrimmed : UInt16 → Bool}

theorem Pieces.gap_append {gap text : QString} {bodies : List QString}
    (hgap : ∀ c ∈ gap, isTrimmed c = true) (h : Pieces isTrimmed text bodies) :
    Pieces isTrimmed (gap ++ text) bodies := by
  cases h with
  | done gap' h =>
    refine .done _ fun c hc => ?_
    exact (List.mem_append.1 hc).elim (hgap c) (h c)
  | piece gap' body rest bodies h others =>
    rw [← List.append_assoc, ← List.append_assoc]
    refine .piece _ body rest bodies (fun c hc => ?_) others
    exact (List.mem_append.1 hc).elim (hgap c) (h c)

/-- Pieces of one text and pieces of the next. -/
theorem Pieces.append {a b : QString} {bodies bodies' : List QString}
    (ha : Pieces isTrimmed a bodies) (hb : Pieces isTrimmed b bodies') :
    Pieces isTrimmed (a ++ b) (bodies ++ bodies') := by
  induction ha with
  | done gap h => exact hb.gap_append h
  | piece gap body rest bodies h others ih =>
    rw [List.append_assoc (gap ++ body)]
    exact .piece gap body _ _ h ih

theorem mem_of_rdropWhile (text : QString) :
    ∃ gap, text = text.rdropWhile isTrimmed ++ gap ∧ ∀ c ∈ gap, isTrimmed c = true :=
  ⟨text.rtakeWhile isTrimmed, List.rdropWhile_append_rtakeWhile.symm,
    fun _ hc => List.mem_rtakeWhile_imp hc⟩

end

/-- What is trimmed away, and what is left. -/
theorem trim_gaps (ui : TextUtilities) (text : TextWithEntities) :
    ∃ before after, text.text = before ++ (ui.trim text).text ++ after ∧
      (∀ c ∈ before, ui.isTrimmed c = true) ∧ ∀ c ∈ after, ui.isTrimmed c = true := by
  obtain ⟨after, hafter, htrimmed⟩ := @mem_of_rdropWhile ui.isTrimmed text.text
  obtain ⟨before, rest, hkept, hstart, hbefore, -⟩ := @leftTrimmed_spec ui.isTrimmed
    (firstMonospaceOffset ui.isMonospace text.entities (text.text.rdropWhile ui.isTrimmed).length) 0
    (text.text.rdropWhile ui.isTrimmed)
  refine ⟨before, after, ?_, hbefore, htrimmed⟩
  have hrest : (ui.trim text).text = rest := by
    rw [ui.trim_text, trimmedText, hstart, Nat.zero_add, hkept, List.drop_left]
  rw [hrest, ← hkept]
  exact hafter

variable {ui : ExactTextUtilities} {text : TextWithEntities}

/-- A part of the text, with the blocks made of it: one block of what is left of the part, or none
when nothing is left. -/
theorem pieces_cutPart {position n : ℤ} (hposition : 0 ≤ position) (blocks : List Block)
    (hblocks : blocks.map (·.text.text) = if (cutPart ui text position n).text = [] then []
      else [(cutPart ui text position n).text]) :
    Pieces ui.isTrimmed ((text.text.drop position.toNat).take n.toNat)
      (blocks.map (·.text.text)) := by
  obtain ⟨before, after, heq, hbefore, hafter⟩ :=
    trim_gaps ui.toTextUtilities (stripBlockEntities (ui.mid text position n))
  have hpart : (stripBlockEntities (ui.mid text position n)).text
      = (text.text.drop position.toNat).take n.toNat := by
    rw [stripBlockEntities, ui.mid_eq _ _ _ hposition]
  rw [hpart] at heq
  rw [hblocks, heq]
  split_ifs with hnil
  · rw [cutPart] at hnil
    rw [hnil, List.append_nil]
    exact .done _ fun c hc => (List.mem_append.1 hc).elim (hbefore c) (hafter c)
  · exact .piece before _ after [] hbefore (.done after hafter)

theorem pieces_emitParagraph {start till : ℤ} (hstart : 0 ≤ start) :
    Pieces ui.isTrimmed ((text.text.drop start.toNat).take (till - start).toNat)
      ((emitParagraph ui text start till).map (·.text.text)) := by
  refine pieces_cutPart hstart _ ?_
  rw [emitParagraph]
  split_ifs <;> rfl

theorem pieces_emitSegment {segment : EntityInText} (hoffset : 0 ≤ segment.offset) :
    Pieces ui.isTrimmed ((text.text.drop segment.offset.toNat).take segment.length.toNat)
      ((emitSegment segment (cutPart ui text segment.offset segment.length)).map
        (·.text.text)) := by
  refine pieces_cutPart hoffset _ ?_
  rw [emitSegment]
  split_ifs <;> rfl

/-- **From the cursor on, the blocks are the pieces of the text.** -/
theorem pieces_splitFrom {segments : List EntityInText}
    (hlength : ∀ segment ∈ segments, 0 ≤ segment.length) {cursor : ℤ} (hcursor : 0 ≤ cursor) :
    Pieces ui.isTrimmed (text.text.drop cursor.toNat)
      ((splitFrom ui text cursor segments).map (·.text.text)) := by
  induction segments generalizing cursor with
  | nil =>
    have htake : (text.text.drop cursor.toNat).take (text.text.length - cursor).toNat
        = text.text.drop cursor.toNat := by
      rw [List.take_of_length_le]
      rw [List.length_drop]
      omega
    rw [splitFrom, ← htake]
    exact pieces_emitParagraph hcursor
  | cons segment segments ih =>
    have hrest := fun s hs => hlength s (List.mem_cons_of_mem _ hs)
    rw [splitFrom]
    split_ifs with hbefore
    · exact ih hrest hcursor
    · have hpos := hlength segment List.mem_cons_self
      have htext : text.text.drop cursor.toNat
          = (text.text.drop cursor.toNat).take (segment.offset - cursor).toNat
            ++ (text.text.drop segment.offset.toNat).take segment.length.toNat
            ++ text.text.drop (segment.offset + segment.length).toNat := by
        have hfirst : text.text.drop segment.offset.toNat
            = (text.text.drop cursor.toNat).drop (segment.offset - cursor).toNat := by
          rw [List.drop_drop]
          congr 1
          omega
        have hsecond : text.text.drop (segment.offset + segment.length).toNat
            = (text.text.drop segment.offset.toNat).drop segment.length.toNat := by
          rw [List.drop_drop]
          congr 1
          omega
        rw [hsecond, List.append_assoc, List.take_append_drop, hfirst, List.take_append_drop]
      rw [htext, List.map_append, List.map_append]
      exact ((pieces_emitParagraph hcursor).append (pieces_emitSegment (by omega))).append
        (ih hrest (by omega))

/-- Every block has a trimmed text. -/
theorem trim_of_mem_splitFrom {segments : List EntityInText} {cursor : ℤ} {block : Block}
    (h : block ∈ splitFrom ui text cursor segments) :
    block.text.text ≠ [] ∧ (ui.trim block.text).text = block.text.text := by
  have hcut : ∀ position n : ℤ, (ui.trim (cutPart ui text position n)).text
      = (cutPart ui text position n).text := fun position n => (isTidy_trim _).trim_text
  have hparagraph : ∀ start till, block ∈ emitParagraph ui text start till →
      block.text.text ≠ [] ∧ (ui.trim block.text).text = block.text.text := by
    intro start till hmem
    rw [emitParagraph] at hmem
    split_ifs at hmem with hnil
    · exact absurd hmem List.not_mem_nil
    · rw [List.mem_singleton.1 hmem]
      exact ⟨hnil, hcut _ _⟩
  induction segments generalizing cursor with
  | nil => exact hparagraph _ _ h
  | cons segment segments ih =>
    rw [splitFrom] at h
    split_ifs at h with hbefore
    · exact ih h
    · rcases List.mem_append.1 h with h | h
      · rcases List.mem_append.1 h with h | h
        · exact hparagraph _ _ h
        · rw [emitSegment] at h
          split_ifs at h with hnil hpre
          · exact absurd h List.not_mem_nil
          · rw [List.mem_singleton.1 h]
            exact ⟨hnil, hcut _ _⟩
          · rw [List.mem_singleton.1 h]
            exact ⟨hnil, hcut _ _⟩
      · exact ih h

end Yunogram.Iv.SimpleText
