import Mathlib
import Yunogram.Iv.SimpleTextRejoin

/-!
# Iv/SimpleTextRoundTrip — a simple message split and written again

`SplitTextIntoRichPage` finds the entities of a message again, and with them its pieces; only that
paragraphs next to each other come back as one (`regrouped`).  Writing these joins the same pieces,
so that the message is the same (`split_simple_text`). -/

namespace Yunogram.Iv.SimpleText

open Markdown (Library Unicode shiftRight)

variable {lib : Library} {ui : ExactTextUtilities}

/-! ## What is read -/

/-- The segments of a text. -/
def blockSegments (text : TextWithEntities) : List EntityInText :=
  text.entities.filter isBlockEntity

theorem blockSegments_append (a b : TextWithEntities) : blockSegments (append a b)
    = blockSegments a ++ (blockSegments b).map fun e => shiftRight e a.text.length := by
  rw [blockSegments, append]
  dsimp only
  rw [List.filter_append, List.filter_map]
  rfl

theorem blockSegments_of_plain {text : TextWithEntities} (h : HasNoBlocks text) :
    blockSegments text = [] := by
  rw [blockSegments, List.filter_eq_nil_iff]
  exact fun e he => by rw [h e he]; exact Bool.false_ne_true

theorem stripBlockEntities_of_plain {text : TextWithEntities} (h : HasNoBlocks text) :
    stripBlockEntities text = text := by
  refine text_ext rfl ?_
  rw [stripBlockEntities, List.filter_eq_self]
  exact fun e he => by rw [h e he]; rfl

/-- The paragraph that some text makes, if it has any. -/
def paragraphOf (pending : TextWithEntities) : List Block :=
  if pending.text = [] then [] else [{ kind := .paragraph, text := pending }]

/-- The blocks that pieces come back as: paragraphs next to each other are one. -/
def regrouped (pending : TextWithEntities) : List Piece → List Block
  | [] => paragraphOf pending
  | p :: pieces =>
    if p.wrap = .invalid then
      regrouped (joined pending p.body) pieces
    else
      paragraphOf pending ++ emitSegment ⟨p.wrap, 0, p.body.text.length, p.data⟩ p.body
        ++ regrouped { text := [] } pieces

theorem IsGap.plain {gap : TextWithEntities} (h : IsGap ui gap) : HasNoBlocks gap := by
  intro e he
  rw [h.entities] at he
  exact absurd he List.not_mem_nil

theorem HasNoBlocks.append {a b : TextWithEntities} (ha : HasNoBlocks a) (hb : HasNoBlocks b) :
    HasNoBlocks (append a b) := by
  intro e he
  rcases List.mem_append.1 he with he | he
  · exact ha e he
  · obtain ⟨e', he', rfl⟩ := List.mem_map.1 he
    exact hb e' he'

theorem trim_gap {gap : TextWithEntities} (h : IsGap ui gap) : (ui.trim gap).text = [] := by
  rw [ui.trim_text, trimmedText, List.rdropWhile_eq_nil_iff.2 h.trimmed, List.drop_nil]

theorem IsGap.append {a b : TextWithEntities} (ha : IsGap ui a) (hb : IsGap ui b) :
    IsGap ui (append a b) where
  entities := by simp [SimpleText.append, ha.entities, hb.entities]
  trimmed := fun c hc => (List.mem_append.1 hc).elim (ha.trimmed c) (hb.trimmed c)

/-- **A body between gaps is read as a paragraph.** -/
theorem emitParagraph_eq {a gap pending gap' c : TextWithEntities} (ha : IsWithin a)
    (hgap : IsGap ui gap) (hpending : IsBody lib ui pending) (hgap' : IsGap ui gap')
    (hc : IsWithin c) :
    emitParagraph ui (append (append a (append (append gap pending) gap')) c) a.text.length
        (append a (append (append gap pending) gap')).text.length = paragraphOf pending := by
  have hplain : HasNoBlocks (append (append gap pending) gap') :=
    (hgap.plain.append hpending.plain).append hgap'.plain
  have hpart : IsWithin (append (append gap pending) gap') :=
    (IsWithin.append (.of_no_entities hgap.entities) hpending.within).append
      (.of_no_entities hgap'.entities)
  have hlength : ((append a (append (append gap pending) gap')).text.length : ℤ) - a.text.length
      = (append (append gap pending) gap').text.length := by
    rw [append_text a, List.length_append]
    omega
  rw [emitParagraph, cutPart, hlength, mid_append ha hpart hc, stripBlockEntities_of_plain hplain,
    paragraphOf]
  by_cases hnil : pending.text = []
  · have hempty : pending = { text := [] } := text_ext hnil (hpending.entities hnil)
    have htrim : (ui.trim (append (append gap pending) gap')).text = [] := by
      rw [hempty, append_empty]
      exact trim_gap (hgap.append hgap')
    rw [if_pos htrim, if_pos hnil]
  · rw [trim_gaps_around hgap hpending.toIsTidy hpending.within hnil hgap']

/-- **What an entity is around is read as its body.** -/
theorem cutPart_wrapped {a c : TextWithEntities} {p : Piece} (hp : IsPiece lib ui p)
    (hwrap : p.wrap ≠ .invalid) (ha : IsWithin a) (hc : IsWithin c) :
    cutPart ui (append (append a p.text) c) a.text.length p.body.text.length = p.body := by
  have hlength : p.body.text.length = p.text.text.length := by rw [Piece.text, wrapped_text]
  have hblock : isBlockEntity ⟨p.wrap, 0, p.body.text.length, p.data⟩ = true := by
    rcases hp.wrap with h | ⟨h, -⟩ | ⟨h, -⟩
    · exact absurd h hwrap
    · simp [isBlockEntity, h]
    · simp [isBlockEntity, h]
  have hstrip : stripBlockEntities p.text = p.body := by
    have hbody := congrArg Markdown.TextWithEntities.entities (stripBlockEntities_of_plain hp.body.plain)
    rw [Piece.text, wrapped, if_pos hwrap, stripBlockEntities]
    refine text_ext rfl ?_
    dsimp only [stripBlockEntities] at hbody ⊢
    rw [List.filter_append, hbody, List.filter_cons_of_neg (by simp [hblock]), List.filter_nil,
      List.append_nil]
  rw [cutPart, hlength, mid_append ha hp.within hc, hstrip,
    trim_eq_self hp.body.toIsTidy hp.body.within hp.ne_nil]

theorem blockSegments_piece {p : Piece} (hp : IsPiece lib ui p) :
    blockSegments p.text = if p.wrap = .invalid then []
      else [⟨p.wrap, 0, p.body.text.length, p.data⟩] := by
  have hbody := blockSegments_of_plain hp.body.plain
  rw [blockSegments] at hbody ⊢
  rw [Piece.text, wrapped]
  rcases hp.wrap with h | ⟨h, -⟩ | ⟨h, -⟩ <;> simp [h, hbody, isBlockEntity]

/-- Pieces behind a line break, or none. -/
theorem tail_eq {pieces : List Piece} (h : ∀ p ∈ pieces, IsPiece lib ui p) :
    ∃ gap, IsGap ui gap ∧ tail pieces = append gap (joinAll { text := [] } pieces) := by
  cases pieces with
  | nil => exact ⟨_, .empty, rfl⟩
  | cons p pieces =>
    refine ⟨newline, .newline, ?_⟩
    rw [tail, joinAll, List.foldl_cons, joined_of_nil (@IsBuilt.empty ui.toTextUtilities) rfl,
      ← joinAll, joinAll_eq (h p List.mem_cons_self).text_ne_nil]

/-- What is pending, and a piece with others behind it. -/
theorem joinAll_cons {pending : TextWithEntities} (hpending : IsBody lib ui pending) {p : Piece}
    (hp : IsPiece lib ui p) (pieces : List Piece) :
    ∃ gap, IsGap ui gap ∧ joinAll pending (p :: pieces)
      = append (append pending gap) (append p.text (tail pieces)) := by
  rw [joinAll, List.foldl_cons, ← joinAll]
  by_cases hnil : pending.text = []
  · refine ⟨_, .empty, ?_⟩
    rw [joined_of_nil hpending.toIsBuilt hnil, joinAll_eq hp.text_ne_nil, append_empty,
      text_ext (b := ⟨[], []⟩) hnil (hpending.entities hnil), empty_append]
  · refine ⟨newline, .newline, ?_⟩
    rw [joined_of_ne hnil, joinAll_eq (append_text_ne_nil hnil _)]
    simp only [append_assoc]

/-- **The pieces are read again**, behind any text, up to which the cursor is. -/
theorem splitFrom_joinAll {pieces : List Piece} (h : ∀ p ∈ pieces, IsPiece lib ui p)
    {a gap pending : TextWithEntities} (ha : IsWithin a) (hgap : IsGap ui gap)
    (hpending : IsBody lib ui pending) :
    splitFrom ui (append a (append gap (joinAll pending pieces))) a.text.length
      ((blockSegments (append gap (joinAll pending pieces))).map fun e =>
        shiftRight e a.text.length) = regrouped pending pieces := by
  induction pieces generalizing a gap pending with
  | nil =>
    have hplain : HasNoBlocks (append gap pending) := hgap.plain.append hpending.plain
    have hparagraph := emitParagraph_eq ha hgap hpending IsGap.empty
      (@IsWithin.of_no_entities { text := [] } rfl)
    simp only [append_empty] at hparagraph
    rw [joinAll, List.foldl_nil, blockSegments_of_plain hplain, List.map_nil, splitFrom, regrouped]
    exact hparagraph
  | cons p pieces ih =>
    have hp := h p List.mem_cons_self
    have hpieces := fun q hq => h q (List.mem_cons_of_mem p hq)
    rw [regrouped]
    split_ifs with hwrap
    · have htext : p.text = p.body := by rw [Piece.text, wrapped, if_neg (not_not.2 hwrap)]
      rw [joinAll, List.foldl_cons, htext, ← joinAll]
      exact ih hpieces ha hgap (hpending.joined hp.body hp.ne_nil)
    · obtain ⟨gap', hgap', hjoin⟩ := joinAll_cons hpending hp pieces
      obtain ⟨gap'', hgap'', htail⟩ := tail_eq hpieces
      have hplain : HasNoBlocks (append (append gap pending) gap') :=
        (hgap.plain.append hpending.plain).append hgap'.plain
      have hbefore : IsWithin (append a (append (append gap pending) gap')) :=
        ha.append (IsWithin.append (IsWithin.append (.of_no_entities hgap.entities)
          hpending.within) (.of_no_entities hgap'.entities))
      have hrest : append gap (joinAll pending (p :: pieces))
          = append (append (append gap pending) gap') (append p.text (tail pieces)) := by
        rw [hjoin]
        simp only [append_assoc]
      have hsegments : (blockSegments (append gap (joinAll pending (p :: pieces)))).map
            (fun e => shiftRight e a.text.length)
          = ⟨p.wrap, (append a (append (append gap pending) gap')).text.length,
              p.body.text.length, p.data⟩ ::
            (blockSegments (tail pieces)).map fun e => shiftRight e
              (append (append a (append (append gap pending) gap')) p.text).text.length := by
        rw [hrest, blockSegments_append, blockSegments_of_plain hplain, List.nil_append,
          blockSegments_append, blockSegments_piece hp, if_neg hwrap]
        simp only [List.map_cons, List.map_map, Function.comp_def, List.singleton_append,
          shiftRight_shiftRight]
        congr 1
        · rw [shiftRight]
          congr 1
          simp only [append_text, List.length_append]
          push_cast
          omega
        · refine List.map_congr_left fun e _ => ?_
          congr 2
          simp only [append_text, List.length_append]
          omega
      have hparagraph := emitParagraph_eq ha hgap hpending hgap'
        (hp.within.append (tail_within hpieces))
      have hbody := cutPart_wrapped hp hwrap hbefore (tail_within hpieces)
      have hothers := ih hpieces (hbefore.append hp.within) hgap'' .empty
      have hcursor : ((append a (append (append gap pending) gap')).text.length
          + p.body.text.length : ℤ)
          = (append (append a (append (append gap pending) gap')) p.text).text.length := by
        rw [append_text _ p.text, List.length_append, Piece.text, wrapped_text]
        push_cast
        rfl
      rw [← htail] at hothers
      rw [hsegments, hrest, splitFrom, if_neg]
      · dsimp only
        rw [hcursor, ← append_assoc a, hparagraph, ← append_assoc _ p.text, hbody, hothers]
        rfl
      · rw [append_text a, List.length_append]
        dsimp only
        omega

/-! ## The order of the segments -/

/-- The segments of a text are in order. -/
def InOrder (text : TextWithEntities) : Prop :=
  (blockSegments text).Pairwise fun a b => a.offset < b.offset

theorem InOrder.append {a b : TextWithEntities} (ha : InOrder a) (hb : InOrder b)
    (hwithin : IsWithin a) (hwithin' : IsWithin b) : InOrder (append a b) := by
  rw [InOrder, blockSegments_append, List.pairwise_append]
  refine ⟨ha, ?_, fun e he e' he' => ?_⟩
  · rw [List.pairwise_map]
    refine hb.imp fun {e e'} hlt => ?_
    rw [shiftRight, shiftRight]
    dsimp only
    omega
  · obtain ⟨e'', he'', rfl⟩ := List.mem_map.1 he'
    obtain ⟨hpos, hlength, htill⟩ := hwithin e (List.mem_filter.1 he).1
    obtain ⟨hpos', -, -⟩ := hwithin' e'' (List.mem_filter.1 he'').1
    rw [shiftRight]
    dsimp only
    omega

theorem InOrder.of_plain {text : TextWithEntities} (h : HasNoBlocks text) : InOrder text := by
  rw [InOrder, blockSegments_of_plain h]
  exact .nil

theorem IsPiece.inOrder {p : Piece} (h : IsPiece lib ui p) : InOrder p.text := by
  rw [InOrder, blockSegments_piece h]
  split_ifs
  · exact .nil
  · exact List.pairwise_singleton _ _

theorem joinAll_inOrder {pieces : List Piece} (h : ∀ p ∈ pieces, IsPiece lib ui p) :
    InOrder (joinAll { text := [] } pieces) ∧ IsWithin (joinAll { text := [] } pieces) := by
  have htail : ∀ pieces : List Piece, (∀ p ∈ pieces, IsPiece lib ui p) →
      InOrder (tail pieces) := by
    intro pieces
    induction pieces with
    | nil => exact fun _ => .of_plain (by simp [HasNoBlocks, tail])
    | cons p pieces ih =>
      intro h
      have hp := h p List.mem_cons_self
      have hpieces := fun q hq => h q (List.mem_cons_of_mem p hq)
      exact (InOrder.of_plain (by simp [HasNoBlocks, newline])).append
        (hp.inOrder.append (ih hpieces) hp.within (tail_within hpieces)) (.of_no_entities rfl)
        (hp.within.append (tail_within hpieces))
  cases pieces with
  | nil => exact ⟨.of_plain (by simp [HasNoBlocks, joinAll]), .of_no_entities rfl⟩
  | cons p pieces =>
    have hp := h p List.mem_cons_self
    have hpieces := fun q hq => h q (List.mem_cons_of_mem p hq)
    rw [joinAll, List.foldl_cons, joined_of_nil (@IsBuilt.empty ui.toTextUtilities) rfl, ← joinAll,
      joinAll_eq hp.text_ne_nil]
    exact ⟨hp.inOrder.append (htail pieces hpieces) hp.within (tail_within hpieces),
      hp.within.append (tail_within hpieces)⟩

/-- **Segments in order are left so.** -/
theorem sort_of_inOrder (std : SegmentSort) {text : TextWithEntities} (h : InOrder text) :
    std.sort (blockSegments text) = blockSegments text := by
  have hle : (blockSegments text).Pairwise fun a b => a.offset ≤ b.offset := h.imp fun hlt => hlt.le
  have hsymm : Std.Symm fun a b : EntityInText => a.offset ≠ b.offset := ⟨fun _ _ hne => hne.symm⟩
  refine List.Perm.eq_of_pairwise ?_ (std.sorted _) hle (std.perm _)
  intro e e' he he' hle hle'
  by_contra hne
  have hoffset : e.offset ≠ e'.offset :=
    List.Pairwise.forall (h.imp fun hlt => hlt.ne) ((std.perm _).mem_iff.1 he) he' hne
  omega

/-! ## What is written again -/

section

variable (unicode : Unicode)

theorem appendBlock_paragraph {result body : TextWithEntities} (h : IsBody lib ui body)
    (hne : body.text ≠ []) :
    appendBlock lib unicode (simpleTextBuilder ui.toTextUtilities) result
      { kind := .paragraph, text := body } = some (joined result body) := by
  change (if !simpleTextEntitiesAllowed lib body then none
    else some (appendSimpleBlock ui.toTextUtilities result body .invalid [])) = _
  rw [h.allowed, appendSimpleBlock_eq, trim_eq_self h.toIsTidy h.within hne, if_neg hne]
  rfl

theorem trimmed_nil : unicode.trimmed [] = [] := rfl

/-- A piece with an entity around it comes back as one block, which is written as the piece. -/
theorem appendBlock_segment {result : TextWithEntities} {p : Piece} (h : IsPiece lib ui p)
    (hwrap : p.wrap ≠ .invalid) :
    ∃ block, emitSegment ⟨p.wrap, 0, p.body.text.length, p.data⟩ p.body = [block] ∧
      appendBlock lib unicode (simpleTextBuilder ui.toTextUtilities) result block
        = some (joined result p.text) := by
  have htrim := trim_eq_self h.body.toIsTidy h.body.within h.ne_nil
  have happend : appendSimpleBlock ui.toTextUtilities result p.body p.wrap p.data
      = joined result p.text := by
    rw [appendSimpleBlock_eq, htrim, if_neg h.ne_nil, Piece.text]
  rw [emitSegment, if_neg h.ne_nil]
  rcases h.wrap with hinvalid | ⟨hpre, hentities⟩ | ⟨hquote, hdata⟩
  · exact absurd hinvalid hwrap
  · rw [hpre] at happend
    rw [if_pos hpre]
    refine ⟨_, rfl, ?_⟩
    change (if p.body.entities ≠ [] then none
      else some (appendSimpleBlock ui.toTextUtilities result p.body .pre p.data)) = _
    rw [if_neg (not_not.2 hentities), happend]
  · rw [hquote] at happend
    have hpre : p.wrap ≠ .pre := by
      rw [hquote]
      decide
    rw [if_neg hpre]
    refine ⟨_, rfl, ?_⟩
    have hcollect : collectSimpleQuote lib unicode (simpleTextBuilder ui.toTextUtilities)
        { kind := .quote, text := p.body, collapsed := p.data ≠ [] } = some p.body := by
      rw [collectSimpleQuote]
      dsimp only
      rw [trimmed_nil, if_neg (by decide), if_pos h.ne_nil, h.body.allowed, if_neg (by decide),
        List.foldlM_nil]
      change some (appendSimpleBlock ui.toTextUtilities { text := [] } p.body .invalid []) = _
      rw [appendSimpleBlock_eq, htrim, if_neg h.ne_nil, joined_of_nil
        (@IsBuilt.empty ui.toTextUtilities) rfl]
      rfl
    rw [appendBlock]
    dsimp only
    rw [hcollect, Option.map_some, ← happend]
    congr 1
    rcases hdata with hdata | hdata
    · rw [hdata]
      rfl
    · rw [hdata]
      rfl

/-- What is pending, written as a paragraph. -/
theorem foldlM_paragraphOf {result pending : TextWithEntities} (hpending : IsBody lib ui pending)
    (blocks : List Block) :
    (paragraphOf pending ++ blocks).foldlM
        (appendBlock lib unicode (simpleTextBuilder ui.toTextUtilities)) result
      = blocks.foldlM (appendBlock lib unicode (simpleTextBuilder ui.toTextUtilities))
        (if pending.text = [] then result else joined result pending) := by
  rw [paragraphOf]
  split_ifs with hnil
  · rfl
  · rw [List.singleton_append, List.foldlM_cons, appendBlock_paragraph unicode hpending hnil]
    rfl

/-- **The blocks that come back are written as the pieces were.** -/
theorem foldlM_regrouped {pieces : List Piece} (h : ∀ p ∈ pieces, IsPiece lib ui p)
    {result pending : TextWithEntities} (hresult : IsBuilt ui.toTextUtilities result)
    (hpending : IsBody lib ui pending) :
    (regrouped pending pieces).foldlM
        (appendBlock lib unicode (simpleTextBuilder ui.toTextUtilities)) result
      = some (joinAll (if pending.text = [] then result else joined result pending) pieces) := by
  induction pieces generalizing result pending with
  | nil =>
    have hlast := @foldlM_paragraphOf _ _ unicode result _ hpending []
    rw [List.append_nil] at hlast
    rw [regrouped, hlast]
    rfl
  | cons p pieces ih =>
    have hp := h p List.mem_cons_self
    have hpieces := fun q hq => h q (List.mem_cons_of_mem p hq)
    have hnext : IsBuilt ui.toTextUtilities
        (if pending.text = [] then result else joined result pending) := by
      split_ifs with hnil
      · exact hresult
      · exact hresult.joined hpending.toIsTidy hnil
    rw [regrouped, joinAll, List.foldl_cons, ← joinAll]
    split_ifs with hwrap hnil hnil
    · have htext : p.text = p.body := by rw [Piece.text, wrapped, if_neg (not_not.2 hwrap)]
      rw [joined_of_nil hpending.toIsBuilt hnil, ih hpieces hresult hp.body, if_neg hp.ne_nil,
        htext]
    · have htext : p.text = p.body := by rw [Piece.text, wrapped, if_neg (not_not.2 hwrap)]
      rw [ih hpieces hresult (hpending.joined hp.body hp.ne_nil),
        if_neg (joined_text_ne_nil hpending.toIsBuilt hp.ne_nil), htext, joined_assoc hresult hnil]
    all_goals
      obtain ⟨block, hblock, happend⟩ := @appendBlock_segment _ _ unicode
        (if pending.text = [] then result else joined result pending) p hp hwrap
      rw [List.append_assoc, foldlM_paragraphOf unicode hpending, hblock, List.singleton_append,
        List.foldlM_cons, happend, Option.bind_eq_bind, Option.bind_some,
        ih hpieces (hnext.joined hp.tidy hp.text_ne_nil) .empty, if_pos rfl]
    · rw [if_pos hnil]
    · rw [if_neg hnil]

end

/-! ## There and back -/

/-- A page whose texts have no block entities. -/
def PageHasNoBlocks (page : RichPage) : Prop := ∀ block ∈ page.blocks, BlockHasNoBlocks block

/-- **The page of a message is written as the message.** -/
theorem appendBlocks_split (unicode : Unicode) (std : SegmentSort) {pieces : List Piece}
    (h : ∀ p ∈ pieces, IsPiece lib ui p) :
    appendBlocks lib unicode (simpleTextBuilder ui.toTextUtilities)
        (splitTextIntoRichPage ui std (joinAll { text := [] } pieces)).blocks
      = some (joinAll { text := [] } pieces) := by
  have hempty : IsWithin { text := [] } := .of_no_entities rfl
  have hsplit := splitFrom_joinAll h hempty IsGap.empty IsBody.empty
  simp only [empty_append, List.length_nil, Nat.cast_zero, shiftRight, Int.add_zero,
    List.map_id'] at hsplit
  have hsort := sort_of_inOrder std (joinAll_inOrder h).1
  rw [blockSegments] at hsort hsplit
  rw [splitTextIntoRichPage]
  dsimp only
  rw [hsort, hsplit, appendBlocks]
  exact foldlM_regrouped unicode h .empty .empty

/-- **A simple message is split and written again as it was.**  And whatever the entities of a text
are, the blocks it is split into have trimmed texts, which are the pieces of it in their order, with
nothing between and around them but what is trimmed. -/
theorem split_simple_text (lib : Library) (unicode : Unicode) (ui : ExactTextUtilities)
    (std : SegmentSort) :
    (∀ (lengthLimit : ℤ) (page : RichPage) (text : TextWithEntities), PageHasNoBlocks page →
      serializeAsSimple lib unicode ui.toTextUtilities lengthLimit page = some text →
      serializeAsSimple lib unicode ui.toTextUtilities lengthLimit
        (splitTextIntoRichPage ui std text) = some text) ∧
    ∀ text : TextWithEntities,
      (∀ entity ∈ text.entities, isBlockEntity entity = true → 0 ≤ entity.length) →
      Pieces ui.isTrimmed text.text
        ((splitTextIntoRichPage ui std text).blocks.map (·.text.text)) ∧
      ∀ block ∈ (splitTextIntoRichPage ui std text).blocks,
        block.text.text ≠ [] ∧ (ui.trim block.text).text = block.text.text := by
  constructor
  · intro lengthLimit page text hplain htext
    rw [serializeAsSimple, serializeAsSimpleTo, Option.map_eq_some_iff] at htext
    obtain ⟨built, hbuilt, htrim⟩ := htext
    obtain ⟨built', hblocks, hlimits⟩ := Option.bind_eq_some_iff.1 hbuilt
    obtain ⟨pieces, hpieces, rfl⟩ := appendBlocks_pieces hplain hblocks
    have hagain := appendBlocks_split unicode std hpieces
    obtain rfl : joinAll { text := [] } pieces = built := by
      split_ifs at hlimits
      exact Option.some.inj hlimits
    have hne : (joinAll { text := [] } pieces).text ≠ [] := by
      intro hnil
      split_ifs at hlimits with hzero
      exact hzero (List.length_eq_zero_iff.2 hnil)
    have hself := trim_eq_self (joinAll_built .empty hpieces).toIsTidy
      (joinAll_inOrder hpieces).2 hne
    rw [hself] at htrim
    rw [← htrim, serializeAsSimple, serializeAsSimpleTo, hagain, Option.bind_some, hlimits,
      Option.map_some, hself]
  · intro text hlength
    have hsegments : ∀ segment ∈ std.sort (text.entities.filter isBlockEntity),
        0 ≤ segment.length := by
      intro segment hmem
      obtain ⟨hentity, hblock⟩ := List.mem_filter.1 ((std.perm _).mem_iff.1 hmem)
      exact hlength segment hentity hblock
    exact ⟨pieces_splitFrom hsegments le_rfl, fun block hblock => trim_of_mem_splitFrom hblock⟩

/-! ## Texts of ASCII characters -/

/-- Spaces and line breaks are trimmed. -/
def isBlank (c : UInt16) : Bool := c = 32 || c = 10

/-- Code with something in it is monospace. -/
def isCode (entity : EntityInText) : Bool :=
  (entity.type = .code || entity.type = .pre) && decide (0 < entity.length)

/-- The part of a text that trimming leaves. -/
def exactTrim (text : TextWithEntities) : TextWithEntities :=
  let kept := text.text.rdropWhile isBlank
  { text := trimmedText isBlank isCode text
    entities := text.entities.filterMap (clipped
      (leftTrimmed isBlank (firstMonospaceOffset isCode text.entities kept.length) 0 kept)
      kept.length) }

theorem exactTrim_inside {text : TextWithEntities} {e' : EntityInText}
    (h : e' ∈ (exactTrim text).entities) : 0 ≤ e'.offset := by
  obtain ⟨e, -, hclip⟩ := List.mem_filterMap.1 h
  exact (clipped_some hclip).1.1

/-- The entity that the left trim stops at begins what is left. -/
theorem exactTrim_monospace {text : TextWithEntities} {stop : ℤ}
    (hkept : text.text.rdropWhile isBlank ≠ [])
    (hstop : firstMonospaceOffset isCode text.entities (text.text.rdropWhile isBlank).length
      = stop)
    (hstart : (leftTrimmed isBlank stop 0 (text.text.rdropWhile isBlank) : ℤ) = stop)
    (length : ℤ) :
    firstMonospaceOffset isCode (exactTrim text).entities length = 0 := by
  have hlast := List.rdropWhile_last_not isBlank text.text hkept
  obtain ⟨taken, rest, heq, htaken, hblank, -⟩ :=
    @leftTrimmed_spec isBlank stop 0 (text.text.rdropWhile isBlank)
  have hrest : rest ≠ [] := by
    rintro rfl
    rw [List.append_nil] at heq
    exact hlast (hblank _ (heq ▸ List.getLast_mem hkept))
  have hlt : stop < (text.text.rdropWhile isBlank).length := by
    have hpos := List.length_pos_iff.2 hrest
    rw [← hstart, htaken, heq, List.length_append]
    omega
  obtain ⟨e, he, hmono, hoffset⟩ := exists_of_firstMonospaceOffset hstop hlt.ne
  refine firstMonospaceOffset_eq (fun e' he' => exactTrim_inside he') ?_ length
  have hpos : 0 < e.length := by
    rw [isCode, Bool.and_eq_true_iff, decide_eq_true_iff] at hmono
    exact hmono.2
  have hfinish : stop < min (e.offset + e.length) (text.text.rdropWhile isBlank).length :=
    lt_min (by omega) hlt
  have hclip : clipped stop (text.text.rdropWhile isBlank).length e = some { e with
      offset := stop - stop
      length := min (e.offset + e.length) (text.text.rdropWhile isBlank).length - stop } := by
    rw [clipped, hoffset, max_self, if_pos (hoffset ▸ hfinish)]
  have hmem : { e with
      offset := stop - stop
      length := min (e.offset + e.length) (text.text.rdropWhile isBlank).length - stop }
      ∈ (exactTrim text).entities := by
    refine List.mem_filterMap.2 ⟨e, he, ?_⟩
    rw [hstop, hstart]
    exact hclip
  refine ⟨_, hmem, ?_, sub_self stop⟩
  rw [isCode, Bool.and_eq_true_iff] at hmono ⊢
  exact ⟨hmono.1, decide_eq_true (sub_pos.2 hfinish)⟩

/-- Texts of ASCII characters, cut exactly. -/
def asciiTextUtilities : ExactTextUtilities where
  isTrimmed := isBlank
  isMonospace := isCode
  trim := exactTrim
  trim_text _ := rfl
  trim_inside _ _ h := exactTrim_inside h
  trim_monospace _ hkept hstart := exactTrim_monospace hkept rfl hstart _
  mid text position n :=
    { text := (text.text.drop position.toNat).take n.toNat
      entities := text.entities.filterMap (clipped position (position + n)) }
  newline_trimmed := List.all_eq_true.1 (by decide)
  monospace_offset _ _ := rfl
  trim_entities _ := rfl
  mid_eq _ _ _ _ := rfl

instance : Inhabited ExactTextUtilities := ⟨asciiTextUtilities⟩

end Yunogram.Iv.SimpleText
