import Yunogram.Iv.SimpleTextClip

/-!
# Iv/SimpleTextRejoin — the pieces of a simple message

What `SerializeAsSimple` writes are pieces (`Piece`) joined by line breaks: the paragraphs, and code
and quotes with their entities around them (`appendBlocks_pieces`). -/

namespace Yunogram.Iv.SimpleText

open Markdown (Library Unicode shiftRight)

/-! ## Bodies -/

/-- What is between the line breaks and entities of a message: a tidy text with clipped entities,
none of them of a block, all of them allowed. -/
structure IsBody (lib : Library) (ui : ExactTextUtilities) (body : TextWithEntities) : Prop
    extends IsBuilt ui.toTextUtilities body where
  within : IsWithin body
  plain : ∀ e ∈ body.entities, isBlockEntity e = false
  allowed : simpleTextEntitiesAllowed lib body = true

variable {lib : Library} {ui : ExactTextUtilities}

theorem IsBody.empty : IsBody lib ui { text := [] } :=
  ⟨.empty, .of_no_entities rfl, by simp, rfl⟩

/-- What is allowed goes by type and data. -/
theorem allowed_of_forall {text text' : TextWithEntities}
    (h : simpleTextEntitiesAllowed lib text = true)
    (hmem : ∀ e' ∈ text'.entities, ∃ e ∈ text.entities, e'.type = e.type ∧ e'.data = e.data) :
    simpleTextEntitiesAllowed lib text' = true := by
  rw [simpleTextEntitiesAllowed, List.all_eq_true] at h ⊢
  intro e' he'
  obtain ⟨e, he, htype, hdata⟩ := hmem e' he'
  rw [htype, hdata]
  exact h e he

theorem allowed_append {a b : TextWithEntities} (ha : simpleTextEntitiesAllowed lib a = true)
    (hb : simpleTextEntitiesAllowed lib b = true) :
    simpleTextEntitiesAllowed lib (append a b) = true := by
  have hb' : simpleTextEntitiesAllowed lib
      ⟨[], b.entities.map fun e => shiftRight e a.text.length⟩ = true := by
    refine allowed_of_forall hb fun e' he' => ?_
    obtain ⟨e, he, rfl⟩ := List.mem_map.1 he'
    exact ⟨e, he, rfl, rfl⟩
  rw [simpleTextEntitiesAllowed] at ha hb' ⊢
  exact List.all_append.trans (by rw [ha]; exact hb')

/-- Texts with no block entity in them. -/
def HasNoBlocks (text : TextWithEntities) : Prop := ∀ e ∈ text.entities, isBlockEntity e = false

/-- **What is trimmed is a body.** -/
theorem isBody_trim {text : TextWithEntities} (hplain : HasNoBlocks text)
    (hallowed : simpleTextEntitiesAllowed lib text = true) (hne : (ui.trim text).text ≠ []) :
    IsBody lib ui (ui.trim text) where
  toIsTidy := isTidy_trim text
  entities := fun hnil => absurd hnil hne
  within := isWithin_trim text
  plain := by
    intro e' he'
    obtain ⟨e, he, htype, -⟩ := mem_trim he'
    rw [isBlockEntity, htype]
    exact hplain e he
  allowed := allowed_of_forall hallowed fun _ he' => mem_trim he'

theorem isBlockEntity_shiftRight (e : EntityInText) (n : ℤ) :
    isBlockEntity (shiftRight e n) = isBlockEntity e := rfl

theorem append_empty (a : TextWithEntities) : append a { text := [] } = a :=
  text_ext (List.append_nil _) (List.append_nil _)

theorem empty_append (a : TextWithEntities) : append { text := [] } a = a := by
  refine text_ext rfl ?_
  simp [append, shiftRight]

/-- What is joined to nothing is what it was. -/
theorem joined_of_nil {u : TextUtilities} {a : TextWithEntities} (h : IsBuilt u a)
    (hnil : a.text = []) (b : TextWithEntities) : joined a b = b := by
  have ha : a = { text := [] } := text_ext hnil (h.entities hnil)
  rw [joined, if_neg (not_not.2 hnil), ha, empty_append]

theorem joined_of_ne {a : TextWithEntities} (hne : a.text ≠ []) (b : TextWithEntities) :
    joined a b = append a (append newline b) := by
  rw [joined, if_pos hne, append_assoc]

theorem append_text_ne_nil {a : TextWithEntities} (hne : a.text ≠ []) (b : TextWithEntities) :
    (append a b).text ≠ [] := by
  rw [append_text]
  exact List.append_ne_nil_of_left_ne_nil hne _

theorem joined_text_ne_nil {u : TextUtilities} {a b : TextWithEntities} (ha : IsBuilt u a)
    (hne : b.text ≠ []) : (joined a b).text ≠ [] := by
  by_cases hnil : a.text = []
  · rwa [joined_of_nil ha hnil]
  · rw [joined_of_ne hnil]
    exact append_text_ne_nil hnil _

/-- **Joining is associative.** -/
theorem joined_assoc {u : TextUtilities} {a b : TextWithEntities} (ha : IsBuilt u a)
    (hb : b.text ≠ []) (c : TextWithEntities) :
    joined (joined a b) c = joined a (joined b c) := by
  by_cases hnil : a.text = []
  · rw [joined_of_nil ha hnil, joined_of_nil ha hnil]
  · rw [joined_of_ne hnil, joined_of_ne hnil, joined_of_ne (append_text_ne_nil hnil _),
      joined_of_ne hb, append_assoc, append_assoc]

/-- Bodies are joined to a body. -/
theorem IsBody.joined {a b : TextWithEntities} (ha : IsBody lib ui a) (hb : IsBody lib ui b)
    (hne : b.text ≠ []) : IsBody lib ui (joined a b) := by
  have hbuilt := ha.toIsBuilt.joined hb.toIsTidy hne
  by_cases hnil : a.text = []
  · rw [joined_of_nil ha.toIsBuilt hnil]
    exact hb
  refine ⟨hbuilt, ?_, ?_, ?_⟩
  all_goals rw [joined_of_ne hnil]
  · exact ha.within.append (IsWithin.append (.of_no_entities rfl) hb.within)
  · intro e he
    rcases List.mem_append.1 he with he | he
    · exact ha.plain e he
    · obtain ⟨e', he', rfl⟩ := List.mem_map.1 he
      rcases List.mem_append.1 he' with he' | he'
      · exact absurd he' List.not_mem_nil
      · obtain ⟨e'', he'', rfl⟩ := List.mem_map.1 he'
        exact hb.plain e'' he''
  · exact allowed_append ha.allowed (allowed_append rfl hb.allowed)

/-! ## Pieces -/

/-- A piece of a message: a paragraph, or what an entity of code or of a quote is around. -/
structure Piece where
  body : TextWithEntities
  wrap : EntityType := .invalid
  data : QString := []

/-- The piece as it is written. -/
def Piece.text (p : Piece) : TextWithEntities := wrapped p.body p.wrap p.data

/-- The pieces that a simple message can have. -/
structure IsPiece (lib : Library) (ui : ExactTextUtilities) (p : Piece) : Prop where
  body : IsBody lib ui p.body
  ne_nil : p.body.text ≠ []
  wrap : p.wrap = .invalid ∨ (p.wrap = .pre ∧ p.body.entities = []) ∨
    (p.wrap = .blockquote ∧ (p.data = [] ∨ p.data = ascii "1"))

theorem IsPiece.text_ne_nil {p : Piece} (h : IsPiece lib ui p) : p.text.text ≠ [] := by
  rw [Piece.text, wrapped_text]
  exact h.ne_nil

theorem IsPiece.tidy {p : Piece} (h : IsPiece lib ui p) : IsTidy ui.toTextUtilities p.text :=
  h.body.toIsTidy.wrapped p.wrap p.data

theorem IsPiece.within {p : Piece} (h : IsPiece lib ui p) : IsWithin p.text := by
  rw [Piece.text, wrapped]
  split_ifs
  · intro e he
    rcases List.mem_append.1 he with he | he
    · exact h.body.within e he
    · rw [List.mem_singleton.1 he]
      have hpos := List.length_pos_iff.2 h.ne_nil
      dsimp only
      omega
  · exact h.body.within

/-- The text so far with some pieces behind it. -/
def joinAll (result : TextWithEntities) (pieces : List Piece) : TextWithEntities :=
  pieces.foldl (fun result p => joined result p.text) result

/-- Pieces, each behind a line break. -/
def tail : List Piece → TextWithEntities
  | [] => { text := [] }
  | p :: pieces => append newline (append p.text (tail pieces))

theorem joinAll_eq {a : TextWithEntities} (hne : a.text ≠ []) (pieces : List Piece) :
    joinAll a pieces = append a (tail pieces) := by
  induction pieces generalizing a with
  | nil => exact (append_empty a).symm
  | cons p pieces ih =>
    rw [joinAll, List.foldl_cons, joined_of_ne hne, ← joinAll, ih (append_text_ne_nil hne _),
      append_assoc, append_assoc, tail]

theorem tail_within {pieces : List Piece} (h : ∀ p ∈ pieces, IsPiece lib ui p) :
    IsWithin (tail pieces) := by
  induction pieces with
  | nil => exact .of_no_entities rfl
  | cons p pieces ih =>
    exact IsWithin.append (.of_no_entities rfl) ((h p List.mem_cons_self).within.append
      (ih fun q hq => h q (List.mem_cons_of_mem _ hq)))

theorem joinAll_built {a : TextWithEntities} (ha : IsBuilt ui.toTextUtilities a)
    {pieces : List Piece} (h : ∀ p ∈ pieces, IsPiece lib ui p) :
    IsBuilt ui.toTextUtilities (joinAll a pieces) := by
  induction pieces generalizing a with
  | nil => exact ha
  | cons p pieces ih =>
    have hp := h p List.mem_cons_self
    exact ih (ha.joined hp.tidy hp.text_ne_nil) fun q hq => h q (List.mem_cons_of_mem _ hq)

/-! ## What is written -/

/-- A block is written as a piece, or not at all. -/
theorem appendSimpleBlock_pieces (result : TextWithEntities) {text : TextWithEntities}
    {wrap : EntityType} {wrapData : QString} (hplain : HasNoBlocks text)
    (hallowed : simpleTextEntitiesAllowed lib text = true)
    (hwrap : wrap = .invalid ∨ (wrap = .pre ∧ text.entities = []) ∨
      (wrap = .blockquote ∧ (wrapData = [] ∨ wrapData = ascii "1"))) :
    ∃ pieces, (∀ p ∈ pieces, IsPiece lib ui p) ∧
      appendSimpleBlock ui.toTextUtilities result text wrap wrapData = joinAll result pieces := by
  rw [appendSimpleBlock_eq]
  split_ifs with hnil
  · exact ⟨[], by simp, rfl⟩
  · refine ⟨[⟨ui.trim text, wrap, wrapData⟩], fun p hp => ?_, rfl⟩
    rw [List.mem_singleton.1 hp]
    refine ⟨isBody_trim hplain hallowed hnil, hnil, hwrap.imp_right (Or.imp_left ?_)⟩
    rintro ⟨hpre, hentities⟩
    refine ⟨hpre, List.eq_nil_iff_forall_not_mem.2 fun e he => ?_⟩
    obtain ⟨e', he', -⟩ := mem_trim he
    rw [hentities] at he'
    exact List.not_mem_nil he'

/-- A paragraph more in the body of a quote. -/
theorem IsBody.appendSimpleBlock {body text : TextWithEntities} (h : IsBody lib ui body)
    (hplain : HasNoBlocks text) (hallowed : simpleTextEntitiesAllowed lib text = true) :
    IsBody lib ui (appendSimpleBlock ui.toTextUtilities body text .invalid []) := by
  rw [appendSimpleBlock_eq]
  split_ifs with hnil
  · exact h
  · exact h.joined (isBody_trim hplain hallowed hnil) hnil

/-- A block whose texts have no block entities. -/
def BlockHasNoBlocks (block : Block) : Prop :=
  HasNoBlocks block.text ∧ ∀ child ∈ block.blocks, HasNoBlocks child.text

/-- The body of a quote. -/
theorem collectSimpleQuote_isBody {unicode : Unicode} {quote : Block} {body : TextWithEntities}
    (hplain : BlockHasNoBlocks quote)
    (h : collectSimpleQuote lib unicode (simpleTextBuilder ui.toTextUtilities) quote
      = some body) : IsBody lib ui body := by
  have hchildren : ∀ (children : List Block), (∀ child ∈ children, HasNoBlocks child.text) →
      ∀ start, IsBody lib ui start → children.foldlM
        (collectChild lib (simpleTextBuilder ui.toTextUtilities)) start = some body →
      IsBody lib ui body := by
    intro children
    induction children with
    | nil =>
      intro _ start hstart h
      obtain rfl := Option.some.inj h
      exact hstart
    | cons child children ih =>
      intro hall start hstart h
      rw [List.foldlM_cons, Option.bind_eq_bind, Option.bind_eq_some_iff] at h
      obtain ⟨next, hnext, hrest⟩ := h
      rw [collectChild] at hnext
      split_ifs at hnext with hfails
      obtain rfl := Option.some.inj hnext
      rw [Bool.or_eq_true_iff, not_or, Bool.not_eq_true', Bool.not_eq_false] at hfails
      exact ih (fun c hc => hall c (List.mem_cons_of_mem _ hc)) _
        (hstart.appendSimpleBlock (hall child List.mem_cons_self) hfails.2) hrest
  rw [collectSimpleQuote] at h
  split_ifs at h with hfails hne hallowed
  · rw [Bool.not_eq_true', Bool.not_eq_false] at hallowed
    exact hchildren _ hplain.2 _ (IsBody.empty.appendSimpleBlock hplain.1 hallowed) h
  · exact hchildren _ hplain.2 _ .empty h

/-- **A block of a page is written as pieces.** -/
theorem appendBlock_pieces {unicode : Unicode} {result result' : TextWithEntities} {block : Block}
    (hplain : BlockHasNoBlocks block)
    (h : appendBlock lib unicode (simpleTextBuilder ui.toTextUtilities) result block
      = some result') :
    ∃ pieces, (∀ p ∈ pieces, IsPiece lib ui p) ∧ result' = joinAll result pieces := by
  rw [appendBlock] at h
  split at h
  · split_ifs at h with hallowed
    obtain rfl := Option.some.inj h
    rw [Bool.not_eq_true', Bool.not_eq_false] at hallowed
    exact appendSimpleBlock_pieces result hplain.1 hallowed (.inl rfl)
  · split_ifs at h with hentities
    obtain rfl := Option.some.inj h
    rw [not_not] at hentities
    refine appendSimpleBlock_pieces result hplain.1 ?_ (.inr (.inl ⟨rfl, hentities⟩))
    rw [simpleTextEntitiesAllowed, hentities]
    rfl
  · rw [Option.map_eq_some_iff] at h
    obtain ⟨body, hbody, rfl⟩ := h
    have hisBody := collectSimpleQuote_isBody hplain hbody
    refine appendSimpleBlock_pieces result hisBody.plain hisBody.allowed (.inr (.inr ⟨rfl, ?_⟩))
    split_ifs
    · exact .inr rfl
    · exact .inl rfl
  · cases h

/-- **What is written of a page are pieces.** -/
theorem appendBlocks_pieces {unicode : Unicode} {blocks : List Block} {built : TextWithEntities}
    (hplain : ∀ block ∈ blocks, BlockHasNoBlocks block)
    (h : appendBlocks lib unicode (simpleTextBuilder ui.toTextUtilities) blocks = some built) :
    ∃ pieces, (∀ p ∈ pieces, IsPiece lib ui p) ∧ built = joinAll { text := [] } pieces := by
  rw [appendBlocks] at h
  change blocks.foldlM _ ({ text := [] } : TextWithEntities) = some built at h
  generalize ({ text := [] } : TextWithEntities) = start at h ⊢
  induction blocks generalizing start with
  | nil => exact ⟨[], by simp, (Option.some.inj h).symm⟩
  | cons block blocks ih =>
    rw [List.foldlM_cons, Option.bind_eq_bind, Option.bind_eq_some_iff] at h
    obtain ⟨next, hnext, hrest⟩ := h
    obtain ⟨first, hfirst, rfl⟩ := appendBlock_pieces (hplain block List.mem_cons_self) hnext
    obtain ⟨others, hothers, rfl⟩ :=
      ih (fun b hb => hplain b (List.mem_cons_of_mem _ hb)) _ hrest
    refine ⟨first ++ others, fun p hp => ?_, (List.foldl_append ..).symm⟩
    exact (List.mem_append.1 hp).elim (hfirst p) (hothers p)

end Yunogram.Iv.SimpleText
