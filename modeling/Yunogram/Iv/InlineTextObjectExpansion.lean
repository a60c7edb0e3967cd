import Yunogram.Iv.InlineTextObjectCodec
import Yunogram.Machinery.Splice

/-!
# Iv/InlineTextObjectExpansion — what is left of a text when its objects are expanded

The loop edits the text and all the entities in place, object by object.  Seen from the text as it
was, the objects before the iterator are splices that have been made (`spliceOf`), every entity
is where its two ends have come (`moved`) and the entities nested in a label are behind the place
its object has come to (`image`).  One object more moves the others so again (`adjusted_moved`,
`map_adjusted_nested`), and that is the step of `expandLoop_eq`.
-/

open Machinery

namespace Yunogram.Iv

/-- The start of an entity's range. -/
def EntityInText.start (entity : EntityInText) : ℕ := entity.offset.toNat

/-- The end of an entity's range. -/
def EntityInText.till (entity : EntityInText) : ℕ := (entity.offset + entity.length).toNat

namespace Markdown

/-- The entity contains the range of an object or avoids it. -/
def Beside (entity object : EntityInText) : Prop :=
  entity.till ≤ object.start ∨ object.till ≤ entity.start ∨
    entity.start ≤ object.start ∧ object.till ≤ entity.till

variable (replacementOf : EntityInText → Option Replacement)

/-- An entity whose range is in the text. -/
def InText (text : QString) (entity : EntityInText) : Prop :=
  0 ≤ entity.offset ∧ 0 ≤ entity.length ∧ entity.offset + entity.length ≤ text.length

/-- **The objects cover disjoint ranges in increasing order, and every other entity contains or
avoids each of them.** -/
structure WellPlaced (text : TextWithEntities) : Prop where
  inText : ∀ entity ∈ text.entities, InText text.text entity
  ordered : text.entities.Pairwise fun o o' => replacementOf o ≠ none → replacementOf o' ≠ none →
    o.till ≤ o'.start ∧ o.start < o'.start
  beside : ∀ entity ∈ text.entities, replacementOf entity = none →
    ∀ object ∈ text.entities, replacementOf object ≠ none → Beside entity object

/-- What is replaced for an object. -/
def spliceOf (entity : EntityInText) : Option (Splice UInt16) :=
  (replacementOf entity).map fun r => ⟨entity.start, entity.till, r.text⟩

/-- What is replaced for the objects among some entities, the last one first. -/
def splices (entities : List EntityInText) : List (Splice UInt16) :=
  (entities.filterMap (spliceOf replacementOf)).reverse

variable (text : QString) (made : List (Splice UInt16))

/-- The entity between the places its ends have come to. -/
def moved (entity : EntityInText) : EntityInText :=
  { entity with
    offset := (Splice.pos text made entity.start : ℤ)
    length := (Splice.pos text made entity.till : ℤ) - Splice.pos text made entity.start }

/-- What an entity becomes: it moves, or makes place for those of its label. -/
def image (entity : EntityInText) : List EntityInText :=
  match replacementOf entity with
  | none => [moved text made entity]
  | some r => r.entities.map fun nested =>
      { nested with offset := nested.offset + (Splice.pos text made entity.start : ℤ) }

/-- The span that is returned for an entity. -/
def spanOf (entity : EntityInText) : List InlineLinkButtonSpan :=
  match replacementOf entity with
  | some { text := label, entities := _, span := some data } =>
    [⟨(Splice.pos text made entity.start : ℤ), label.length, data⟩]
  | _ => []

variable {replacementOf} {text : QString} {made : List (Splice UInt16)}

/-! ## Moving -/

theorem InText.casts {entity : EntityInText} (h : InText text entity) :
    (entity.start : ℤ) = entity.offset ∧ (entity.till : ℤ) = entity.offset + entity.length ∧
      entity.start ≤ entity.till ∧ entity.till ≤ text.length := by
  obtain ⟨hoffset, hlength, hend⟩ := h
  have hstart : (entity.start : ℤ) = entity.offset := Int.toNat_of_nonneg hoffset
  have htill : (entity.till : ℤ) = entity.offset + entity.length :=
    Int.toNat_of_nonneg (by omega)
  exact ⟨hstart, htill, by omega, by omega⟩

theorem moved_nil {entity : EntityInText} (h : InText text entity) :
    moved text [] entity = entity := by
  obtain ⟨hstart, htill, hle, hend⟩ := h.casts
  have hpos : ∀ p ≤ text.length, Splice.pos text [] p = p := fun p hp =>
    List.length_take_of_le hp
  rw [moved, hpos _ (hle.trans hend), hpos _ hend, hstart, htill, add_sub_cancel_left]

theorem adjusted_behind {object entity : EntityInText} (replacement : QString)
    (h : object.offset < entity.offset) :
    adjusted object replacement entity =
      { entity with offset := entity.offset + (replacement.length - object.length) } := if_pos h

theorem adjusted_around {object entity : EntityInText} (replacement : QString)
    (hstart : entity.offset ≤ object.offset)
    (htill : object.offset < entity.offset + entity.length) :
    adjusted object replacement entity =
      { entity with length := entity.length - -(replacement.length - object.length) } :=
  (if_neg (not_lt.2 hstart)).trans (if_pos htill)

theorem adjusted_before {object entity : EntityInText} (replacement : QString)
    (hstart : entity.offset ≤ object.offset)
    (htill : entity.offset + entity.length ≤ object.offset) :
    adjusted object replacement entity = entity :=
  (if_neg (not_lt.2 hstart)).trans (if_neg (not_lt.2 htill))

theorem eq_moved {entity e : EntityInText} (htype : e.type = entity.type)
    (hdata : e.data = entity.data)
    (hoffset : e.offset = Splice.pos text made entity.start)
    (hlength : e.length =
      (Splice.pos text made entity.till : ℤ) - Splice.pos text made entity.start) :
    e = moved text made entity := by
  cases e
  rw [moved, EntityInText.mk.injEq]
  exact ⟨htype, hoffset, hlength, hdata⟩

/-- **An entity beside an object is moved on by what the object becomes.** -/
theorem adjusted_moved {object entity : EntityInText} {replacement : QString}
    (hobject : InText text object) (hentity : InText text entity)
    (hmade : Splice.AllBefore made object.start)
    (hstart : Splice.Outside made entity.start) (htill : Splice.Outside made entity.till)
    (hbeside : Beside entity object) :
    adjusted (moved text made object) replacement (moved text made entity) =
      moved text (⟨object.start, object.till, replacement⟩ :: made) entity := by
  obtain ⟨-, -, hole, hoend⟩ := hobject.casts
  obtain ⟨-, -, hele, heend⟩ := hentity.casts
  have htillAt := Splice.pos_of_le hmade hole hoend
  have hoffset : (moved text made object).offset = Splice.pos text made object.start := rfl
  have hlength : (moved text made object).length =
      Splice.pos text made object.till - Splice.pos text made object.start := rfl
  have hoffset' : (moved text made entity).offset = Splice.pos text made entity.start := rfl
  have hlength' : (moved text made entity).length =
      Splice.pos text made entity.till - Splice.pos text made entity.start := rfl
  set next : Splice UInt16 := ⟨object.start, object.till, replacement⟩ with hnext
  rcases Nat.lt_or_ge object.start entity.start with hlt | hge
  · -- behind the object
    have hbehind : object.till ≤ entity.start := by
      rcases hbeside with h | h | h <;> omega
    have hs := Splice.pos_of_le hmade hlt.le (hele.trans heend)
    have ht := Splice.pos_of_le hmade (hlt.le.trans hele) heend
    have hs' : Splice.pos text (next :: made) entity.start = _ :=
      Splice.pos_cons_of_lt hlt (hele.trans heend)
    have ht' : Splice.pos text (next :: made) entity.till = _ :=
      Splice.pos_cons_of_lt (hlt.trans_le hele) heend
    simp only [hnext] at hs' ht'
    rw [adjusted_behind _ (by omega)]
    refine eq_moved rfl rfl ?_ ?_
    · rw [hs']
      dsimp only
      omega
    · rw [hs', ht']
      dsimp only
      omega
  · have hs := Splice.pos_le_pos hstart hge (hole.trans hoend)
    have hs' : Splice.pos text (next :: made) entity.start = _ := Splice.pos_cons_of_le hge
    rcases Nat.lt_or_ge object.start entity.till with hlt | hle
    · -- around the object
      have haround : object.till ≤ entity.till := by
        rcases hbeside with h | h | h <;> omega
      have ht := Splice.pos_of_le hmade hlt.le heend
      have ht' : Splice.pos text (next :: made) entity.till = _ :=
        Splice.pos_cons_of_lt hlt heend
      simp only [hnext] at ht'
      rw [adjusted_around _ (by omega) (by omega)]
      refine eq_moved rfl rfl (hs' ▸ hoffset') ?_
      rw [hs', ht']
      dsimp only
      omega
    · -- before the object
      have ht := Splice.pos_le_pos htill hle (hole.trans hoend)
      have ht' : Splice.pos text (next :: made) entity.till = _ := Splice.pos_cons_of_le hle
      rw [adjusted_before _ (by omega) (by omega)]
      exact eq_moved rfl rfl (hs' ▸ hoffset') (ht' ▸ hs' ▸ hlength')

/-! ## The splices of some entities -/

theorem mem_splices {entities : List EntityInText} {c : Splice UInt16} :
    c ∈ splices replacementOf entities ↔
      ∃ e ∈ entities, ∃ r, replacementOf e = some r ∧ c = ⟨e.start, e.till, r.text⟩ := by
  rw [splices, List.mem_reverse, List.mem_filterMap]
  refine exists_congr fun e => and_congr_right fun _ => ?_
  rw [spliceOf, Option.map_eq_some_iff]
  exact exists_congr fun r => and_congr_right fun _ => eq_comm

theorem splices_concat (entities : List EntityInText) (e : EntityInText) :
    splices replacementOf (entities ++ [e]) =
      (spliceOf replacementOf e).toList ++ splices replacementOf entities := by
  rw [splices, List.filterMap_append, List.reverse_append, splices]
  cases h : spliceOf replacementOf e <;> simp [h]

variable {whole : TextWithEntities} {done todo : List EntityInText} {object : EntityInText}

theorem WellPlaced.ordered_splices (h : WellPlaced replacementOf whole)
    (hsplit : whole.entities = done ++ todo) :
    Splice.Ordered whole.text (splices replacementOf done) where
  apart := by
    have hdone := (List.pairwise_append.1 (hsplit ▸ h.ordered)).1
    rw [splices, List.pairwise_reverse, List.pairwise_filterMap]
    refine hdone.imp fun {e e'} hapart c hc c' hc' => ?_
    obtain ⟨r, hr, rfl⟩ := Option.map_eq_some_iff.1 hc
    obtain ⟨r', hr', rfl⟩ := Option.map_eq_some_iff.1 hc'
    exact hapart (hr ▸ Option.some_ne_none r) (hr' ▸ Option.some_ne_none r')
  inRange := fun c hc => by
    obtain ⟨e, he, r, -, rfl⟩ := mem_splices.1 hc
    exact (h.inText e (hsplit ▸ List.mem_append_left _ he)).casts.2.2

/-- An object behind the others. -/
theorem WellPlaced.allBefore (h : WellPlaced replacementOf whole)
    (hsplit : whole.entities = done ++ object :: todo) (hobject : replacementOf object ≠ none) :
    Splice.AllBefore (splices replacementOf done) object.start := fun c hc => by
  obtain ⟨e, he, r, hr, rfl⟩ := mem_splices.1 hc
  have hcross := (List.pairwise_append.1 (hsplit ▸ h.ordered)).2.2 e he object List.mem_cons_self
  exact hcross (hr ▸ Option.some_ne_none r) hobject

theorem outside_of_beside {entity : EntityInText} (hentity : InText text entity)
    (hbeside : ∀ o ∈ done, replacementOf o ≠ none → Beside entity o) :
    Splice.Outside (splices replacementOf done) entity.start ∧
      Splice.Outside (splices replacementOf done) entity.till := by
  have hle := hentity.casts.2.2.1
  constructor
  all_goals
    intro c hc
    obtain ⟨o, ho, r, hr, rfl⟩ := mem_splices.1 hc
    have hside := hbeside o ho (hr ▸ Option.some_ne_none r)
    dsimp only
    rcases hside with h | h | h <;> omega

/-- What is still to come is beside every object passed. -/
theorem WellPlaced.beside_done (h : WellPlaced replacementOf whole)
    (hsplit : whole.entities = done ++ todo) {entity : EntityInText} (hentity : entity ∈ todo)
    {o : EntityInText} (ho : o ∈ done) (hobject : replacementOf o ≠ none) : Beside entity o := by
  have hmem : entity ∈ whole.entities := hsplit ▸ List.mem_append_right _ hentity
  by_cases hother : replacementOf entity = none
  · exact h.beside entity hmem hother o (hsplit ▸ List.mem_append_left _ ho) hobject
  · have hcross := (List.pairwise_append.1 (hsplit ▸ h.ordered)).2.2 o ho entity hentity
    exact Or.inr (Or.inl (hcross hobject hother).1)

/-! ## The loop -/

/-- **One object more**, for an entity passed: what it has become is moved on. -/
theorem WellPlaced.image_adjusted (h : WellPlaced replacementOf whole)
    (hnested : ∀ e r, replacementOf e = some r → ∀ n ∈ r.entities,
      0 ≤ n.length ∧ n.offset + n.length ≤ r.text.length)
    (hsplit : whole.entities = done ++ object :: todo) {r : Replacement}
    (hr : replacementOf object = some r) {entity : EntityInText} (hentity : entity ∈ done) :
    (image replacementOf whole.text (splices replacementOf done) entity).map
        (adjusted (moved whole.text (splices replacementOf done) object) r.text) =
      image replacementOf whole.text
        (⟨object.start, object.till, r.text⟩ :: splices replacementOf done) entity := by
  have hsome : replacementOf object ≠ none := hr ▸ Option.some_ne_none r
  have hmem : entity ∈ whole.entities := hsplit ▸ List.mem_append_left _ hentity
  have hobject : object ∈ whole.entities :=
    hsplit ▸ List.mem_append_right _ List.mem_cons_self
  have hbefore := h.allBefore hsplit hsome
  rw [image, image]
  cases hentityOf : replacementOf entity with
  | none =>
    have hside := h.beside entity hmem hentityOf
    obtain ⟨hstart, htill⟩ := @outside_of_beside replacementOf _ done _ (h.inText entity hmem)
      fun o ho => hside o (hsplit ▸ List.mem_append_left _ ho)
    dsimp only
    rw [List.map_singleton, adjusted_moved (h.inText object hobject) (h.inText entity hmem) hbefore
      hstart htill (hside object hobject hsome)]
  | some label =>
    have hmade : (⟨entity.start, entity.till, label.text⟩ : Splice UInt16) ∈
        splices replacementOf done := mem_splices.2 ⟨entity, hentity, label, hentityOf, rfl⟩
    have hlt := (hbefore _ hmade).2
    have hroom := (Splice.prefix_before (h.ordered_splices hsplit) hmade hlt).length_le
    have hpos : Splice.pos whole.text (⟨object.start, object.till, r.text⟩ ::
        splices replacementOf done) entity.start = _ := Splice.pos_cons_of_le hlt.le
    rw [List.length_append] at hroom
    dsimp only
    rw [List.map_map, hpos]
    refine List.map_congr_left fun n hn => ?_
    obtain ⟨hlength, hend⟩ := hnested entity label hentityOf n hn
    have hplace : (moved whole.text (splices replacementOf done) object).offset =
      (Splice.before whole.text (splices replacementOf done) object.start).length := rfl
    rw [Function.comp_apply]
    refine adjusted_before _ ?_ ?_
    all_goals
      rw [hplace]
      dsimp only [Splice.pos] at hroom ⊢
      omega

/-- **One object more**, for an entity to come. -/
theorem WellPlaced.moved_adjusted (h : WellPlaced replacementOf whole)
    (hsplit : whole.entities = done ++ object :: todo) {r : Replacement}
    (hr : replacementOf object = some r) {entity : EntityInText} (hentity : entity ∈ todo) :
    adjusted (moved whole.text (splices replacementOf done) object) r.text
        (moved whole.text (splices replacementOf done) entity) =
      moved whole.text (⟨object.start, object.till, r.text⟩ :: splices replacementOf done)
        entity := by
  have hsome : replacementOf object ≠ none := hr ▸ Option.some_ne_none r
  have hmem : entity ∈ whole.entities :=
    hsplit ▸ List.mem_append_right _ (List.mem_cons_of_mem _ hentity)
  have hobject : object ∈ whole.entities :=
    hsplit ▸ List.mem_append_right _ List.mem_cons_self
  obtain ⟨hstart, htill⟩ := @outside_of_beside replacementOf _ done _ (h.inText entity hmem)
    fun o ho => h.beside_done hsplit (List.mem_cons_of_mem _ hentity) ho
  have hsplit' : whole.entities = (done ++ [object]) ++ todo := by
    rw [hsplit, List.append_assoc, List.singleton_append]
  exact adjusted_moved (h.inText object hobject) (h.inText entity hmem)
    (h.allBefore hsplit hsome) hstart htill
    (h.beside_done hsplit' hentity (List.mem_append_right _ List.mem_cons_self) hsome)

/-- What the loop has come to when it has passed some entities. -/
def expansionAt (replacementOf : EntityInText → Option Replacement) (text : QString)
    (done : List EntityInText) : Expansion where
  text := Splice.whole text (splices replacementOf done)
  before := done.flatMap (image replacementOf text (splices replacementOf done))
  spans := done.flatMap (spanOf replacementOf text (splices replacementOf done))

theorem replaced_whole (hobject : InText text object)
    (hmade : Splice.AllBefore made object.start) (replacement : QString) :
    replaced (Splice.whole text made) (moved text made object) replacement =
      Splice.whole text (⟨object.start, object.till, replacement⟩ :: made) := by
  obtain ⟨-, -, hle, hend⟩ := hobject.casts
  have hstart : (moved text made object).offset.toNat = Splice.pos text made object.start :=
    Int.toNat_natCast _
  have htill : ((moved text made object).offset + (moved text made object).length).toNat =
      Splice.pos text made object.till := by
    dsimp only [moved]
    rw [add_sub_cancel, Int.toNat_natCast]
  have htake : (Splice.whole text made).take (Splice.pos text made object.start) =
      Splice.before text made object.start := by
    rw [Splice.whole_eq hmade, Splice.pos, List.take_left]
  have hdrop : (Splice.whole text made).drop (Splice.pos text made object.till) =
      text.drop object.till := by
    rw [Splice.whole_eq (hmade.mono hle), Splice.pos, List.drop_left]
  rw [replaced, hstart, htill, htake, hdrop, Splice.whole]

theorem WellPlaced.expand_eq (h : WellPlaced replacementOf whole)
    (hnested : ∀ e r, replacementOf e = some r → ∀ n ∈ r.entities,
      0 ≤ n.length ∧ n.offset + n.length ≤ r.text.length)
    (hsplit : whole.entities = done ++ object :: todo) {r : Replacement}
    (hr : replacementOf object = some r) :
    (expansionAt replacementOf whole.text done).expand
        (moved whole.text (splices replacementOf done) object) r =
      expansionAt replacementOf whole.text (done ++ [object]) := by
  have hsome : replacementOf object ≠ none := hr ▸ Option.some_ne_none r
  have hobject : object ∈ whole.entities :=
    hsplit ▸ List.mem_append_right _ List.mem_cons_self
  have hbefore := h.allBefore hsplit hsome
  have hsplices : splices replacementOf (done ++ [object]) =
      ⟨object.start, object.till, r.text⟩ :: splices replacementOf done := by
    rw [splices_concat, spliceOf, hr]
    rfl
  have hpos : Splice.pos whole.text (⟨object.start, object.till, r.text⟩ ::
      splices replacementOf done) object.start =
        Splice.pos whole.text (splices replacementOf done) object.start :=
    Splice.pos_cons_of_le le_rfl
  rw [Expansion.expand, expansionAt, expansionAt, hsplices, Expansion.mk.injEq,
    List.flatMap_append, List.flatMap_append, List.flatMap_singleton, List.flatMap_singleton]
  refine ⟨replaced_whole (h.inText object hobject) hbefore r.text, ?_, ?_⟩
  · rw [List.map_flatMap]
    refine congrArg₂ _ (List.flatMap_congr fun entity hentity => ?_) ?_
    · exact h.image_adjusted hnested hsplit hr hentity
    · rw [image, hr, hpos]
      rfl
  · refine congrArg₂ _ (List.flatMap_congr fun entity hentity => ?_) ?_
    · rw [spanOf, spanOf]
      cases hentityOf : replacementOf entity with
      | none => rfl
      | some label =>
        have hmade : (⟨entity.start, entity.till, label.text⟩ : Splice UInt16) ∈
            splices replacementOf done := mem_splices.2 ⟨entity, hentity, label, hentityOf, rfl⟩
        have hsame : Splice.pos whole.text (⟨object.start, object.till, r.text⟩ ::
            splices replacementOf done) entity.start = _ :=
          Splice.pos_cons_of_le (hbefore _ hmade).2.le
        rw [hsame]
    · rw [spanOf, hr, hpos]
      obtain ⟨label, nested, span⟩ := r
      cases span <;> rfl

/-- **What the loop leaves**: the text with every object replaced, and every entity's image. -/
theorem expandLoop_eq (h : WellPlaced replacementOf whole)
    (hdata : ∀ e e' : EntityInText, e.type = e'.type → e.data = e'.data →
      replacementOf e = replacementOf e')
    (hnested : ∀ e r, replacementOf e = some r → ∀ n ∈ r.entities,
      0 ≤ n.length ∧ n.offset + n.length ≤ r.text.length) :
    expandLoop replacementOf { text := whole.text } whole.entities =
      expansionAt replacementOf whole.text whole.entities := by
  have hloop : ∀ todo done, whole.entities = done ++ todo →
      expandLoop replacementOf (expansionAt replacementOf whole.text done)
        (todo.map (moved whole.text (splices replacementOf done))) =
          expansionAt replacementOf whole.text whole.entities := by
    intro todo
    induction todo with
    | nil =>
      intro done hsplit
      rw [List.map_nil, expandLoop, hsplit, List.append_nil]
    | cons entity todo ih =>
      intro done hsplit
      have hsplit' : whole.entities = (done ++ [entity]) ++ todo := by
        rw [hsplit, List.append_assoc, List.singleton_append]
      have hsame : replacementOf (moved whole.text (splices replacementOf done) entity) =
          replacementOf entity := hdata _ _ rfl rfl
      rw [List.map_cons, expandLoop, hsame]
      cases hr : replacementOf entity with
      | none =>
        have hsplices : splices replacementOf (done ++ [entity]) = splices replacementOf done := by
          rw [splices_concat, spliceOf, hr]
          rfl
        have hstep := ih (done ++ [entity]) hsplit'
        rw [expansionAt, hsplices, List.flatMap_append, List.flatMap_append,
          List.flatMap_singleton, List.flatMap_singleton, image, spanOf, hr,
          List.append_nil] at hstep
        exact hstep
      | some r =>
        have hsplices : splices replacementOf (done ++ [entity]) =
            ⟨entity.start, entity.till, r.text⟩ :: splices replacementOf done := by
          rw [splices_concat, spliceOf, hr]
          rfl
        dsimp only
        rw [h.expand_eq hnested hsplit hr, ← ih (done ++ [entity]) hsplit', List.map_map, hsplices]
        refine congrArg _ (List.map_congr_left fun other hother => ?_)
        exact h.moved_adjusted hsplit hr hother
  have hstart := hloop whole.entities [] rfl
  have hsame : whole.entities.map (moved whole.text []) = whole.entities :=
    (List.map_congr_left fun e he => moved_nil (h.inText e he)).trans (List.map_id _)
  have hnone : splices replacementOf [] = [] := rfl
  rw [hnone, hsame] at hstart
  exact hstart

/-! ## Labels stay in range -/

variable {lib : Library}

theorem inText_parseRichButtonLabel (lib : Library) (data : QString) :
    ∀ n ∈ (parseRichButtonLabel lib data).entities,
      InText (parseRichButtonLabel lib data).text n := by
  rw [parseRichButtonLabel]
  cases data.splitOn (unit '|') with
  | nil => exact fun n hn => absurd hn List.not_mem_nil
  | cons first parts =>
    intro n hn
    obtain ⟨part, -, hpart⟩ := List.mem_filterMap.1 hn
    rw [parseRichButtonLabelEntity] at hpart
    split at hpart
    · split at hpart
      · dsimp only at hpart
        split_ifs at hpart with hbad
        obtain rfl := Option.some.inj hpart
        simp only [not_or, not_lt, not_le] at hbad
        exact ⟨hbad.2.1, hbad.2.2.1.le, hbad.2.2.2⟩
      · cases hpart
    · cases hpart

theorem label_of_parse {data : QString} {object : InlineTextObjectEntity}
    {button : InlineTextObjectButtonData}
    (h : parseInlineTextObjectEntity lib data = some object)
    (hbutton : object.data = .button button) :
    ∃ label, button.label = parseRichButtonLabel lib label := by
  rw [parseInlineTextObjectEntity] at h
  split at h
  · split_ifs at h
    · split at h
      · obtain rfl := Option.some.inj h
        cases hbutton
      · cases h
    · split at h
      · split at h
        · obtain rfl := Option.some.inj h
          cases hbutton
        · cases h
      · cases h
    · split at h
      · split at h
        · split_ifs at h
          split at h
          · obtain rfl := Option.some.inj h
            obtain rfl := InlineTextObjectData.button.inj hbutton
            exact ⟨_, rfl⟩
          · cases h
        · cases h
      · cases h
  · cases h

theorem inText_resolvedBeside {text replacement : QString} {date n n' : EntityInText}
    (hdate : InText text date) (hn : InText text n)
    (h : resolvedBeside date replacement n = some n') :
    InText (replaced text date replacement) n' := by
  obtain ⟨hstart, htill, hle, hend⟩ := hdate.casts
  obtain ⟨hdoffset, hdlength, hdend⟩ := hdate
  obtain ⟨hoffset, hlength, hnend⟩ := hn
  have hsize : ((replaced text date replacement).length : ℤ) =
      text.length - date.length + replacement.length := by
    rw [replaced, List.length_append, List.length_append, List.length_take, List.length_drop,
      ← EntityInText.start, ← EntityInText.till, Nat.min_eq_left (hle.trans hend)]
    omega
  rw [resolvedBeside] at h
  split_ifs at h
  all_goals
    obtain rfl := Option.some.inj h
    refine ⟨?_, ?_, ?_⟩
  any_goals simp only [shiftRight, shrinkFromRight]
  all_goals omega

theorem inText_resolve (dates : DateText) (label : TextWithEntities)
    (h : ∀ n ∈ label.entities, InText label.text n) :
    ∀ n ∈ (resolveRichButtonLabelDates dates label).entities,
      InText (resolveRichButtonLabelDates dates label).text n := by
  fun_induction resolveRichButtonLabelDates dates label with
  | case1 => exact h
  | case2 => exact h
  | case3 label i hi date hdate hkeep ih =>
    exact ih fun n hn => h n (List.mem_of_mem_eraseIdx hn)
  | case4 label i hi date hdate replacement hreplace ih =>
    refine ih fun n hn => ?_
    obtain ⟨m, hm, hbeside⟩ := List.mem_filterMap.1 hn
    exact inText_resolvedBeside (h date (List.mem_of_getElem? hdate))
      (h m (List.mem_of_mem_eraseIdx hm)) hbeside

theorem inText_label (dates : RichButtonLabelDates) (lib : Library) (data : QString) :
    ∀ n ∈ (dates.label (parseRichButtonLabel lib data)).entities,
      InText (dates.label (parseRichButtonLabel lib data)).text n := by
  cases dates with
  | keep => exact inText_parseRichButtonLabel lib data
  | resolve dates => exact inText_resolve dates _ (inText_parseRichButtonLabel lib data)

theorem objectReplacement_nested (e : EntityInText) (r : Replacement)
    (h : objectReplacement lib e = some r) :
    ∀ n ∈ r.entities, 0 ≤ n.length ∧ n.offset + n.length ≤ r.text.length := by
  rw [objectReplacement] at h
  split_ifs at h
  obtain ⟨object, hobject, rfl⟩ := Option.map_eq_some_iff.1 h
  intro n hn
  cases hdata : object.data with
  | formula data =>
    rw [hdata] at hn
    exact absurd hn List.not_mem_nil
  | ivImage data =>
    rw [hdata] at hn
    exact absurd hn List.not_mem_nil
  | button data =>
    rw [hdata] at hn
    obtain ⟨label, hlabel⟩ := label_of_parse hobject hdata
    dsimp only at hn ⊢
    rw [hlabel] at hn ⊢
    exact (inText_parseRichButtonLabel lib label n hn).2

theorem inlineLinkButtonFor_label {e : EntityInText} {button : InlineTextObjectButtonData}
    (h : inlineLinkButtonFor lib e = some button) :
    ∃ label, button.label = parseRichButtonLabel lib label := by
  rw [inlineLinkButtonFor] at h
  split_ifs at h
  split at h
  · next hparse =>
      split_ifs at h
      obtain rfl := Option.some.inj h
      exact label_of_parse hparse rfl
  · nomatch h

theorem buttonReplacement_nested (dates : RichButtonLabelDates) (e : EntityInText) (r : Replacement)
    (h : buttonReplacement lib dates e = some r) :
    ∀ n ∈ r.entities, 0 ≤ n.length ∧ n.offset + n.length ≤ r.text.length := by
  obtain ⟨button, hbutton, rfl⟩ := Option.map_eq_some_iff.1 h
  intro n hn
  obtain ⟨label, hlabel⟩ := inlineLinkButtonFor_label hbutton
  dsimp only at hn ⊢
  rw [hlabel] at hn ⊢
  exact (inText_label dates lib label n hn).2

theorem objectReplacement_data (e e' : EntityInText) (htype : e.type = e'.type)
    (hdata : e.data = e'.data) : objectReplacement lib e = objectReplacement lib e' := by
  rw [objectReplacement, objectReplacement, htype, hdata]

theorem buttonReplacement_data (dates : RichButtonLabelDates) (e e' : EntityInText)
    (htype : e.type = e'.type) (hdata : e.data = e'.data) :
    buttonReplacement lib dates e = buttonReplacement lib dates e' := by
  rw [buttonReplacement, buttonReplacement, inlineLinkButtonFor, inlineLinkButtonFor, htype, hdata]

/-- **A span covers the label it was made for.** -/
theorem slice_of_mem_spans {dates : RichButtonLabelDates}
    (h : WellPlaced (buttonReplacement lib dates) whole) {span : InlineLinkButtonSpan}
    (hspan : span ∈ (expansionAt (buttonReplacement lib dates) whole.text whole.entities).spans) :
    ∃ entity ∈ whole.entities, ∃ button, inlineLinkButtonFor lib entity = some button ∧
      span.data = entity.data ∧ span.length = (dates.label button.label).text.length ∧
        slice (Splice.whole whole.text (splices (buttonReplacement lib dates) whole.entities))
          span.offset.toNat (dates.label button.label).text.length =
            (dates.label button.label).text := by
  obtain ⟨entity, hentity, hmem⟩ := List.mem_flatMap.1 hspan
  rw [spanOf] at hmem
  split at hmem
  · next label nested data hr =>
      obtain rfl := List.mem_singleton.1 hmem
      obtain ⟨button, hbutton, heq⟩ := Option.map_eq_some_iff.1 hr
      obtain ⟨rfl, -, hdata⟩ := Replacement.mk.inj heq
      split_ifs at hdata
      have hmade : (⟨entity.start, entity.till, (dates.label button.label).text⟩ :
          Splice UInt16) ∈ splices (buttonReplacement lib dates) whole.entities :=
        mem_splices.2 ⟨entity, hentity, _, hr, rfl⟩
      have hnone : whole.entities = whole.entities ++ [] := (List.append_nil _).symm
      refine ⟨entity, hentity, button, hbutton, (Option.some.inj hdata).symm, rfl, ?_⟩
      rw [Int.toNat_natCast]
      exact Splice.slice_whole (h.ordered_splices hnone) hmade
  · exact absurd hmem List.not_mem_nil

/-- **Inline text objects.**  An object is read from what is written for it.  An expansion of a text
whose objects are well placed replaces every object's range by its text, leaves every other entity
between the places its ends have come to, and returns spans that cover the labels of buttons. -/
theorem inline_text_objects (lib : Library) :
    (∀ object, WellFormedObject lib object →
      parseInlineTextObjectEntity lib (serializeInlineTextObjectEntity lib object) =
        some object) ∧
    (∀ text, WellPlaced (objectReplacement lib) text →
      expandInlineTextObjects lib text =
        { text := Splice.whole text.text (splices (objectReplacement lib) text.entities)
          entities := text.entities.flatMap (image (objectReplacement lib) text.text
            (splices (objectReplacement lib) text.entities)) }) ∧
    ∀ dates text, WellPlaced (buttonReplacement lib dates) text →
      (expandInlineLinkButtons lib dates text).1 =
        { text := Splice.whole text.text (splices (buttonReplacement lib dates) text.entities)
          entities := text.entities.flatMap (image (buttonReplacement lib dates) text.text
            (splices (buttonReplacement lib dates) text.entities)) } ∧
      ∀ span ∈ (expandInlineLinkButtons lib dates text).2,
        ∃ entity ∈ text.entities, ∃ button, inlineLinkButtonFor lib entity = some button ∧
          span.data = entity.data ∧ span.length = (dates.label button.label).text.length ∧
            slice (expandInlineLinkButtons lib dates text).1.text span.offset.toNat
              (dates.label button.label).text.length = (dates.label button.label).text := by
  refine ⟨fun object => parse_serializeInlineTextObject, fun text h => ?_, fun dates text h => ?_⟩
  · rw [expandInlineTextObjects, expandLoop_eq h objectReplacement_data objectReplacement_nested]
    rfl
  · have hloop := expandLoop_eq h (buttonReplacement_data dates) (buttonReplacement_nested dates)
    rw [expandInlineLinkButtons, hloop]
    exact ⟨rfl, fun span hspan => slice_of_mem_spans h hspan⟩

end Markdown

end Yunogram.Iv
