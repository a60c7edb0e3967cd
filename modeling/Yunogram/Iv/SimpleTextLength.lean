import Yunogram.Iv.SimpleText
import Yunogram.Machinery.Lockstep

/-!
# Iv/SimpleTextLength — the length of a simple message, without the message

`CanSerializeAsSimple` counts what `SerializeAsSimple` builds (`simple_check_agrees`).

The one thing that the counter does not do is to trim what has been built already: the body of a
quote, and the message as a whole.  What is built is tidy (`IsTidy`): its last character stays, and
so does the first one, being no space or the beginning of a monospace entity.  Trimming leaves such
a text as it is, and joining keeps it tidy. -/

open Machinery

namespace Yunogram.Iv.SimpleText

open Markdown (Library Unicode shiftRight)

/-! ## The left trim -/

section

variable {isTrimmed : UInt16 → Bool} {stop : ℤ}

/-- The left trim takes a run of characters away, up to one that stays or to where it stops. -/
theorem leftTrimmed_spec (start : ℕ) (text : QString) :
    ∃ taken rest, text = taken ++ rest ∧
      leftTrimmed isTrimmed stop start text = start + taken.length ∧
      (∀ c ∈ taken, isTrimmed c = true) ∧
      ((start + taken.length : ℤ) = stop ∨ ∀ c rest', rest = c :: rest' → isTrimmed c = false) := by
  induction text generalizing start with
  | nil => exact ⟨[], [], rfl, rfl, by simp, .inr (by simp)⟩
  | cons c text ih =>
    rw [leftTrimmed]
    split_ifs with h
    · obtain ⟨taken, rest, rfl, heq, htaken, hend⟩ := ih (start + 1)
      refine ⟨c :: taken, rest, rfl, ?_, ?_, ?_⟩
      · rw [heq, List.length_cons]
        omega
      · intro d hd
        rcases List.mem_cons.1 hd with rfl | hd
        · exact h.2
        · exact htaken d hd
      · rcases hend with hend | hend
        · left
          rw [← hend, List.length_cons]
          push_cast
          omega
        · exact .inr hend
    · refine ⟨[], c :: text, rfl, rfl, by simp, ?_⟩
      rcases not_and_or.1 h with h | h
      · left
        rw [List.length_nil]
        simpa using h
      · right
        rintro d rest' heq
        obtain ⟨rfl, -⟩ := List.cons.inj heq
        simpa using h

theorem leftTrimmed_cons_eq_zero {c : UInt16} {rest : QString}
    (h : stop = 0 ∨ isTrimmed c = false) : leftTrimmed isTrimmed stop 0 (c :: rest) = 0 := by
  rw [leftTrimmed, if_neg]
  rcases h with h | h <;> simp [h]

end

/-! ## The first monospace entity -/

section

variable {isMonospace : EntityInText → Bool} {entities : List EntityInText}

/-- A monospace entity with no other one before it is the first one. -/
theorem firstMonospaceOffset_eq {least : ℤ} (hleast : ∀ e ∈ entities, least ≤ e.offset)
    (h : ∃ e ∈ entities, isMonospace e = true ∧ e.offset = least) (length : ℤ) :
    firstMonospaceOffset isMonospace entities length = least := by
  obtain ⟨e, he, hmono, hoffset⟩ := h
  have hmin : ((entities.filter isMonospace).map (·.offset)).min? = some least := by
    rw [List.min?_eq_some_iff]
    refine ⟨List.mem_map.2 ⟨e, List.mem_filter.2 ⟨he, hmono⟩, hoffset⟩, fun offset hmem => ?_⟩
    obtain ⟨e', he', rfl⟩ := List.mem_map.1 hmem
    exact hleast e' (List.mem_filter.1 he').1
  rw [firstMonospaceOffset, hmin]
  rfl

/-- What is not at the end of the text is a monospace entity. -/
theorem exists_of_firstMonospaceOffset {length offset : ℤ}
    (h : firstMonospaceOffset isMonospace entities length = offset) (hne : offset ≠ length) :
    ∃ e ∈ entities, isMonospace e = true ∧ e.offset = offset := by
  rw [firstMonospaceOffset] at h
  cases hmin : ((entities.filter isMonospace).map (·.offset)).min? with
  | none =>
    rw [hmin] at h
    exact absurd h.symm hne
  | some least =>
    rw [hmin] at h
    obtain rfl : least = offset := h
    obtain ⟨e, he, hoffset⟩ := List.mem_map.1 (List.min?_mem hmin)
    exact ⟨e, (List.mem_filter.1 he).1, (List.mem_filter.1 he).2, hoffset⟩

end

/-! ## Tidy texts -/

section

variable (ui : TextUtilities)

/-- **A tidy text**: its last character is not trimmed, and neither is the first one, unless a
monospace entity begins with it. -/
structure IsTidy (text : TextWithEntities) : Prop where
  right : text.text.rdropWhile ui.isTrimmed = text.text
  left : ∀ c rest, text.text = c :: rest →
    ui.isTrimmed c = false ∨ ∃ e ∈ text.entities, ui.isMonospace e = true ∧ e.offset = 0
  inside : ∀ e ∈ text.entities, 0 ≤ e.offset

end

variable {ui : TextUtilities}

theorem IsTidy.empty : IsTidy ui { text := [] } where
  right := rfl
  left := by simp
  inside := by simp

/-- **Trimming leaves a tidy text as it is.** -/
theorem IsTidy.trim_text {text : TextWithEntities} (h : IsTidy ui text) :
    (ui.trim text).text = text.text := by
  rw [ui.trim_text, trimmedText, h.right]
  cases htext : text.text with
  | nil => rfl
  | cons c rest =>
    rw [leftTrimmed_cons_eq_zero, List.drop_zero]
    rcases h.left c rest htext with hc | hmono
    · exact .inr hc
    · exact .inl (firstMonospaceOffset_eq h.inside hmono _)

theorem rdropWhile_drop_of_self {isTrimmed : UInt16 → Bool} {text : QString}
    (h : text.rdropWhile isTrimmed = text) (k : ℕ) :
    (text.drop k).rdropWhile isTrimmed = text.drop k := by
  rw [List.rdropWhile_eq_self_iff] at h ⊢
  intro hne
  rw [List.getLast_drop]
  exact h (fun hnil => hne (by rw [hnil, List.drop_nil]))

/-- **What is trimmed is tidy.** -/
theorem isTidy_trim (text : TextWithEntities) : IsTidy ui (ui.trim text) where
  right := by
    rw [ui.trim_text, trimmedText]
    exact rdropWhile_drop_of_self (List.rdropWhile_idempotent _ _) _
  left := by
    intro c rest hcons
    have htext := ui.trim_text text
    rw [hcons, trimmedText] at htext
    have hmono := ui.trim_monospace text
    dsimp only at htext hmono
    revert htext hmono
    generalize hkept : text.text.rdropWhile ui.isTrimmed = kept
    generalize firstMonospaceOffset ui.isMonospace text.entities kept.length = stop
    intro htext hmono
    obtain ⟨taken, after, rfl, heq, -, hend⟩ :=
      @leftTrimmed_spec ui.isTrimmed stop 0 kept
    rw [heq, Nat.zero_add] at htext hmono
    rw [List.drop_left] at htext
    rcases hend with hend | hend
    · right
      refine exists_of_firstMonospaceOffset (hmono ?_ ?_) ?_
      · rw [← htext]
        simp
      · simpa using hend
      · rw [hcons, List.length_cons]
        omega
    · exact .inl (hend c rest htext.symm)
  inside := ui.trim_inside text

/-- The counter's length of a text is the one that is left by trimming it. -/
theorem trimmedLength_eq (text : TextWithEntities) :
    trimmedLength ui text = (ui.trim text).text.length := by
  rw [ui.trim_text, trimmedText, trimmedLength]
  dsimp only
  split_ifs with h
  · rw [h, List.drop_nil, List.length_nil]
  · rw [List.length_drop]

/-! ## Joining -/

/-- A block with the entity around it. -/
def wrapped (block : TextWithEntities) (wrap : EntityType) (wrapData : QString) :
    TextWithEntities :=
  if wrap ≠ .invalid then
    { block with entities := block.entities ++ [⟨wrap, 0, block.text.length, wrapData⟩] }
  else
    block

@[simp] theorem wrapped_text (block : TextWithEntities) (wrap : EntityType) (wrapData : QString) :
    (wrapped block wrap wrapData).text = block.text := by
  rw [wrapped]
  split_ifs <;> rfl

theorem IsTidy.wrapped {block : TextWithEntities} (h : IsTidy ui block) (wrap : EntityType)
    (wrapData : QString) : IsTidy ui (wrapped block wrap wrapData) := by
  rw [SimpleText.wrapped]
  split_ifs
  · refine ⟨h.right, fun c rest hcons => ?_, fun e he => ?_⟩
    · refine (h.left c rest hcons).imp_right fun hmono => ?_
      obtain ⟨e, he, hmono⟩ := hmono
      exact ⟨e, List.mem_append_left _ he, hmono⟩
    · rcases List.mem_append.1 he with he | he
      · exact h.inside e he
      · rw [List.mem_singleton.1 he]
  · exact h

/-- The text so far with a block behind it. -/
def joined (result block : TextWithEntities) : TextWithEntities :=
  append (if result.text ≠ [] then append result newline else result) block

theorem appendSimpleBlock_eq (result block : TextWithEntities) (wrap : EntityType)
    (wrapData : QString) :
    appendSimpleBlock ui result block wrap wrapData
      = if (ui.trim block).text = [] then result
        else joined result (wrapped (ui.trim block) wrap wrapData) := rfl

@[simp] theorem append_text (a b : TextWithEntities) : (append a b).text = a.text ++ b.text := rfl

theorem shiftRight_shiftRight (e : EntityInText) (m n : ℕ) :
    shiftRight (shiftRight e m) n = shiftRight e ((n + m : ℕ) : ℤ) := by
  rw [shiftRight, shiftRight, shiftRight]
  congr 1
  dsimp only
  omega

theorem append_assoc (a b c : TextWithEntities) :
    append (append a b) c = append a (append b c) := by
  rw [append, append, append, append]
  congr 1
  · exact List.append_assoc _ _ _
  · rw [List.map_append, List.map_map, List.append_assoc]
    congr 2
    refine List.map_congr_left fun e _ => ?_
    rw [List.length_append, Function.comp_apply, shiftRight_shiftRight]

/-- Behind any text, what stays at the right stays. -/
theorem rdropWhile_append_self {isTrimmed : UInt16 → Bool} (a : QString) {b : QString}
    (h : b.rdropWhile isTrimmed = b) (hne : b ≠ []) : (a ++ b).rdropWhile isTrimmed = a ++ b := by
  rw [List.rdropWhile_eq_self_iff] at h ⊢
  intro hl
  rw [List.getLast_append_of_ne_nil hl hne]
  exact h hne

/-- A text that has text, with more behind it that stays. -/
theorem IsTidy.append {a b : TextWithEntities} (ha : IsTidy ui a) (hne : a.text ≠ [])
    (hright : b.text ≠ [] → b.text.rdropWhile ui.isTrimmed = b.text)
    (hinside : ∀ e ∈ b.entities, 0 ≤ e.offset) : IsTidy ui (append a b) where
  right := by
    rw [append_text]
    by_cases hb : b.text = []
    · rw [hb, List.append_nil, ha.right]
    · exact rdropWhile_append_self _ (hright hb) hb
  left := by
    intro c rest hcons
    obtain ⟨d, rest', hd⟩ := List.exists_cons_of_ne_nil hne
    obtain rfl : d = c := by
      rw [append_text, hd] at hcons
      exact (List.cons.inj hcons).1
    refine (ha.left d rest' hd).imp_right fun hmono => ?_
    obtain ⟨e, he, hmono⟩ := hmono
    exact ⟨e, List.mem_append_left _ he, hmono⟩
  inside := by
    intro e he
    rcases List.mem_append.1 he with he | he
    · exact ha.inside e he
    · obtain ⟨e', he', rfl⟩ := List.mem_map.1 he
      have hle := hinside e' he'
      rw [shiftRight]
      dsimp only
      omega

/-- What has been built: a tidy text, with no entities while it has no text. -/
structure IsBuilt (ui : TextUtilities) (text : TextWithEntities) : Prop extends IsTidy ui text where
  entities : text.text = [] → text.entities = []

theorem IsBuilt.empty : IsBuilt ui { text := [] } := ⟨IsTidy.empty, fun _ => rfl⟩

/-- **Joining keeps what has been built tidy.** -/
theorem IsBuilt.joined {result block : TextWithEntities} (h : IsBuilt ui result)
    (hblock : IsTidy ui block) (hne : block.text ≠ []) : IsBuilt ui (joined result block) := by
  rw [SimpleText.joined]
  split_ifs with hresult
  · refine ⟨?_, fun hnil => ?_⟩
    · rw [append_assoc]
      refine h.toIsTidy.append hresult (fun _ => ?_) fun e he => ?_
      · exact rdropWhile_append_self _ hblock.right hne
      · rcases List.mem_append.1 he with he | he
        · exact absurd he List.not_mem_nil
        · obtain ⟨e', he', rfl⟩ := List.mem_map.1 he
          have hle := hblock.inside e' he'
          rw [shiftRight]
          dsimp only
          omega
    · simp [hne] at hnil
  · rw [not_not] at hresult
    have heq : append result block = block := by
      simp [append, hresult, h.entities hresult, shiftRight]
    rw [heq]
    exact ⟨hblock, fun hnil => absurd hnil hne⟩

theorem length_joined (result block : TextWithEntities) :
    (joined result block).text.length
      = result.text.length + ((if result.text.length > 0 then 1 else 0) + block.text.length) := by
  rw [joined]
  by_cases hresult : result.text = []
  · simp [hresult]
  · rw [if_pos hresult, if_pos (List.length_pos_iff.2 hresult)]
    simp only [append_text, List.length_append]
    exact Nat.add_assoc _ _ _

/-! ## The sinks in step -/

/-- What has been built, and its length. -/
def InStep (ui : TextUtilities) (text : TextWithEntities) (length : ℕ) : Prop :=
  IsBuilt ui text ∧ text.text.length = length

theorem InStep.empty : InStep ui { text := [] } 0 := ⟨IsBuilt.empty, rfl⟩

/-- **Appending keeps the sinks in step**, when the counter knows the length of what is left of the
block. -/
theorem InStep.append {result : TextWithEntities} {count : ℕ} (h : InStep ui result count)
    (block : TextWithEntities) (wrap : EntityType) (wrapData : QString) :
    InStep ui (appendSimpleBlock ui result block wrap wrapData)
      (appendLength count (ui.trim block).text.length) := by
  obtain ⟨hbuilt, rfl⟩ := h
  rw [appendSimpleBlock_eq, appendLength]
  by_cases hnil : (ui.trim block).text = []
  · rw [if_pos hnil, hnil]
    exact ⟨hbuilt, rfl⟩
  · rw [if_neg hnil, if_pos (List.length_pos_iff.2 hnil)]
    refine ⟨hbuilt.joined ((isTidy_trim block).wrapped wrap wrapData) (by rwa [wrapped_text]), ?_⟩
    rw [length_joined, wrapped_text]

theorem InStep.sinks {result : TextWithEntities} {count : ℕ} (h : InStep ui result count)
    (text : TextWithEntities) (wrap : EntityType) (wrapData : QString) :
    InStep ui ((simpleTextBuilder ui).append result text wrap wrapData)
      ((simpleTextCounter ui).append count text wrap wrapData) := by
  change InStep ui _ (appendLength count (trimmedLength ui text))
  rw [trimmedLength_eq]
  exact h.append text wrap wrapData

section

variable (lib : Library) (unicode : Unicode) (ui)

theorem collectSimpleQuote_inStep (quote : Block) :
    Option.Rel (InStep ui) (collectSimpleQuote lib unicode (simpleTextBuilder ui) quote)
      (collectSimpleQuote lib unicode (simpleTextCounter ui) quote) := by
  have hchild : ∀ child ∈ quote.blocks, ∀ a n, InStep ui a n →
      Option.Rel (InStep ui) (collectChild lib (simpleTextBuilder ui) a child)
        (collectChild lib (simpleTextCounter ui) n child) := by
    intro child _ a n h
    rw [collectChild, collectChild]
    split_ifs
    · exact .none
    · exact .some (h.sinks child.text .invalid [])
  rw [collectSimpleQuote, collectSimpleQuote]
  split_ifs
  · exact .none
  · exact .none
  · exact foldlM_related hchild (InStep.empty.sinks quote.text .invalid [])
  · exact foldlM_related hchild .empty

/-- **A block keeps the sinks in step.** -/
theorem appendBlock_inStep {result : TextWithEntities} {count : ℕ} (h : InStep ui result count)
    (block : Block) :
    Option.Rel (InStep ui) (appendBlock lib unicode (simpleTextBuilder ui) result block)
      (appendBlock lib unicode (simpleTextCounter ui) count block) := by
  rw [appendBlock, appendBlock]
  split
  · split_ifs
    · exact .none
    · exact .some (h.sinks block.text .invalid [])
  · split_ifs
    · exact .none
    · exact .some (h.sinks block.text .pre block.language)
  · have hbody := collectSimpleQuote_inStep ui lib unicode block
    revert hbody
    generalize collectSimpleQuote lib unicode (simpleTextBuilder ui) block = x
    generalize collectSimpleQuote lib unicode (simpleTextCounter ui) block = y
    intro hbody
    cases hbody with
    | none => exact .none
    | @some body length hbody =>
      refine .some ?_
      have hstep := h.append body .blockquote
        (if block.collapsed && richBlockquoteIsCollapsible block then ascii "1" else [])
      rw [hbody.1.trim_text, hbody.2] at hstep
      exact hstep
  · exact .none

theorem appendBlocks_inStep (blocks : List Block) :
    Option.Rel (InStep ui) (appendBlocks lib unicode (simpleTextBuilder ui) blocks)
      (appendBlocks lib unicode (simpleTextCounter ui) blocks) :=
  foldlM_related (fun block _ _ _ h => appendBlock_inStep ui lib unicode h block) .empty

/-- The two walks end alike. -/
theorem serializeAsSimpleTo_inStep (lengthLimit : ℤ) (page : RichPage) :
    Option.Rel (fun text length => InStep ui text length ∧ length ≠ 0 ∧ length ≤ lengthLimit)
      (serializeAsSimpleTo lib unicode (simpleTextBuilder ui) lengthLimit page)
      (serializeAsSimpleTo lib unicode (simpleTextCounter ui) lengthLimit page) := by
  rw [serializeAsSimpleTo, serializeAsSimpleTo]
  have hblocks := appendBlocks_inStep ui lib unicode page.blocks
  revert hblocks
  generalize appendBlocks lib unicode (simpleTextBuilder ui) page.blocks = x
  generalize appendBlocks lib unicode (simpleTextCounter ui) page.blocks = y
  intro hblocks
  cases hblocks with
  | none => exact .none
  | @some text length h =>
    obtain ⟨hbuilt, rfl⟩ := h
    rw [Option.bind_some, Option.bind_some]
    change Option.Rel _ (if text.text.length = 0 then none
      else if (text.text.length : ℤ) ≤ lengthLimit then some text else none)
      (if text.text.length = 0 then none
        else if (text.text.length : ℤ) ≤ lengthLimit then some text.text.length else none)
    split_ifs with hzero hlimit
    · exact .none
    · exact .some ⟨⟨hbuilt, rfl⟩, hzero, hlimit⟩
    · exact .none

/-- **The check agrees with the builder.**  Block by block the counter has the length of the text
that is built, the check says whether there is a text in the end, and that text is not empty and
within the limit. -/
theorem simple_check_agrees (lengthLimit : ℤ) (page : RichPage) :
    (∀ n, Option.Rel (fun text length => text.text.length = length)
      (appendBlocks lib unicode (simpleTextBuilder ui) (page.blocks.take n))
      (appendBlocks lib unicode (simpleTextCounter ui) (page.blocks.take n))) ∧
    (canSerializeAsSimple lib unicode ui lengthLimit page = true ↔
      (serializeAsSimple lib unicode ui lengthLimit page).isSome = true) ∧
    ∀ text, serializeAsSimple lib unicode ui lengthLimit page = some text →
      text.text ≠ [] ∧ text.text.length ≤ lengthLimit := by
  refine ⟨fun n => ?_, ?_, ?_⟩
  · exact rel_imp (appendBlocks_inStep ui lib unicode (page.blocks.take n)) fun _ _ h => h.2
  · rw [serializeAsSimple, canSerializeAsSimple, Option.isSome_map,
      rel_isSome (serializeAsSimpleTo_inStep ui lib unicode lengthLimit page)]
  · intro text htext
    have h := serializeAsSimpleTo_inStep ui lib unicode lengthLimit page
    rw [serializeAsSimple] at htext
    revert h htext
    generalize serializeAsSimpleTo lib unicode (simpleTextBuilder ui) lengthLimit page = x
    generalize serializeAsSimpleTo lib unicode (simpleTextCounter ui) lengthLimit page = y
    intro htext h
    cases h with
    | none => exact nomatch htext
    | @some built length h =>
      obtain ⟨⟨hbuilt, rfl⟩, hzero, hlimit⟩ := h
      rw [Option.map_some] at htext
      obtain rfl := Option.some.inj htext
      rw [hbuilt.trim_text]
      exact ⟨fun hnil => hzero (by rw [hnil, List.length_nil]), hlimit⟩

end

end Yunogram.Iv.SimpleText
