import Mathlib
import Yunogram.Iv.InlineTextObjects

/-!
# Iv/InlineTextObjectCodec — an object is read from what is written for it

Every field is written in ASCII without a separator (`Plain`), so that splitting what was joined
gives the fields back (`splitOn_joined`), and each field is read as it was (`decodeField_encode`,
`toNumber_number`).
-/

open Machinery

namespace Yunogram.Iv.Markdown

/-! ## Fields -/

/-- A separator of fields. -/
def IsSeparator (u : UInt16) : Prop := u = unit ';' ∨ u = unit '|' ∨ u = unit ','

/-- ASCII without a separator. -/
def Plain (text : QString) : Prop := ∀ u ∈ text, u < 128 ∧ ¬IsSeparator u

variable {lib : Library} {text : QString}

theorem Plain.not_mem {separator : UInt16} (h : Plain text) (hsep : IsSeparator separator) :
    separator ∉ text := fun hmem => (h separator hmem).2 hsep

theorem map_toUInt8_toUInt16 (h : ∀ u ∈ text, u < 128) :
    (text.map (·.toUInt8)).map (·.toUInt16) = text := by
  rw [List.map_map]
  refine (List.map_congr_left fun u hu => ?_).trans (List.map_id text)
  have hlt := UInt16.lt_iff_toNat_lt.1 (h u hu)
  rw [Function.comp_apply, ← UInt16.toNat_inj, UInt8.toNat_toUInt16, UInt16.toNat_toUInt8]
  exact Nat.mod_eq_of_lt (hlt.trans (by decide))

theorem wellFormed_of_ascii (lib : Library) (h : ∀ u ∈ text, u < 128) : lib.WellFormed text := by
  have hbytes : ∀ b ∈ text.map (·.toUInt8), b < 128 := fun b hb => by
    obtain ⟨u, hu, rfl⟩ := List.mem_map.1 hb
    have hlt := UInt16.lt_iff_toNat_lt.1 (h u hu)
    rw [UInt8.lt_iff_toNat_lt, UInt16.toNat_toUInt8]
    exact (Nat.mod_le _ _).trans_lt hlt
  exact map_toUInt8_toUInt16 h ▸ (lib.ascii _ hbytes).2

theorem encodeBytes_eq (lib : Library) (bytes : List UInt8) :
    encodeInlineTextObjectBytes lib bytes = (Percent.encode bytes).map (·.toUInt16) :=
  (lib.ascii _ fun _ hb => (Percent.isWritten_of_mem_encode hb).lt).1

theorem plain_encodeBytes (lib : Library) (bytes : List UInt8) :
    Plain (encodeInlineTextObjectBytes lib bytes) := by
  rw [encodeBytes_eq]
  intro u hu
  obtain ⟨b, hb, rfl⟩ := List.mem_map.1 hu
  have hwritten := Percent.isWritten_of_mem_encode hb
  have hlt := UInt8.lt_iff_toNat_lt.1 hwritten.lt
  refine ⟨UInt16.lt_iff_toNat_lt.2 (by rwa [UInt8.toNat_toUInt16]), fun hsep => ?_⟩
  have hnot : ∀ c : UInt8, ¬Percent.IsWritten c → b.toUInt16 ≠ c.toUInt16 := fun c hc heq => by
    have hnat := congrArg UInt16.toNat heq
    rw [UInt8.toNat_toUInt16, UInt8.toNat_toUInt16] at hnat
    exact hc (UInt8.toNat_inj.1 hnat ▸ hwritten)
  rcases hsep with heq | heq | heq
  · exact hnot 59 (by decide) heq
  · exact hnot 124 (by decide) heq
  · exact hnot 44 (by decide) heq

theorem decodeBytes_encode (lib : Library) (bytes : List UInt8) :
    decodeInlineTextObjectBytes (encodeInlineTextObjectBytes lib bytes) = bytes := by
  rw [decodeInlineTextObjectBytes, encodeBytes_eq, toLatin1, List.map_map,
    (List.map_congr_left fun b _ => ?_).trans (List.map_id _), Percent.decode_encode]
  have hb := b.toNat_lt
  have hlt : b.toUInt16 < 256 := by
    rw [UInt16.lt_iff_toNat_lt, UInt8.toNat_toUInt16]
    exact hb
  rw [Function.comp_apply, if_pos hlt]
  exact UInt8.toUInt8_toUInt16 b

theorem plain_encodeField (lib : Library) (value : QString) :
    Plain (encodeInlineTextObjectField lib value) := plain_encodeBytes lib _

/-- **A field is read as it was written.** -/
theorem decodeField_encode (h : lib.WellFormed text) :
    decodeInlineTextObjectField lib (encodeInlineTextObjectField lib text) = text := by
  rw [decodeInlineTextObjectField, encodeInlineTextObjectField, decodeBytes_encode,
    lib.exact text h]

theorem plain_digits (n : ℕ) : Plain ((Nat.repr n).toList.map unit) := by
  intro u hu
  rw [Nat.toList_repr] at hu
  obtain ⟨c, hc, rfl⟩ := List.mem_map.1 hu
  have hdigit := Nat.isDigit_of_mem_toDigits (by decide) (by decide) hc
  rw [Char.isDigit, Bool.and_eq_true, decide_eq_true_eq, decide_eq_true_eq] at hdigit
  have hlow : 48 ≤ c.toNat := UInt32.le_iff_toNat_le.1 hdigit.1
  have hhigh : c.toNat ≤ 57 := UInt32.le_iff_toNat_le.1 hdigit.2
  have hunit : (unit c).toNat = c.toNat := by
    rw [unit, UInt16.toNat_ofNat', Nat.mod_eq_of_lt (by omega)]
  refine ⟨UInt16.lt_iff_toNat_lt.2 (hunit ▸ hhigh.trans_lt (by decide)), fun hsep => ?_⟩
  have hother : ∀ d : UInt16, unit c = d → d.toNat ≤ 57 := fun d hd => hd ▸ hunit ▸ hhigh
  rcases hsep with heq | heq | heq
  · exact absurd (hother _ heq) (by decide)
  · exact absurd (hother _ heq) (by decide)
  · have hcomma : (unit ',').toNat = 44 := by decide
    rw [heq, hcomma] at hunit
    omega

theorem number_negSucc (n : ℕ) :
    number (Int.negSucc n) = unit '-' :: (Nat.repr (n + 1)).toList.map unit := by
  rw [number, ascii]
  change ("-" ++ Nat.repr (n + 1)).toList.map _ = _
  rw [String.toList_append]
  rfl

theorem plain_number (n : ℤ) : Plain (number n) := by
  cases n with
  | ofNat n => exact plain_digits n
  | negSucc n =>
    intro u hu
    rw [number_negSucc] at hu
    rcases List.mem_cons.1 hu with rfl | hu
    · exact ⟨by decide, fun hsep => by rcases hsep with h | h | h <;> exact absurd h (by decide)⟩
    · exact plain_digits (n + 1) u hu

theorem toNumber_number {least most n : ℤ} (h : least ≤ n ∧ n ≤ most) :
    toNumber lib least most (number n) = some n := by
  rw [toNumber, number, lib.exactInteger, Option.filter_some, if_pos (decide_eq_true h)]

/-! ## A library for ASCII -/

/-- The number that digits with a sign are. -/
def readNumber (text : QString) : Option ℤ :=
  match text.map fun u => Char.ofNat u.toNat with
  | '-' :: digits => some (-(Nat.ofDigitChars 10 digits 0 : ℕ))
  | digits => some (Nat.ofDigitChars 10 digits 0 : ℕ)

theorem characters_digits (n : ℕ) :
    ((Nat.toDigits 10 n).map unit).map (fun u => Char.ofNat u.toNat) = Nat.toDigits 10 n := by
  rw [List.map_map]
  refine (List.map_congr_left fun c hc => ?_).trans (List.map_id _)
  have hdigit := Nat.isDigit_of_mem_toDigits (by decide) (by decide) hc
  rw [Char.isDigit, Bool.and_eq_true, decide_eq_true_eq, decide_eq_true_eq] at hdigit
  have hhigh : c.toNat ≤ 57 := UInt32.le_iff_toNat_le.1 hdigit.2
  rw [Function.comp_apply, unit, UInt16.toNat_ofNat', Nat.mod_eq_of_lt (by omega)]
  exact Char.ofNat_toNat c

theorem readNumber_number (n : ℤ) : readNumber (number n) = some n := by
  cases n with
  | ofNat n =>
    have hdigits : number (Int.ofNat n) = (Nat.toDigits 10 n).map unit :=
      congrArg (List.map unit) Nat.toList_repr
    rw [readNumber, hdigits, characters_digits]
    split
    · next digits hminus =>
        have hmem : '-' ∈ Nat.toDigits 10 n := hminus ▸ List.mem_cons_self
        exact absurd (Nat.isDigit_of_mem_toDigits (by decide) (by decide) hmem) (by decide)
    · rw [Nat.ofDigitChars_ten_toDigits]
      rfl
  | negSucc n =>
    rw [readNumber, number_negSucc, Nat.toList_repr, List.map_cons, characters_digits]
    have hminus : Char.ofNat (unit '-').toNat = '-' := by decide
    rw [hminus]
    change some (-(Nat.ofDigitChars 10 (Nat.toDigits 10 (n + 1)) 0 : ℤ)) = _
    rw [Nat.ofDigitChars_ten_toDigits]
    rfl

/-- UTF-8 as far as ASCII goes. -/
def asciiLibrary : Library where
  toUtf8 text := text.map (·.toUInt8)
  fromUtf8 bytes := bytes.map (·.toUInt16)
  toInteger := readNumber
  WellFormed text := ∀ u ∈ text, u < 128
  exact text h := map_toUInt8_toUInt16 h
  ascii bytes h := ⟨rfl, fun u hu => by
    obtain ⟨b, hb, rfl⟩ := List.mem_map.1 hu
    rw [UInt16.lt_iff_toNat_lt, UInt8.toNat_toUInt16]
    exact UInt8.lt_iff_toNat_lt.1 (h b hb)⟩
  exactInteger := readNumber_number

instance : Inhabited Library := ⟨asciiLibrary⟩

/-! ## Joining and splitting -/

/-- The fields with separators between them. -/
def joined (separator : UInt16) (fields : List QString) : QString := [separator].intercalate fields

theorem joined_cons_cons (separator : UInt16) (a b : QString) (fields : List QString) :
    joined separator (a :: b :: fields) = a ++ ([separator] ++ joined separator (b :: fields)) := by
  simp [joined, List.intercalate]

@[simp] theorem joined_singleton (separator : UInt16) (a : QString) : joined separator [a] = a := by
  simp [joined, List.intercalate]

/-- **Plain fields are split as they were joined.** -/
theorem splitOn_joined {separator : UInt16} (hsep : IsSeparator separator) {fields : List QString}
    (hplain : ∀ field ∈ fields, Plain field) (hne : fields ≠ []) :
    (joined separator fields).splitOn separator = fields :=
  List.splitOn_intercalate separator (fun field hfield => (hplain field hfield).not_mem hsep) hne

/-! ## Labels -/

/-- A value of `int`. -/
def IsInt (n : ℤ) : Prop := -2 ^ 31 ≤ n ∧ n ≤ 2 ^ 31 - 1

/-- A label of well-formed texts, with custom emoji and dates only, each nonempty and in range. -/
structure WellFormedLabel (lib : Library) (label : TextWithEntities) : Prop where
  text : lib.WellFormed label.text
  types : ∀ entity ∈ label.entities, entity.type = .customEmoji ∨ entity.type = .formattedDate
  data : ∀ entity ∈ label.entities, lib.WellFormed entity.data
  ints : ∀ entity ∈ label.entities, IsInt entity.offset ∧ IsInt entity.length
  inRange : ∀ entity ∈ label.entities, 0 ≤ entity.offset ∧ 0 < entity.length ∧
    entity.offset + entity.length ≤ label.text.length

/-- One entity of a label, written. -/
def entityPart (lib : Library) (entity : EntityInText) : QString :=
  joined (unit ',') [richButtonLabelEntityName entity.type, number entity.offset,
    number entity.length, encodeInlineTextObjectField lib entity.data]

theorem plain_entityName (type : EntityType) : Plain (richButtonLabelEntityName type) := by
  have hall : ∀ name ∈ [ascii "custom-emoji", ascii "formatted-date", []],
      name.all (fun u => u < 128 ∧ u ≠ unit ';' ∧ u ≠ unit '|' ∧ u ≠ unit ',') = true := by decide
  intro u hu
  have hname : richButtonLabelEntityName type ∈
      [ascii "custom-emoji", ascii "formatted-date", []] := by
    cases type <;> simp [richButtonLabelEntityName]
  obtain ⟨hlt, hsemicolon, hbar, hcomma⟩ :=
    of_decide_eq_true (List.all_eq_true.1 (hall _ hname) u hu)
  exact ⟨hlt, fun h => h.elim hsemicolon fun h => h.elim hbar hcomma⟩

theorem entityFields_plain (lib : Library) (entity : EntityInText) :
    ∀ field ∈ [richButtonLabelEntityName entity.type, number entity.offset, number entity.length,
      encodeInlineTextObjectField lib entity.data], Plain field := by
  simp only [List.forall_mem_cons, List.not_mem_nil, false_implies, implies_true, and_true]
  exact ⟨plain_entityName _, plain_number _, plain_number _, plain_encodeField lib _⟩

theorem mem_joined {separator u : UInt16} {fields : List QString}
    (hu : u ∈ joined separator fields) : u = separator ∨ ∃ field ∈ fields, u ∈ field := by
  induction fields with
  | nil => exact absurd hu List.not_mem_nil
  | cons a fields ih =>
    cases fields with
    | nil => exact Or.inr ⟨a, List.mem_singleton.2 rfl, by rwa [joined_singleton] at hu⟩
    | cons b fields =>
      rw [joined_cons_cons, List.mem_append, List.mem_append, List.mem_singleton] at hu
      rcases hu with hu | hu | hu
      · exact Or.inr ⟨a, List.mem_cons_self, hu⟩
      · exact Or.inl hu
      · exact (ih hu).imp_right fun ⟨field, hfield, hmem⟩ =>
          ⟨field, List.mem_cons_of_mem _ hfield, hmem⟩

/-- **A label is its text and its entities, between bars.** -/
theorem serializeRichButtonLabel_eq {label : TextWithEntities}
    (htypes : ∀ entity ∈ label.entities,
      entity.type = .customEmoji ∨ entity.type = .formattedDate) :
    serializeRichButtonLabel lib label = joined (unit '|')
      (encodeInlineTextObjectField lib label.text :: label.entities.map (entityPart lib)) := by
  obtain ⟨text, entities⟩ := label
  rw [serializeRichButtonLabel]
  generalize encodeInlineTextObjectField lib text = first
  dsimp only at htypes ⊢
  induction entities generalizing first with
  | nil => rw [List.foldl_nil, List.map_nil, joined_singleton]
  | cons entity entities ih =>
    have hname : (richButtonLabelEntityName entity.type).isEmpty = false := by
      rcases htypes entity List.mem_cons_self with h | h <;> rw [h] <;> decide
    rw [List.foldl_cons, ih fun e he => htypes e (List.mem_cons_of_mem _ he), List.map_cons,
      joined_cons_cons]
    rw [hname, if_neg Bool.false_ne_true]
    cases entities with
    | nil =>
      simp only [List.map_nil, joined_singleton, entityPart, joined_cons_cons, List.append_assoc]
      rfl
    | cons other entities =>
      simp only [List.map_cons, joined_cons_cons, joined_singleton, entityPart, List.append_assoc]
      rfl

theorem not_bar_entityPart (lib : Library) (entity : EntityInText) :
    ∀ u ∈ entityPart lib entity, u < 128 ∧ u ≠ unit '|' := by
  intro u hu
  rcases mem_joined hu with rfl | ⟨field, hfield, hmem⟩
  · decide
  · have hplain := entityFields_plain lib entity field hfield u hmem
    exact ⟨hplain.1, fun heq => hplain.2 (Or.inr (Or.inl heq))⟩

/-- **An entity of a label is read as it was.** -/
theorem parseEntity_entityPart {label : TextWithEntities} (h : WellFormedLabel lib label)
    {entity : EntityInText} (hentity : entity ∈ label.entities) :
    parseRichButtonLabelEntity lib label.text.length (entityPart lib entity) = some entity := by
  have htype : richButtonLabelEntityType (richButtonLabelEntityName entity.type) = entity.type := by
    rcases h.types entity hentity with h | h <;> rw [h] <;> decide
  have hvalid : entity.type ≠ .invalid := by
    rcases h.types entity hentity with h | h <;> rw [h] <;> decide
  obtain ⟨hoffset, hlength⟩ := h.ints entity hentity
  obtain ⟨hstart, hpos, hend⟩ := h.inRange entity hentity
  have hok : ¬(entity.type = .invalid ∨ entity.offset < 0 ∨ entity.length ≤ 0 ∨
      entity.offset + entity.length > label.text.length) := by
    rintro (hbad | hbad | hbad | hbad)
    · exact hvalid hbad
    all_goals omega
  rw [parseRichButtonLabelEntity, entityPart,
    splitOn_joined (Or.inr (Or.inr rfl)) (entityFields_plain lib entity) (List.cons_ne_nil _ _)]
  dsimp only
  rw [toInt, toNumber_number hoffset, toNumber_number hlength, htype]
  dsimp only
  rw [if_neg hok, decodeField_encode (h.data entity hentity)]

theorem parse_serializeRichButtonLabel {label : TextWithEntities} (h : WellFormedLabel lib label) :
    parseRichButtonLabel lib (serializeRichButtonLabel lib label) = label := by
  have hsplit : (joined (unit '|') (encodeInlineTextObjectField lib label.text ::
      label.entities.map (entityPart lib))).splitOn (unit '|') =
        encodeInlineTextObjectField lib label.text :: label.entities.map (entityPart lib) := by
    refine List.splitOn_intercalate _ ?_ (List.cons_ne_nil _ _)
    rw [List.forall_mem_cons]
    refine ⟨(plain_encodeField lib _).not_mem (Or.inr (Or.inl rfl)), fun part hpart hmem => ?_⟩
    obtain ⟨entity, -, rfl⟩ := List.mem_map.1 hpart
    exact (not_bar_entityPart lib entity _ hmem).2 rfl
  rw [parseRichButtonLabel, serializeRichButtonLabel_eq h.types, hsplit]
  dsimp only
  rw [decodeField_encode h.text, List.filterMap_map,
    (List.filterMap_congr fun entity hentity => ?_).trans List.filterMap_some]
  exact parseEntity_entityPart h hentity

theorem wellFormed_serializedLabel {label : TextWithEntities} (h : WellFormedLabel lib label) :
    lib.WellFormed (serializeRichButtonLabel lib label) := by
  rw [serializeRichButtonLabel_eq h.types]
  refine wellFormed_of_ascii lib fun u hu => ?_
  rcases mem_joined hu with rfl | ⟨part, hpart, hmem⟩
  · decide
  · rcases List.mem_cons.1 hpart with rfl | hpart
    · exact (plain_encodeField lib _ u hmem).1
    · obtain ⟨entity, -, rfl⟩ := List.mem_map.1 hpart
      exact (not_bar_entityPart lib entity u hmem).1

/-! ## Objects -/

/-- An object of well-formed texts, whose kind is that of its data. -/
def WellFormedObject (lib : Library) (object : InlineTextObjectEntity) : Prop :=
  object.kind = object.data.kind ∧
    match object.data with
    | .formula data => lib.WellFormed data.copySource ∧ lib.WellFormed data.trimmedTex
    | .ivImage data => lib.WellFormed data.replacementText
    | .button data => WellFormedLabel lib data.label

/-- **Any fields are split behind the name and the kind.** -/
theorem splitOn_object {kind : String} (hkind : unit ';' ∉ ascii kind) {fields : List QString}
    (hfields : ∀ field ∈ fields, Plain field) (hne : fields ≠ []) :
    (ascii "iv-markdown:inline-text-object" ++ ([unit ';'] ++ (ascii kind ++ ([unit ';'] ++
      joined (unit ';') fields)))).splitOn (unit ';') =
        ascii "iv-markdown:inline-text-object" :: ascii kind :: fields := by
  have hname : unit ';' ∉ ascii "iv-markdown:inline-text-object" := by decide
  rw [List.singleton_append, List.splitOn_append_cons_self_of_not_mem hname, List.singleton_append,
    List.splitOn_append_cons_self_of_not_mem hkind, splitOn_joined (Or.inl rfl) hfields hne]

theorem color_number (color : ButtonColor) : IsInt (ButtonColor.all.idxOf color : ℕ) ∧
    ButtonColor.all[(ButtonColor.all.idxOf color : ℤ).toNat]? = some color := by
  rw [IsInt]
  cases color <;> decide

theorem type_number (type : ButtonType) : IsInt (ButtonType.all.idxOf type : ℕ) ∧
    ButtonType.all[(ButtonType.all.idxOf type : ℤ).toNat]? = some type := by
  rw [IsInt]
  cases type <;> decide

theorem parse_formula {data : InlineTextObjectFormulaData}
    (hsource : lib.WellFormed data.copySource) (htex : lib.WellFormed data.trimmedTex) :
    parseInlineTextObjectEntity lib
        (serializeInlineTextObjectEntity lib ⟨.formula, .formula data⟩) =
      some ⟨.formula, .formula data⟩ := by
  have hwritten : serializeInlineTextObjectEntity lib ⟨.formula, .formula data⟩ =
      ascii "iv-markdown:inline-text-object" ++ ([unit ';'] ++ (ascii "formula" ++ ([unit ';'] ++
        joined (unit ';') [encodeInlineTextObjectField lib data.copySource,
          encodeInlineTextObjectField lib data.trimmedTex]))) := by
    rw [serializeInlineTextObjectEntity]
    simp only [joined_cons_cons, joined_singleton, List.append_assoc]
    rfl
  rw [parseInlineTextObjectEntity, hwritten, splitOn_object (by decide) ?_ (List.cons_ne_nil _ _)]
  · dsimp only
    rw [if_neg fun h => h rfl, if_pos rfl, decodeField_encode hsource, decodeField_encode htex]
  · simp only [List.forall_mem_cons, List.not_mem_nil, false_implies, implies_true, and_true]
    exact ⟨plain_encodeField lib _, plain_encodeField lib _⟩

theorem parse_ivImage {data : InlineTextObjectIvImageData}
    (htext : lib.WellFormed data.replacementText) :
    parseInlineTextObjectEntity lib
        (serializeInlineTextObjectEntity lib ⟨.ivImage, .ivImage data⟩) =
      some ⟨.ivImage, .ivImage data⟩ := by
  have hwritten : serializeInlineTextObjectEntity lib ⟨.ivImage, .ivImage data⟩ =
      ascii "iv-markdown:inline-text-object" ++ ([unit ';'] ++ (ascii "iv-image" ++ ([unit ';'] ++
        joined (unit ';') [number data.documentId.toNat, number data.width.toInt,
          number data.height.toInt, encodeInlineTextObjectField lib data.replacementText]))) := by
    rw [serializeInlineTextObjectEntity]
    simp only [joined_cons_cons, joined_singleton, List.append_assoc]
    rfl
  have hid : (0 : ℤ) ≤ data.documentId.toNat ∧ (data.documentId.toNat : ℤ) ≤ 2 ^ 64 - 1 := by
    have hlt := data.documentId.toNat_lt
    omega
  have hint : ∀ n : Int32, -2 ^ 31 ≤ n.toInt ∧ n.toInt ≤ 2 ^ 31 - 1 := fun n =>
    ⟨n.le_toInt, Int.le_sub_one_of_lt n.toInt_lt⟩
  rw [parseInlineTextObjectEntity, hwritten, splitOn_object (by decide) ?_ (List.cons_ne_nil _ _)]
  · dsimp only
    rw [if_neg fun h => h rfl, if_neg (by decide), if_pos rfl, toInt, toNumber_number hid,
      toNumber_number (hint _), toNumber_number (hint _)]
    dsimp only
    rw [decodeField_encode htext, Int.toNat_natCast, UInt64.ofNat_toNat, Int32.ofInt_toInt,
      Int32.ofInt_toInt]
  · simp only [List.forall_mem_cons, List.not_mem_nil, false_implies, implies_true, and_true]
    exact ⟨plain_number _, plain_number _, plain_number _, plain_encodeField lib _⟩

theorem parse_button {data : InlineTextObjectButtonData} (hlabel : WellFormedLabel lib data.label) :
    parseInlineTextObjectEntity lib (serializeInlineTextObjectEntity lib ⟨.button, .button data⟩) =
      some ⟨.button, .button data⟩ := by
  have hwritten : serializeInlineTextObjectEntity lib ⟨.button, .button data⟩ =
      ascii "iv-markdown:inline-text-object" ++ ([unit ';'] ++ (ascii "button" ++ ([unit ';'] ++
        joined (unit ';') [
          encodeInlineTextObjectField lib (serializeRichButtonLabel lib data.label),
          number (ButtonColor.all.idxOf data.color), number (ButtonType.all.idxOf data.type),
          number (if data.link then 1 else 0), encodeInlineTextObjectBytes lib data.data,
          number data.buttonId.toInt, number data.peerTypes.toNat]))) := by
    rw [serializeInlineTextObjectEntity]
    simp only [joined_cons_cons, joined_singleton, List.append_assoc]
    rfl
  obtain ⟨hcolor, hcolorOf⟩ := color_number data.color
  obtain ⟨htype, htypeOf⟩ := type_number data.type
  have hbutton : -2 ^ 63 ≤ data.buttonId.toInt ∧ data.buttonId.toInt ≤ 2 ^ 63 - 1 :=
    ⟨data.buttonId.le_toInt, Int.le_sub_one_of_lt data.buttonId.toInt_lt⟩
  have hpeer := data.peerTypes.toNat_lt
  have hpeers : (0 : ℤ) ≤ data.peerTypes.toNat ∧ (data.peerTypes.toNat : ℤ) ≤ 2 ^ 32 - 1 := by
    omega
  have hvalid : ¬((ButtonColor.all.idxOf data.color : ℤ) < 0 ∨
      (ButtonType.all.idxOf data.type : ℤ) < 0 ∨ (data.peerTypes.toNat : ℤ) > 255) := by
    omega
  have hlink : decide (number (if data.link then 1 else 0) = ascii "1") = data.link := by
    cases data.link <;> decide
  rw [parseInlineTextObjectEntity, hwritten, splitOn_object (by decide) ?_ (List.cons_ne_nil _ _)]
  · dsimp only
    rw [if_neg fun h => h rfl, if_neg (by decide), if_neg (by decide), if_pos rfl, toInt,
      toNumber_number hcolor, toNumber_number htype, toNumber_number hbutton,
      toNumber_number hpeers]
    dsimp only
    rw [if_neg hvalid, hcolorOf, htypeOf]
    dsimp only
    rw [decodeField_encode (wellFormed_serializedLabel hlabel),
      parse_serializeRichButtonLabel hlabel, decodeBytes_encode, Int64.ofInt_toInt,
      Int.toNat_natCast, UInt8.ofNat_toNat, hlink]
  · simp only [List.forall_mem_cons, List.not_mem_nil, false_implies, implies_true, and_true]
    exact ⟨plain_encodeField lib _, plain_number _, plain_number _, plain_number _,
      plain_encodeBytes lib _, plain_number _, plain_number _⟩

/-- **An object is read from what is written for it.** -/
theorem parse_serializeInlineTextObject {object : InlineTextObjectEntity}
    (h : WellFormedObject lib object) :
    parseInlineTextObjectEntity lib (serializeInlineTextObjectEntity lib object) = some object := by
  obtain ⟨kind, data⟩ := object
  obtain ⟨hkind, htexts⟩ := h
  dsimp only at hkind htexts
  subst hkind
  cases data with
  | formula data => exact parse_formula htexts.1 htexts.2
  | ivImage data => exact parse_ivImage htexts
  | button data => exact parse_button htexts

end Yunogram.Iv.Markdown
