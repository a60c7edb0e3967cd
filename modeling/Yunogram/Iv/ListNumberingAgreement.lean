import Yunogram.Iv.ListNumbering
import Yunogram.Iv.LocalLinkContainment
import Yunogram.Machinery.Numerals

/-!
# Iv/ListNumberingAgreement — the summary and the editor number a list alike

A marker is read in a style of numbering (`Denotes`): as a decimal number, as letters of base 26, or
as Roman numerals.

* `denotes_orderedMarkerBody` — what is printed for a value in a style denotes it.
* `summaryLeads_get` — the summary counts like the editor.
* `joinKeeps_of_seamless` — a list that joins another one seamlessly keeps its numbers.
* `markerAgrees_of_number` — an item without a marker of its own is numbered alike.
* `raw_marker_kept` — a marker of its own is printed as it is. -/

namespace Yunogram.Iv.ListNumbering

open Markdown (Unicode number unit asciiLower)
open SimpleText (BlockKind)
open Machinery.Numerals (digits ofDigits reading words Word Written reading_words ofDigits_digits)

/-! ## Reading a marker -/

/-- Letters from the first on are read as digits from one up to 26. -/
def ReadsAlpha (first : UInt16) (letters : QString) (value : ℤ) : Prop :=
  (∀ c ∈ letters, c.toNat - first.toNat < 26 ∧ first ≤ c) ∧
    ofDigits 26 (letters.map fun c => c.toNat - first.toNat) = value

/-- The number of a Roman letter. -/
def romanLetter (c : UInt16) : ℕ :=
  if c = unit 'M' then 1000
  else if c = unit 'D' then 500
  else if c = unit 'C' then 100
  else if c = unit 'L' then 50
  else if c = unit 'X' then 10
  else if c = unit 'V' then 5
  else if c = unit 'I' then 1
  else 0

/-- Roman letters, where a letter before a greater one is subtracted. -/
def ReadsRoman (letters : QString) (value : ℤ) : Prop :=
  (∀ c ∈ letters, c ∈ ascii "MDCLXVI") ∧ reading (letters.map romanLetter) = value

/-- A text denotes a value in a style.  In all styles numbers that are not positive are decimal. -/
def Denotes (type : PreparedOrderedListType) (value : ℤ) (body : QString) : Prop :=
  if value ≤ 0 then
    body = number value
  else
    match type with
    | .decimal => body = number value
    | .lowerAlpha => ReadsAlpha (unit 'a') body value
    | .upperAlpha => ReadsAlpha (unit 'A') body value
    | .lowerRoman => ∃ letters, ReadsRoman letters value ∧ body = letters.map asciiLower
    | .upperRoman => ReadsRoman body value

/-- A marker denotes a value in a style, when there is a dot after it. -/
def MarkerDenotes (type : PreparedOrderedListType) (value : ℤ) (marker : QString) : Prop :=
  ∃ body, Denotes type value body ∧ marker = body ++ ascii "."

theorem alphaLoop_eq (first : UInt16) (value : ℕ) (result : QString) :
    alphaLoop first value result
      = (digits 26 value).map (fun digit => first + UInt16.ofNat digit) ++ result := by
  induction value using Nat.strong_induction_on generalizing result with
  | h value ih =>
    rcases value with _ | value
    · rw [alphaLoop, digits, List.map_nil, List.nil_append]
    · rw [alphaLoop, ih _ (Nat.lt_succ_of_le (Nat.div_le_self _ _)), digits, List.map_append,
        List.map_singleton, List.append_assoc, List.singleton_append]

/-- The letters printed are read as the value. -/
theorem readsAlpha_alphaLoop {first : UInt16} (hfirst : first.toNat ≤ 100) (value : ℕ) :
    ReadsAlpha first (alphaLoop first value []) value := by
  have hletter : ∀ digit ∈ digits 26 value,
      (first + UInt16.ofNat digit).toNat = first.toNat + digit ∧ digit < 26 := by
    intro digit hdigit
    have hlt := Machinery.Numerals.lt_of_mem_digits (by decide) value digit hdigit
    refine ⟨?_, hlt⟩
    rw [UInt16.toNat_add, UInt16.toNat_ofNat']
    omega
  rw [alphaLoop_eq, List.append_nil]
  refine ⟨fun c hc => ?_, ?_⟩
  · obtain ⟨digit, hdigit, rfl⟩ := List.mem_map.1 hc
    obtain ⟨heq, hlt⟩ := hletter digit hdigit
    rw [UInt16.le_iff_toNat_le, heq]
    omega
  · have hdigits : ((digits 26 value).map fun digit => first + UInt16.ofNat digit).map
        (fun c => c.toNat - first.toNat) = digits 26 value := by
      rw [List.map_map, List.map_congr_left (g := id), List.map_id]
      intro digit hdigit
      rw [Function.comp_apply, (hletter digit hdigit).1, Nat.add_sub_cancel_left]
      rfl
    rw [hdigits, ofDigits_digits]

/-- The parts, as words of letters. -/
def romanWords : List Word :=
  romanParts.map fun part => ⟨part.1, (ascii part.2).map romanLetter⟩

theorem written_romanWords : Written romanWords := by
  repeat' first
    | exact Written.last (by decide) (by decide) (by decide)
    | refine Written.cons (by decide) (by decide) (by decide) ?_

theorem map_romanLoop (parts : List (ℕ × String)) (value : ℕ) :
    (romanLoop parts value).map romanLetter
      = words (parts.map fun part => ⟨part.1, (ascii part.2).map romanLetter⟩) value := by
  induction parts generalizing value with
  | nil => rfl
  | cons part rest ih =>
    rw [romanLoop, List.map_append, List.map_cons, words, ih, List.map_flatten,
      List.map_replicate]

theorem mem_romanLoop {parts : List (ℕ × String)} {value : ℕ} {c : UInt16}
    (h : c ∈ romanLoop parts value) : ∃ part ∈ parts, c ∈ ascii part.2 := by
  induction parts generalizing value with
  | nil => exact absurd h List.not_mem_nil
  | cons part rest ih =>
    rw [romanLoop, List.mem_append, List.mem_flatten] at h
    rcases h with ⟨letters, hletters, hc⟩ | h
    · rw [List.eq_of_mem_replicate hletters] at hc
      exact ⟨part, List.mem_cons_self, hc⟩
    · obtain ⟨other, hother, hc⟩ := ih h
      exact ⟨other, List.mem_cons_of_mem _ hother, hc⟩

/-- The Roman letters printed are read as the value. -/
theorem readsRoman_romanLoop (value : ℕ) : ReadsRoman (romanLoop romanParts value) value := by
  refine ⟨fun c hc => ?_, ?_⟩
  · obtain ⟨part, hpart, hmem⟩ := mem_romanLoop hc
    have hall : ∀ part ∈ romanParts,
        (ascii part.2).all (fun c => (ascii "MDCLXVI").contains c) = true := by decide
    exact List.contains_iff_mem.1 (List.all_eq_true.1 (hall part hpart) c hmem)
  · rw [map_romanLoop]
    exact reading_words written_romanWords value

/-! ## Styles -/

section

variable (unicode : MarkerUnicode)

/-- **What is printed for a value in a style denotes it.** -/
theorem denotes_orderedMarkerBody (value : ℤ) (type : Option QString) :
    Denotes (resolveOrderedMarkerType unicode type) value
      (orderedMarkerBody unicode value type) := by
  rw [Denotes.eq_def, orderedMarkerBody]
  rcases le_or_gt value 0 with hvalue | hvalue
  · rw [if_pos hvalue]
    rcases resolveOrderedMarkerType unicode type <;>
      simp [orderedAlphaText, orderedRomanText, hvalue]
  · obtain ⟨n, rfl⟩ := Int.eq_ofNat_of_zero_le hvalue.le
    rw [if_neg (not_le.2 hvalue)]
    rcases resolveOrderedMarkerType unicode type with _ | _ | _ | _ | _
    · rfl
    · dsimp only
      rw [orderedAlphaText, if_neg (not_le.2 hvalue), Int.toNat_natCast]
      exact readsAlpha_alphaLoop (by decide) n
    · dsimp only
      rw [orderedAlphaText, if_neg (not_le.2 hvalue), Int.toNat_natCast]
      exact readsAlpha_alphaLoop (by decide) n
    · dsimp only
      rw [orderedRomanText, if_neg (not_le.2 hvalue), Int.toNat_natCast]
      exact ⟨romanLoop romanParts n, readsRoman_romanLoop n, rfl⟩
    · dsimp only
      rw [orderedRomanText, if_neg (not_le.2 hvalue), Int.toNat_natCast]
      exact readsRoman_romanLoop n

/-- The two files resolve a style alike, unless its name is `A`. -/
theorem resolve_eq {type : Option QString} (h : type ≠ some (ascii "A")) :
    resolvePreparedOrderedListType unicode type = resolveOrderedMarkerType unicode type := by
  rcases type with _ | value
  · rfl
  · have hsame : decide (value = ascii "a") = unicode.equalIgnoringCase value (ascii "a") := by
      rw [Bool.eq_iff_iff, decide_eq_true_iff]
      refine ⟨fun hvalue => unicode.equal_ascii _ _ (by rw [hvalue]), fun hequal => ?_⟩
      rcases unicode.equal_a value hequal with hvalue | hvalue
      · exact hvalue
      · exact absurd (congrArg some hvalue) h
    rw [resolvePreparedOrderedListType, resolveOrderedMarkerType]
    dsimp only
    rw [hsame]

/-! ## Values -/

variable {unicode}

/-- **The summary counts like the editor.** -/
theorem summaryLeads_get {withIcons : Bool} {block : Block} (hkind : block.kind = .list)
    (hlist : block.listKind = .ordered) {index : ℕ} {item : ListItem}
    (hitem : block.listItems[index]? = some item) :
    ∃ fallback,
      (summaryLeads unicode withIcons block)[index]?
        = some (summaryLead unicode withIcons block item fallback) ∧
      effectiveOrderedItemValue block index = some (item.number.value.getD fallback) := by
  have hloop : ∀ (items : List ListItem) (next : ℤ) (index : ℕ),
      items[index]? = some item → ∃ fallback,
        (summaryLoop unicode withIcons block items next)[index]?
          = some (summaryLead unicode withIcons block item fallback) ∧
        effectiveLoop (orderedListSequenceStep block) items next index
          = some (item.number.value.getD fallback) := by
    intro items
    induction items with
    | nil => intro next index h; simp at h
    | cons first rest ih =>
      intro next index h
      rcases index with _ | index
      · obtain rfl : first = item := by simpa using h
        exact ⟨next, rfl, rfl⟩
      · obtain ⟨fallback, hlead, hvalue⟩ := ih
          (first.number.value.getD next + orderedListSequenceStep block) index (by simpa using h)
        refine ⟨fallback, ?_, ?_⟩
        · rw [summaryLoop, if_pos hlist, List.getElem?_cons_succ, hlead]
        · rw [effectiveLoop]
          exact hvalue
  have hlt : index < block.listItems.length := (List.getElem?_eq_some_iff.1 hitem).1
  obtain ⟨fallback, hlead, hvalue⟩ := hloop _ (orderedListSequenceStart block) _ hitem
  refine ⟨fallback, hlead, ?_⟩
  rw [effectiveOrderedItemValue, if_neg (by simp [hkind, hlist, hlt])]
  exact hvalue

/-- An item after joined ones counts on from the last of them. -/
theorem effectiveLoop_append {step : ℤ} {front : List ListItem} {start last : ℤ}
    (hfront : front ≠ []) (h : effectiveLoop step front start (front.length - 1) = some last)
    (back : List ListItem) (index : ℕ) :
    effectiveLoop step (front ++ back) start (front.length + index)
      = effectiveLoop step back (last + step) index := by
  induction front generalizing start with
  | nil => exact absurd rfl hfront
  | cons first rest ih =>
    rw [List.length_cons, Nat.add_right_comm, List.cons_append, effectiveLoop]
    rcases rest with _ | ⟨second, rest⟩
    · have hlast : first.number.value.getD start = last := by simpa [effectiveLoop] using h
      rw [hlast, List.length_nil, Nat.zero_add, List.nil_append]
    · refine ih (by simp) ?_
      simpa [effectiveLoop] using h

theorem effectiveLoop_front {step : ℤ} {front back : List ListItem} {start : ℤ} {index : ℕ}
    (h : index < front.length) :
    effectiveLoop step (front ++ back) start index = effectiveLoop step front start index := by
  induction front generalizing start index with
  | nil => exact absurd h (by simp)
  | cons first rest ih =>
    rcases index with _ | index
    · rfl
    · exact ih (by simpa using h)

/-- Where the first value is the same, all are. -/
theorem effectiveLoop_congr {step a b : ℤ} {items : List ListItem}
    (h : effectiveLoop step items a 0 = effectiveLoop step items b 0) (index : ℕ) :
    effectiveLoop step items a index = effectiveLoop step items b index := by
  rcases items with _ | ⟨first, rest⟩
  · rfl
  · have hfirst : first.number.value.getD a = first.number.value.getD b := by
      simpa [effectiveLoop] using h
    rcases index with _ | index
    · exact h
    · rw [effectiveLoop, effectiveLoop, hfirst]

/-- The joined list counts on from the first one, which is not reversed. -/
theorem effectiveOrderedItemValue_of_lt {block : Block} (hkind : block.kind = .list)
    (hlist : block.listKind = .ordered) {index : ℕ} (h : index < block.listItems.length) :
    effectiveOrderedItemValue block index
      = effectiveLoop (orderedListSequenceStep block) block.listItems
        (orderedListSequenceStart block) index := by
  rw [effectiveOrderedItemValue, if_neg (by simp [hkind, hlist, h]), Int.toNat_natCast]

/-- What is checked of two ordered lists before they are joined. -/
theorem of_listsJoinSeamlessly {first second : Block} {secondStartExplicit : Bool}
    (hlist : first.listKind = .ordered) (hown : ownNumbering second secondStartExplicit = true)
    (h : listsJoinSeamlessly unicode first second secondStartExplicit = true) :
    (first.kind = .list ∧ second.kind = .list ∧ second.listKind = .ordered) ∧
    (first.listItems ≠ [] ∧ second.listItems ≠ []) ∧
    (first.orderedList.reversed = false ∧ second.orderedList.reversed = false) ∧
    resolvePreparedOrderedListType unicode first.orderedList.type
      = resolvePreparedOrderedListType unicode second.orderedList.type ∧
    ∃ last, effectiveOrderedItemValue first (first.listItems.length - 1) = some last ∧
      effectiveOrderedItemValue second 0 = some (last + 1) := by
  rw [listsJoinSeamlessly] at h
  split at h
  · exact absurd h Bool.false_ne_true
  next hjoinable =>
  rw [if_neg (by simp [hlist])] at h
  split at h
  · exact absurd h Bool.false_ne_true
  next hreversed =>
  split at h
  · exact absurd h Bool.false_ne_true
  next htype =>
  rw [hown, if_neg (by simp)] at h
  simp only [listsJoinable, Bool.or_eq_true, Bool.not_eq_true', Bool.and_eq_false_iff,
    decide_eq_false_iff_not, List.isEmpty_iff, not_or, not_not] at hjoinable
  obtain ⟨⟨⟨⟨⟨hkind, hkind'⟩, hlists⟩, -⟩, hfirst⟩, hsecond⟩ := hjoinable
  refine ⟨⟨hkind, hkind', hlists ▸ hlist⟩, ⟨hfirst, hsecond⟩, by simpa using hreversed,
    not_not.1 htype, ?_⟩
  rcases hlast : effectiveOrderedItemValue first (first.listItems.length - 1) with _ | last
  · simp [hlast] at h
  · rcases hnext : effectiveOrderedItemValue second 0 with _ | next
    · simp [hlast, hnext] at h
    · have hcounts : last + 1 = next := by simpa [hlast, hnext] using h
      exact ⟨last, rfl, congrArg some hcounts.symm⟩

variable (unicode) in
/-- Every item of two lists keeps its value and its style when the lists are joined. -/
def JoinKeeps (first second : Block) : Prop :=
  (∀ index : ℕ, index < first.listItems.length →
    effectiveOrderedItemValue (joined first second) index
      = effectiveOrderedItemValue first index) ∧
  (∀ index : ℕ, index < second.listItems.length →
    effectiveOrderedItemValue (joined first second) (first.listItems.length + index : ℕ)
      = effectiveOrderedItemValue second index) ∧
  (∀ item, effectiveOrderedListType unicode (joined first second) item
    = effectiveOrderedListType unicode first item) ∧
  ∀ item, effectiveOrderedListType unicode (joined first second) item
    = effectiveOrderedListType unicode second item

/-- **Joining keeps the numbers**, when a list joins another one seamlessly that has a numbering of
its own. -/
theorem joinKeeps_of_seamless {first second : Block} {secondStartExplicit : Bool}
    (hlist : first.listKind = .ordered) (hown : ownNumbering second secondStartExplicit = true)
    (h : listsJoinSeamlessly unicode first second secondStartExplicit = true) :
    JoinKeeps unicode first second := by
  obtain ⟨⟨hkind, hkind', hlist'⟩, ⟨hfirst, hsecond⟩, ⟨hforward, hforward'⟩, htype, last, hlast,
    hnext⟩ := of_listsJoinSeamlessly hlist hown h
  have hlength : 0 < first.listItems.length := List.length_pos_of_ne_nil hfirst
  have hstep : orderedListSequenceStep first = 1 := by simp [orderedListSequenceStep, hforward]
  have hstep' : orderedListSequenceStep second = 1 := by simp [orderedListSequenceStep, hforward']
  have hjoined : ∀ index : ℕ, index < first.listItems.length + second.listItems.length →
      effectiveOrderedItemValue (joined first second) index
        = effectiveLoop 1 (first.listItems ++ second.listItems)
          (orderedListSequenceStart first) index := by
    intro index hindex
    rw [@effectiveOrderedItemValue_of_lt (joined first second) hkind hlist _
      (by simpa [joined] using hindex)]
    simp [joined, orderedListSequenceStep, orderedListSequenceStart, hforward]
  have hcast : ((first.listItems.length : ℤ) - 1) = ((first.listItems.length - 1 : ℕ) : ℤ) := by
    omega
  rw [hcast, effectiveOrderedItemValue_of_lt hkind hlist (by omega), hstep] at hlast
  rw [← Nat.cast_zero, effectiveOrderedItemValue_of_lt hkind' hlist'
    (List.length_pos_of_ne_nil hsecond), hstep'] at hnext
  refine ⟨fun index hindex => ?_, fun index hindex => ?_, fun item => rfl, fun item => ?_⟩
  · rw [hjoined _ (by omega), effectiveOrderedItemValue_of_lt hkind hlist hindex, hstep]
    exact effectiveLoop_front hindex
  · rw [hjoined _ (by omega), effectiveOrderedItemValue_of_lt hkind' hlist' hindex, hstep',
      effectiveLoop_append hfirst hlast]
    refine effectiveLoop_congr ?_ index
    rw [hnext]
    rcases hitems : second.listItems with _ | ⟨item, rest⟩
    · exact absurd hitems hsecond
    · rw [hitems] at hnext
      rcases hvalue : item.number.value with _ | value
      · simp [effectiveLoop, hvalue]
      · simpa [effectiveLoop, hvalue] using hnext
  · rw [effectiveOrderedListType, effectiveOrderedListType, joined, htype]

/-! ## Agreement -/

variable (unicode)

/-- What the summary prints for an item denotes the value and the style that the editor computes. -/
def MarkerAgrees (block : Block) (index : ℕ) (item : ListItem) : Prop :=
  ∀ withIcons, ∃ value marker, effectiveOrderedItemValue block index = some value ∧
    (summaryLeads unicode withIcons block)[index]? = some (.text (marker ++ ascii " ")) ∧
    MarkerDenotes (effectiveOrderedListType unicode block item) value marker

/-- The name of the style that is in force for an item. -/
def typeName (block : Block) (item : ListItem) : Option QString :=
  if item.number.type.isSome then item.number.type else block.orderedList.type

variable {unicode}

theorem summaryLead_of_marker {withIcons : Bool} {block : Block} {item : ListItem}
    {fallback : ℤ} (hlist : block.listKind = .ordered) (htask : item.taskState = .none)
    (hmarker : orderedMarkerText unicode block.orderedList item.number fallback ≠ []) :
    summaryLead unicode withIcons block item fallback
      = .text (orderedMarkerText unicode block.orderedList item.number fallback ++ ascii " ") := by
  simp [summaryLead, htask, hlist, hmarker]

/-- **An item with no marker of its own is numbered alike.**  The name `A` is left out. -/
theorem markerAgrees_of_number {block : Block} (hkind : block.kind = .list)
    (hlist : block.listKind = .ordered) {index : ℕ} {item : ListItem}
    (hitem : block.listItems[index]? = some item) (htask : item.taskState = .none)
    (hraw : item.number.hasRawText = false) (htype : typeName block item ≠ some (ascii "A")) :
    MarkerAgrees unicode block index item := by
  intro withIcons
  obtain ⟨fallback, hlead, hvalue⟩ := @summaryLeads_get unicode withIcons _ hkind hlist _ _ hitem
  have hmarker : orderedMarkerText unicode block.orderedList item.number fallback
      = orderedMarkerBody unicode (item.number.value.getD fallback) (typeName block item)
        ++ ascii "." := by
    rw [orderedMarkerText, hraw, typeName]
    rfl
  have hstyle : effectiveOrderedListType unicode block item
      = resolveOrderedMarkerType unicode (typeName block item) := by
    rw [← resolve_eq unicode htype, effectiveOrderedListType, typeName]
    split <;> rfl
  refine ⟨_, _, hvalue, ?_, _, hstyle ▸ denotes_orderedMarkerBody unicode _ _, hmarker⟩
  rw [hlead, summaryLead_of_marker hlist htask (by simp [hmarker, ascii])]

/-- **A marker of its own is printed as it is**, with a dot after it if need be. -/
theorem raw_marker_kept {withIcons : Bool} {block : Block} (hkind : block.kind = .list)
    (hlist : block.listKind = .ordered) {index : ℕ} {item : ListItem}
    (hitem : block.listItems[index]? = some item) (htask : item.taskState = .none)
    (hraw : item.number.hasRawText = true) :
    (summaryLeads unicode withIcons block)[index]?
      = some (.text (orderedRawMarkerText item.number.rawText ++ ascii " ")) := by
  obtain ⟨fallback, hlead, -⟩ := @summaryLeads_get unicode withIcons _ hkind hlist _ _ hitem
  have hmarker : orderedMarkerText unicode block.orderedList item.number fallback
      = orderedRawMarkerText item.number.rawText := by rw [orderedMarkerText, if_pos hraw]
  have hne : orderedRawMarkerText item.number.rawText ≠ [] := by
    have hnum : item.number.rawText ≠ [] := by
      rcases hvalue : item.number.num with _ | num
      · simp [OrderedListItemData.hasRawText, hvalue] at hraw
      · simpa [OrderedListItemData.hasRawText, OrderedListItemData.rawText, hvalue] using hraw
    rw [orderedRawMarkerText]
    split
    · exact hnum
    · simp [hnum]
  rw [hlead, summaryLead_of_marker hlist htask (by rwa [hmarker]), hmarker]

end

section

variable (unicode : MarkerUnicode)

/-- **The summary and the editor number a list alike**, but for items with a marker of their own,
which is printed, and for the style named `A`; and joining two lists seamlessly keeps the numbers.
-/
theorem numbering_agrees :
    (∀ block : Block, block.kind = .list → block.listKind = .ordered →
      ∀ (index : ℕ) (item : ListItem), block.listItems[index]? = some item →
        item.taskState = .none →
        (item.number.hasRawText = false → typeName block item ≠ some (ascii "A") →
          MarkerAgrees unicode block index item) ∧
        (item.number.hasRawText = true → ∀ withIcons,
          (summaryLeads unicode withIcons block)[index]?
            = some (.text (orderedRawMarkerText item.number.rawText ++ ascii " ")))) ∧
    ∀ (first second : Block) (secondStartExplicit : Bool), first.listKind = .ordered →
      ownNumbering second secondStartExplicit = true →
      listsJoinSeamlessly unicode first second secondStartExplicit = true →
      JoinKeeps unicode first second :=
  ⟨fun _ hkind hlist _ _ hitem htask =>
    ⟨markerAgrees_of_number hkind hlist hitem htask,
      fun hraw _ => raw_marker_kept hkind hlist hitem htask hraw⟩,
    fun _ _ _ hlist hown h => joinKeeps_of_seamless hlist hown h⟩

end

/-- Unicode of ASCII characters only. -/
def asciiMarkers : MarkerUnicode :=
  { Markdown.asciiUnicode with
    equal_a := by
      intro text h
      have hmap : text.map asciiLower = (ascii "a").map asciiLower := by
        simpa [Markdown.asciiUnicode] using h
      rcases text with _ | ⟨c, _ | ⟨d, rest⟩⟩
      · simp [ascii] at hmap
      · have hlower : asciiLower c = asciiLower (unit 'a') := (List.cons.inj hmap).1
        have hc : c = unit 'a' ∨ c = unit 'A' := by
          rw [asciiLower, show asciiLower (unit 'a') = unit 'a' by decide] at hlower
          split at hlower
          · refine Or.inr (UInt16.toNat_inj.1 ?_)
            have hsum := congrArg UInt16.toNat hlower
            rw [UInt16.toNat_add] at hsum
            have hlt := c.toNat_lt
            change c.toNat = 65
            change (c.toNat + 32) % 65536 = 97 at hsum
            omega
          · exact Or.inl hlower
        rcases hc with rfl | rfl
        · exact Or.inl rfl
        · exact Or.inr rfl
      · simp [ascii] at hmap }

/-- The third item of a list with capital Roman numbers from four on, and a list that joins it. -/
theorem numbering_agrees_roman :
    let list (start : ℤ) (items : ℕ) : Block :=
      ⟨.list, .ordered, { start, type := some (ascii "I") }, List.replicate items {}⟩
    MarkerAgrees asciiMarkers (list 4 3) 2 {} ∧ JoinKeeps asciiMarkers (list 4 3) (list 7 2) :=
  ⟨((numbering_agrees asciiMarkers).1 _ rfl rfl 2 {} rfl rfl).1 rfl (by decide),
    (numbering_agrees asciiMarkers).2 _ _ false rfl rfl (by decide +kernel)⟩

/-- The first item of a list, with the marker `7` of its own and no value, is the first of it. -/
theorem raw_marker_not_value :
    let item : ListItem := { number := { num := some (ascii "7") } }
    let block : Block := ⟨.list, .ordered, {}, [item]⟩
    block.listItems[0]? = some item ∧ item.taskState = .none ∧
      ¬MarkerAgrees asciiMarkers block 0 item := by
  intro item block
  refine ⟨rfl, rfl, fun h => ?_⟩
  obtain ⟨value, marker, hvalue, hlead, body, hbody, rfl⟩ := h false
  have hfirst : effectiveOrderedItemValue block (0 : ℕ) = some 1 := by decide
  obtain rfl : (1 : ℤ) = value := Option.some.inj (hfirst.symm.trans hvalue)
  have hprinted : (summaryLeads asciiMarkers false block)[0]? = some (.text (ascii "7. ")) := by
    decide +kernel
  have htext : ascii "7. " = body ++ ascii "." ++ ascii " " :=
    Lead.text.inj (Option.some.inj (hprinted.symm.trans hlead))
  have hone : body = number 1 := hbody
  rw [hone] at htext
  exact absurd htext (by decide)

end Yunogram.Iv.ListNumbering
