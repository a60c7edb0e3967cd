import Mathlib
import Yunogram.Machinery.LittleEndian
import Yunogram.Machinery.PaddedDigits

/-!
# Webauthn/QrDigits — bytes as decimal digits, for a QR code

`cable_core.cpp` writes the contents of a QR code in digits: seven bytes, the low one first, as
seventeen digits, and what is left over in as many as its greatest number has (`bytesToDigits`).
Reading checks that each group is that of some bytes (`digitsToBytes`).

* `digitsToBytes_eq_some_iff` — the digits of bytes are read back, and no other string is read. -/

namespace Yunogram.Webauthn.QrDigits

open Machinery (littleEndian ofLittleEndian padded value eq_padded_iff)

/-- `Bytes`, and the bytes of a `std::string`. -/
abbrev Bytes := List UInt8

/-- `'0'`. -/
def zero : UInt8 := 48

/-- `'9'`. -/
def nine : UInt8 := 57

/-! ## Writing -/

/-- `kWidths`. -/
def kWidths : List ℕ := [0, 3, 5, 8, 10, 13, 15, 17]

/-- The loop over the bytes of a group. -/
def groupValue : ℕ → ℕ → Bytes → ℕ
  | _, value, [] => value
  | i, value, b :: rest => groupValue (i + 1) (value ||| b.toNat <<< (8 * i)) rest

/-- A number in decimal digits. -/
def decimal (value : ℕ) : Bytes :=
  if value = 0 then
    [zero]
  else
    (Nat.digits 10 value).reverse.map fun digit => zero + UInt8.ofNat digit

/-- `snprintf` with `%0*llu`: at least as many digits as the width, with zeros before them. -/
def printed (width value : ℕ) : Bytes :=
  List.replicate (width - (decimal value).length) zero ++ decimal value

/-- `BytesToDigits`. -/
def bytesToDigits (bytes : Bytes) : Bytes :=
  if bytes = [] then
    []
  else
    let take := min bytes.length 7
    printed (kWidths.getD take 0) (groupValue 0 0 (bytes.take take))
      ++ bytesToDigits (bytes.drop take)
termination_by bytes.length
decreasing_by
  have hne : 0 < bytes.length := List.length_pos_of_ne_nil ‹_›
  rw [List.length_drop]
  omega

/-! ## Reading -/

/-- `parse`, from a value on; no value when it returns `false`. -/
def parse (value : ℕ) : Bytes → Option ℕ
  | [] => some value
  | ch :: rest =>
    if ch < zero ∨ ch > nine then
      none
    else
      let digit := ch.toNat - zero.toNat
      if value > (2 ^ 64 - 1 - digit) / 10 then
        none
      else
        parse (value * 10 + digit) rest

/-- The bytes of a value that are pushed. -/
def pushed (count value : ℕ) : Bytes :=
  (List.range count).map fun i => UInt8.ofNat (value >>> (8 * i))

/-- How many bytes so many digits at the end stand for. -/
def bytesCount (size : ℕ) : Option ℕ :=
  match size with
  | 3 => some 1
  | 5 => some 2
  | 8 => some 3
  | 10 => some 4
  | 13 => some 5
  | 15 => some 6
  | _ => none

/-- A group of digits that stands for so many bytes. -/
def readGroup (count : ℕ) (chunk : Bytes) : Option Bytes :=
  (parse 0 chunk).bind fun value =>
    if value >>> (8 * count) ≠ 0 then none else some (pushed count value)

/-- `DigitsToBytes`. -/
def digitsToBytes (digits : Bytes) : Option Bytes :=
  if 17 ≤ digits.length then
    (readGroup 7 (digits.take 17)).bind fun group =>
      (digitsToBytes (digits.drop 17)).map (group ++ ·)
  else if digits ≠ [] then
    (bytesCount digits.length).bind fun count => readGroup count digits
  else
    some []
termination_by digits.length
decreasing_by
  rw [List.length_drop]
  omega

/-! ## Groups as numbers -/

/-- The character of a digit. -/
def digitChar (digit : ℕ) : UInt8 := zero + UInt8.ofNat digit

/-- The digit of a character. -/
def charDigit (ch : UInt8) : ℕ := ch.toNat - zero.toNat

/-- A character that is a digit. -/
def IsDigit (ch : UInt8) : Prop := zero ≤ ch ∧ ch ≤ nine

theorem isDigit_iff {ch : UInt8} : IsDigit ch ↔ ¬(ch < zero ∨ ch > nine) := by
  rw [IsDigit, not_or, UInt8.not_lt, gt_iff_lt, UInt8.not_lt]

theorem groupValue_eq {i value : ℕ} (h : value < 2 ^ (8 * i)) (bytes : Bytes) :
    groupValue i value bytes = value + 2 ^ (8 * i) * ofLittleEndian bytes := by
  induction bytes generalizing i value with
  | nil => rw [groupValue, ofLittleEndian, mul_zero, add_zero]
  | cons b rest ih =>
    have hb := b.toNat_lt
    have hpow : 2 ^ (8 * (i + 1)) = 2 ^ (8 * i) * 256 := by
      rw [Nat.mul_succ, pow_add]
      rfl
    have hfits : value + 2 ^ (8 * i) * b.toNat < 2 ^ (8 * (i + 1)) := by
      rw [hpow]
      nlinarith
    rw [groupValue, Machinery.or_shiftLeft h, ih hfits, hpow, ofLittleEndian]
    ring

theorem pushed_eq (count value : ℕ) : pushed count value = littleEndian count value := by
  induction count generalizing value with
  | zero => rfl
  | succ count ih =>
    have hshift : ∀ i, value >>> (8 * (i + 1)) = (value / 256) >>> (8 * i) := by
      intro i
      rw [Nat.shiftRight_eq_div_pow, Nat.shiftRight_eq_div_pow, Nat.div_div_eq_div_mul,
        Nat.mul_succ, pow_add, mul_comm]
      rfl
    rw [pushed, List.range_succ_eq_map, List.map_cons, List.map_map, littleEndian, ← ih, pushed]
    simp only [Function.comp_def, hshift]
    rfl

theorem charDigit_digitChar {digit : ℕ} (h : digit < 10) :
    charDigit (digitChar digit) = digit ∧ IsDigit (digitChar digit) := by
  interval_cases digit <;> exact ⟨by decide, by decide, by decide⟩

theorem digitChar_charDigit {ch : UInt8} (h : IsDigit ch) :
    digitChar (charDigit ch) = ch ∧ charDigit ch < 10 := by
  obtain ⟨hlow, hhigh⟩ := h
  rw [zero, UInt8.le_iff_toNat_le] at hlow
  rw [nine, UInt8.le_iff_toNat_le] at hhigh
  have hlow' : 48 ≤ ch.toNat := hlow
  have hhigh' : ch.toNat ≤ 57 := hhigh
  have hdigit : charDigit ch = ch.toNat - 48 := rfl
  refine ⟨UInt8.toNat_inj.1 ?_, by omega⟩
  rw [digitChar, UInt8.toNat_add, UInt8.toNat_ofNat', hdigit, zero]
  change (48 + (ch.toNat - 48) % 256) % 256 = ch.toNat
  omega

/-- A number printed in a width is the number padded to it. -/
theorem printed_eq {width : ℕ} (hwidth : 1 ≤ width) (n : ℕ) :
    printed width n = (padded 10 width n).map digitChar := by
  rw [printed, decimal, padded, Nat.digitsAppend, List.reverse_append, List.reverse_replicate,
    List.map_append, List.map_replicate]
  rcases eq_or_ne n 0 with rfl | hn
  · rw [if_pos rfl, Nat.digits_zero, List.length_singleton, List.length_nil, Nat.sub_zero,
      List.reverse_nil, List.map_nil, List.append_nil, ← List.replicate_succ',
      Nat.sub_add_cancel hwidth]
    rfl
  · rw [if_neg hn, List.length_map, List.length_reverse]
    rfl

/-- As many digits as a width are those printed for their number. -/
theorem printed_iff {width n : ℕ} (hwidth : 1 ≤ width) {chunk : Bytes} :
    chunk.length = width ∧ (∀ ch ∈ chunk, IsDigit ch) ∧ value 10 (chunk.map charDigit) = n ↔
      n < 10 ^ width ∧ chunk = printed width n := by
  rw [printed_eq hwidth]
  refine ⟨fun ⟨hlength, hdigits, hvalue⟩ => ?_, fun ⟨hfits, hchunk⟩ => ?_⟩
  · have hback : (chunk.map charDigit).map digitChar = chunk := by
      rw [List.map_map]
      exact (List.map_congr_left fun ch hch => (digitChar_charDigit (hdigits ch hch)).1).trans
        (List.map_id _)
    obtain ⟨hfits, hpadded⟩ := (@eq_padded_iff 10 width n (by decide) (chunk.map charDigit)).1
      ⟨by rwa [List.length_map],
        List.forall_mem_map.2 fun ch hch => (digitChar_charDigit (hdigits ch hch)).2, hvalue⟩
    exact ⟨hfits, by rw [← hpadded, hback]⟩
  · obtain ⟨hlength, hlt, hvalue⟩ := (eq_padded_iff (by decide)).2
      ⟨hfits, rfl⟩
    have hback : ((padded 10 width n).map digitChar).map charDigit = padded 10 width n := by
      rw [List.map_map]
      exact (List.map_congr_left fun digit h => (charDigit_digitChar (hlt digit h)).1).trans
        (List.map_id _)
    rw [hchunk, hback]
    exact ⟨by rwa [List.length_map],
      List.forall_mem_map.2 fun digit h => (charDigit_digitChar (hlt digit h)).2, hvalue⟩

/-- Reading goes on to the end of so few digits; the check against overflow never fails. -/
theorem parse_eq_some_iff {k n result : ℕ} {chunk : Bytes} (hn : n < 10 ^ k)
    (hfits : k + chunk.length ≤ 19) :
    parse n chunk = some result ↔ (∀ ch ∈ chunk, IsDigit ch) ∧
      (chunk.map charDigit).foldl (fun n digit => n * 10 + digit) n = result := by
  induction chunk generalizing k n with
  | nil => simp [parse]
  | cons ch rest ih =>
    rw [List.length_cons] at hfits
    rw [parse, List.map_cons, List.foldl_cons, List.forall_mem_cons]
    by_cases hch : IsDigit ch
    · have hdigit := (digitChar_charDigit hch).2
      have hpow : 10 ^ k ≤ 10 ^ 18 := Nat.pow_le_pow_right (by decide) (by omega)
      have hnext : n * 10 + charDigit ch < 10 ^ (k + 1) := by
        rw [pow_succ]
        omega
      have hroom : ¬n > (2 ^ 64 - 1 - charDigit ch) / 10 := by
        have hmax : 10 ^ 18 ≤ (2 ^ 64 - 1 - 9) / 10 := by decide
        have hmono : (2 ^ 64 - 1 - 9) / 10 ≤ (2 ^ 64 - 1 - charDigit ch) / 10 := by
          refine Nat.div_le_div_right ?_
          omega
        omega
      rw [if_neg (isDigit_iff.1 hch)]
      change (if n > (2 ^ 64 - 1 - charDigit ch) / 10 then none
        else parse (n * 10 + charDigit ch) rest) = some result ↔ _
      rw [if_neg hroom, ih hnext (by omega), and_iff_right hch]
    · rw [if_pos (not_not.1 (mt isDigit_iff.2 hch))]
      simp [hch]

/-! ## Groups of digits -/

/-- So many bytes are written in so many digits. -/
def Group (count width : ℕ) : Prop := 1 ≤ count ∧ count ≤ 7 ∧ width = kWidths.getD count 0

theorem Group.bounds {count width : ℕ} (h : Group count width) :
    1 ≤ width ∧ width ≤ 17 ∧ 256 ^ count ≤ 10 ^ width := by
  obtain ⟨hlow, hhigh, rfl⟩ := h
  interval_cases count <;> decide

/-- **A group is read when it is printed for some bytes**, and these are what is read. -/
theorem readGroup_eq_some_iff {count width : ℕ} (h : Group count width) {chunk bytes : Bytes}
    (hchunk : chunk.length = width) :
    readGroup count chunk = some bytes ↔
      bytes.length = count ∧ chunk = printed width (ofLittleEndian bytes) := by
  obtain ⟨hwidth, hlong, hroom⟩ := h.bounds
  have hparse : ∀ n, parse 0 chunk = some n ↔ n < 10 ^ width ∧ chunk = printed width n := by
    intro n
    rw [@parse_eq_some_iff 0 0 n chunk (by decide) (by omega), ← printed_iff hwidth,
      and_iff_right hchunk]
    rfl
  have hshift : ∀ n, n >>> (8 * count) = 0 ↔ n < 256 ^ count := by
    intro n
    rw [Nat.shiftRight_eq_div_pow, Nat.div_eq_zero_iff_lt (by positivity), pow_mul]
    rfl
  rw [readGroup, Option.bind_eq_some_iff]
  refine ⟨?_, ?_⟩
  · rintro ⟨n, hn, hbytes⟩
    rw [Option.ite_none_left_eq_some, ne_eq, not_not, hshift, pushed_eq] at hbytes
    obtain ⟨hfits, hbytes⟩ := hbytes
    obtain ⟨hlength, hvalue⟩ := Machinery.eq_littleEndian_iff.2
      ⟨hfits, (Option.some.inj hbytes).symm⟩
    exact ⟨hlength, by rw [hvalue]; exact ((hparse n).1 hn).2⟩
  · rintro ⟨hlength, hprinted⟩
    obtain ⟨hfits, hbytes⟩ := Machinery.eq_littleEndian_iff.1 ⟨hlength, rfl⟩
    refine ⟨ofLittleEndian bytes, (hparse _).2 ⟨by omega, hprinted⟩, ?_⟩
    rw [if_neg (by simpa [hshift] using hfits), pushed_eq, ← hbytes]

theorem length_printed {count width : ℕ} (h : Group count width) {bytes : Bytes}
    (hlength : bytes.length = count) :
    (printed width (ofLittleEndian bytes)).length = width ∧
      ∀ ch ∈ printed width (ofLittleEndian bytes), IsDigit ch := by
  obtain ⟨hwidth, -, hroom⟩ := h.bounds
  have hfits := Machinery.ofLittleEndian_lt bytes
  rw [hlength] at hfits
  obtain ⟨hlong, hdigits, -⟩ := (printed_iff hwidth).2 ⟨lt_of_lt_of_le hfits hroom, rfl⟩
  exact ⟨hlong, hdigits⟩

/-! ## Strings of digits -/

/-- The digits of bytes: those of the first group, and of the bytes after it. -/
theorem bytesToDigits_eq {bytes : Bytes} (h : bytes ≠ []) :
    bytesToDigits bytes
      = printed (kWidths.getD (min bytes.length 7) 0) (ofLittleEndian (bytes.take 7))
        ++ bytesToDigits (bytes.drop 7) := by
  have htake : bytes.take (min bytes.length 7) = bytes.take 7 := by
    rw [List.take_eq_take_iff]
    omega
  have hdrop : bytes.drop (min bytes.length 7) = bytes.drop 7 := by
    rcases le_total bytes.length 7 with hle | hle
    · rw [min_eq_left hle, List.drop_eq_nil_of_le le_rfl, List.drop_eq_nil_of_le hle]
    · rw [min_eq_right hle]
  rw [bytesToDigits, if_neg h]
  dsimp only
  rw [groupValue_eq (by decide), htake, hdrop]
  simp

/-- Seven bytes or more. -/
theorem bytesToDigits_append {group : Bytes} (h : group.length = 7) (rest : Bytes) :
    bytesToDigits (group ++ rest) = printed 17 (ofLittleEndian group) ++ bytesToDigits rest := by
  have hne : group ++ rest ≠ [] := List.append_ne_nil_of_left_ne_nil
    (List.ne_nil_of_length_pos (by omega)) _
  rw [bytesToDigits_eq hne, List.take_left' h, List.drop_left' h,
    min_eq_right (by rw [List.length_append]; omega)]
  rfl

/-- Bytes of one group that is not full. -/
theorem bytesToDigits_short {bytes : Bytes} (hne : bytes ≠ []) (h : bytes.length < 7) :
    bytesToDigits bytes = printed (kWidths.getD bytes.length 0) (ofLittleEndian bytes) := by
  rw [bytesToDigits_eq hne, min_eq_left h.le, List.take_of_length_le h.le,
    List.drop_eq_nil_of_le h.le, bytesToDigits, if_pos rfl, List.append_nil]

theorem group_full : Group 7 17 := ⟨by decide, by decide, rfl⟩

theorem group_of_short {bytes : Bytes} (hne : bytes ≠ []) (h : bytes.length < 7) :
    Group bytes.length (kWidths.getD bytes.length 0) :=
  ⟨List.length_pos_of_ne_nil hne, h.le, rfl⟩

theorem seventeen_le_length {bytes : Bytes} (h : 7 ≤ bytes.length) :
    17 ≤ (bytesToDigits bytes).length := by
  have hgroup : (bytes.take 7).length = 7 := by rw [List.length_take, min_eq_left h]
  rw [← List.take_append_drop 7 bytes, bytesToDigits_append hgroup, List.length_append,
    (length_printed group_full hgroup).1]
  omega

theorem length_short {bytes : Bytes} (hne : bytes ≠ []) (h : bytes.length < 7) :
    (bytesToDigits bytes).length = kWidths.getD bytes.length 0 ∧
      bytesCount (kWidths.getD bytes.length 0) = some bytes.length ∧
      kWidths.getD bytes.length 0 < 17 := by
  rw [bytesToDigits_short hne h, (length_printed (group_of_short hne h) rfl).1]
  have hpos : 0 < bytes.length := List.length_pos_of_ne_nil hne
  refine ⟨rfl, ?_⟩
  generalize bytes.length = n at *
  interval_cases n <;> decide

theorem bytesToDigits_eq_nil_iff {bytes : Bytes} : bytesToDigits bytes = [] ↔ bytes = [] := by
  refine ⟨fun h => ?_, fun h => by rw [h, bytesToDigits, if_pos rfl]⟩
  by_contra hne
  have hlength := congrArg List.length h
  rw [List.length_nil] at hlength
  rcases lt_or_ge bytes.length 7 with hshort | hlong
  · have hpos := (group_of_short hne hshort).bounds.1
    rw [(length_short hne hshort).1] at hlength
    omega
  · have hfull := seventeen_le_length hlong
    omega

/-- There are seventeen digits or more exactly when there are seven bytes or more. -/
theorem seventeen_le_length_iff {bytes : Bytes} :
    17 ≤ (bytesToDigits bytes).length ↔ 7 ≤ bytes.length := by
  refine ⟨fun h => ?_, seventeen_le_length⟩
  by_contra hshort
  rcases eq_or_ne bytes [] with rfl | hne
  · rw [bytesToDigits, if_pos rfl, List.length_nil] at h
    omega
  · obtain ⟨hlength, -, hlt⟩ := length_short hne (not_le.1 hshort)
    omega

/-- Only digits are written. -/
theorem isDigit_of_mem_bytesToDigits (bytes : Bytes) : ∀ ch ∈ bytesToDigits bytes, IsDigit ch := by
  induction hn : bytes.length using Nat.strong_induction_on generalizing bytes with
  | h n ih =>
    rcases eq_or_ne bytes [] with rfl | hne
    · rw [bytesToDigits, if_pos rfl]
      exact fun ch hch => absurd hch List.not_mem_nil
    rcases lt_or_ge bytes.length 7 with hshort | hlong
    · rw [bytesToDigits_short hne hshort]
      exact (length_printed (group_of_short hne hshort) rfl).2
    · have hgroup : (bytes.take 7).length = 7 := by rw [List.length_take, min_eq_left hlong]
      rw [← List.take_append_drop 7 bytes, bytesToDigits_append hgroup]
      intro ch hch
      rcases List.mem_append.1 hch with hch | hch
      · exact (length_printed group_full hgroup).2 ch hch
      · exact ih _ (by rw [List.length_drop]; omega) (bytes.drop 7) rfl ch hch

theorem group_of_bytesCount {size count : ℕ} (h : bytesCount size = some count) :
    Group count size ∧ count < 7 := by
  rw [bytesCount.eq_def] at h
  split at h <;> first
    | (obtain rfl := Option.some.inj h; exact ⟨⟨by decide, by decide, rfl⟩, by decide⟩)
    | exact absurd h (by simp)

/-- **The digits of bytes are read back, and no other string is read.** -/
theorem digitsToBytes_eq_some_iff {digits bytes : Bytes} :
    digitsToBytes digits = some bytes ↔ bytesToDigits bytes = digits := by
  induction hn : digits.length using Nat.strong_induction_on generalizing digits bytes with
  | h n ih =>
    rw [digitsToBytes]
    by_cases hlong : 17 ≤ digits.length
    · have htake : (digits.take 17).length = 17 := by rw [List.length_take, min_eq_left hlong]
      have hrest : ∀ rest, digitsToBytes (digits.drop 17) = some rest ↔
          bytesToDigits rest = digits.drop 17 :=
        fun rest => ih _ (by rw [List.length_drop]; omega) rfl
      simp only [if_pos hlong, Option.bind_eq_some_iff, Option.map_eq_some_iff,
        readGroup_eq_some_iff group_full htake, hrest]
      refine ⟨?_, fun h => ?_⟩
      · rintro ⟨group, ⟨hgroup, hprinted⟩, rest, hdrop, rfl⟩
        rw [bytesToDigits_append hgroup, ← hprinted, hdrop, List.take_append_drop]
      · have hbytes : 7 ≤ bytes.length := seventeen_le_length_iff.1 (h ▸ hlong)
        have hgroup : (bytes.take 7).length = 7 := by rw [List.length_take, min_eq_left hbytes]
        rw [← List.take_append_drop 7 bytes, bytesToDigits_append hgroup] at h
        have hprinted := (length_printed group_full hgroup).1
        refine ⟨bytes.take 7, ⟨hgroup, ?_⟩, bytes.drop 7, ?_, List.take_append_drop 7 bytes⟩
        · rw [← h, List.take_left' hprinted]
        · rw [← h, List.drop_left' hprinted]
    rw [if_neg hlong]
    by_cases hne : digits ≠ []
    · rw [if_pos hne, Option.bind_eq_some_iff]
      refine ⟨?_, fun h => ?_⟩
      · rintro ⟨count, hcount, hread⟩
        obtain ⟨hgroup, hshort⟩ := group_of_bytesCount hcount
        obtain ⟨hlength, hprinted⟩ := (readGroup_eq_some_iff hgroup rfl).1 hread
        have hbytes : bytes ≠ [] := List.ne_nil_of_length_pos (hlength ▸ hgroup.1)
        rw [bytesToDigits_short hbytes (hlength ▸ hshort), hlength, ← hgroup.2.2, ← hprinted]
      · have hbytes : bytes ≠ [] := fun hnil => hne (h ▸ bytesToDigits_eq_nil_iff.2 hnil)
        have hshort : bytes.length < 7 :=
          not_le.1 fun hfull => hlong (h ▸ seventeen_le_length_iff.2 hfull)
        obtain ⟨hlength, hcount, -⟩ := length_short hbytes hshort
        rw [h] at hlength
        rw [bytesToDigits_short hbytes hshort] at h
        exact ⟨bytes.length, by rw [hlength, hcount],
          (readGroup_eq_some_iff (group_of_short hbytes hshort) hlength).2 ⟨rfl, h.symm⟩⟩
    · obtain rfl := not_not.1 hne
      rw [if_neg hne, bytesToDigits_eq_nil_iff, Option.some_inj, eq_comm]

/-- **The digits of a QR code.**  Only digits are written; they are read back as the bytes; what is
read is written in the same digits, so that two strings that are read are of different bytes; and
every other string is rejected. -/
theorem qr_digits (bytes digits : Bytes) :
    (∀ ch ∈ bytesToDigits bytes, zero ≤ ch ∧ ch ≤ nine) ∧
    digitsToBytes (bytesToDigits bytes) = some bytes ∧
    (digitsToBytes digits = some bytes → bytesToDigits bytes = digits) ∧
    (∀ other, digitsToBytes digits = some bytes → digitsToBytes other = some bytes →
      digits = other) ∧
    ((∀ written, bytesToDigits written ≠ digits) → digitsToBytes digits = none) := by
  refine ⟨isDigit_of_mem_bytesToDigits bytes, digitsToBytes_eq_some_iff.2 rfl,
    digitsToBytes_eq_some_iff.1, fun other h hother => ?_, fun h => ?_⟩
  · rw [← digitsToBytes_eq_some_iff.1 h, digitsToBytes_eq_some_iff.1 hother]
  · rw [Option.eq_none_iff_forall_ne_some]
    exact fun written hread => h written (digitsToBytes_eq_some_iff.1 hread)

end Yunogram.Webauthn.QrDigits
