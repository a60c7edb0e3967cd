import Mathlib

/-!
# Machinery/PaddedDigits — numbers written with a fixed count of digits, the high one first

The number that digits stand for (`value`), and the digits of a number with zeros before them up to
a width (`padded`).

* `eq_padded_iff` — as many digits as the width are those of a number that fits. -/

namespace Machinery

/-- The number that digits stand for, the high one first. -/
def value (base : ℕ) (digits : List ℕ) : ℕ := digits.foldl (fun n digit => n * base + digit) 0

/-- The digits of a number, the high one first, with zeros before them up to the width. -/
def padded (base width n : ℕ) : List ℕ := (Nat.digitsAppend base width n).reverse

theorem value_eq_ofDigits (base : ℕ) (digits : List ℕ) :
    value base digits = Nat.ofDigits base digits.reverse := by
  induction digits using List.reverseRecOn with
  | nil => rfl
  | append_singleton front digit ih =>
    rw [value, List.foldl_append, List.foldl_cons, List.foldl_nil, List.reverse_concat,
      Nat.ofDigits_cons, ← ih, value]
    ring

variable {base width n : ℕ}

theorem value_lt (hbase : 1 < base) {digits : List ℕ} (h : ∀ digit ∈ digits, digit < base) :
    value base digits < base ^ digits.length := by
  rw [value_eq_ofDigits, ← List.length_reverse]
  exact Nat.ofDigits_lt_base_pow_length hbase
    fun digit hdigit => h digit (List.mem_reverse.1 hdigit)

/-- **As many digits as the width are those of a number that fits.** -/
theorem eq_padded_iff (hbase : 1 < base) {digits : List ℕ} :
    digits.length = width ∧ (∀ digit ∈ digits, digit < base) ∧ value base digits = n ↔
      n < base ^ width ∧ digits = padded base width n := by
  have hinv := Nat.setInvOn_digitsAppend_ofDigits hbase width
  refine ⟨?_, ?_⟩
  · rintro ⟨rfl, hlt, rfl⟩
    refine ⟨value_lt hbase hlt, ?_⟩
    have hmem : digits.reverse ∈ {l : List ℕ | l.length = digits.length ∧ ∀ x ∈ l, x < base} :=
      ⟨List.length_reverse, fun digit hdigit => hlt digit (List.mem_reverse.1 hdigit)⟩
    rw [padded, value_eq_ofDigits, hinv.1 hmem, List.reverse_reverse]
  · rintro ⟨hfits, rfl⟩
    refine ⟨?_, fun digit hdigit => ?_, ?_⟩
    · rw [padded, List.length_reverse, Nat.length_digitsAppend hbase width hfits]
    · exact Nat.lt_of_mem_digitsAppend hbase width digit (List.mem_reverse.1 hdigit)
    · rw [value_eq_ofDigits, padded, List.reverse_reverse, hinv.2 hfits]

end Machinery
