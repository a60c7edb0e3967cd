import Mathlib

/-!
# Machinery/Numerals — numbers written with letters, and read again

Two ways to write a number.  With digits from one up to the base, the high one first (`digits`,
read by `ofDigits`); and with words of letters that stand for numbers, taken from the greatest down
as often as they fit (`words`), where a letter before a greater one counts against the number
(`reading`).

* `ofDigits_digits` — the digits stand for the number.
* `reading_words` — and so do the words, when each word reads as its number, and no word begins
  with a letter that counts against the last one of a word before it. -/

namespace Machinery.Numerals

/-! ## Digits from one up to the base -/

/-- The digits of a number less one each, so that there is no digit for zero. -/
def digits (base : ℕ) : ℕ → List ℕ
  | 0 => []
  | n + 1 => digits base (n / base) ++ [n % base]
decreasing_by exact Nat.lt_succ_of_le (Nat.div_le_self _ _)

/-- The number such digits stand for. -/
def ofDigits (base : ℕ) (digits : List ℕ) : ℕ :=
  digits.foldl (fun n digit => base * n + digit + 1) 0

/-- **The digits of a number stand for it.** -/
theorem ofDigits_digits (base n : ℕ) : ofDigits base (digits base n) = n := by
  induction n using Nat.strong_induction_on with
  | h n ih =>
    rcases n with _ | n
    · rw [digits, ofDigits, List.foldl_nil]
    · have hrest := ih (n / base) (Nat.lt_succ_of_le (Nat.div_le_self _ _))
      rw [ofDigits] at hrest
      rw [digits, ofDigits, List.foldl_append, hrest, List.foldl_cons, List.foldl_nil,
        Nat.div_add_mod]

theorem lt_of_mem_digits {base : ℕ} (h : 0 < base) (n : ℕ) :
    ∀ digit ∈ digits base n, digit < base := by
  induction n using Nat.strong_induction_on with
  | h n ih =>
    rcases n with _ | n
    · rw [digits]
      exact fun digit hdigit => absurd hdigit List.not_mem_nil
    · rw [digits]
      intro digit hdigit
      rcases List.mem_append.1 hdigit with hdigit | hdigit
      · exact ih _ (Nat.lt_succ_of_le (Nat.div_le_self _ _)) digit hdigit
      · rw [List.mem_singleton.1 hdigit]
        exact Nat.mod_lt _ h

/-! ## Words of letters -/

/-- The number that letters stand for: a letter before a greater one is subtracted. -/
def reading : List ℕ → ℤ
  | [] => 0
  | [letter] => letter
  | letter :: next :: rest => (if letter < next then -(letter : ℤ) else letter) + reading (next :: rest)

/-- A word, and the number it stands for. -/
structure Word where
  value : ℕ
  letters : List ℕ

/-- The words of a number, each taken as often as it fits. -/
def words : List Word → ℕ → List ℕ
  | [], _ => []
  | word :: rest, n =>
    (List.replicate (n / word.value) word.letters).flatten ++ words rest (n % word.value)

/-- The last of these letters does not count against the first of those. -/
def Follows (front back : List ℕ) : Prop :=
  ∀ last ∈ front.getLast?, ∀ first ∈ back.head?, first ≤ last

instance (front back : List ℕ) : Decidable (Follows front back) :=
  inferInstanceAs (Decidable (∀ last ∈ front.getLast?, ∀ first ∈ back.head?, first ≤ last))

theorem reading_append {front back : List ℕ} (h : Follows front back) :
    reading (front ++ back) = reading front + reading back := by
  induction front with
  | nil => simp [reading]
  | cons letter rest ih =>
    rcases rest with _ | ⟨next, rest⟩
    · rcases back with _ | ⟨first, back⟩
      · simp [reading]
      · have hle : first ≤ letter := h letter (by simp) first (by simp)
        simp [reading, not_lt.2 hle]
    · rw [List.cons_append, List.cons_append, reading, reading, ← List.cons_append,
        ih (by simpa [Follows] using h)]
      ring

theorem Follows.append {front middle back : List ℕ} (hmiddle : Follows front middle)
    (hback : Follows front back) : Follows front (middle ++ back) := by
  intro last hlast first hfirst
  rcases middle with _ | ⟨next, middle⟩
  · exact hback last hlast first hfirst
  · exact hmiddle last hlast first hfirst

theorem Follows.flatten {front back : List ℕ} (h : Follows front back) (n : ℕ) :
    Follows front (List.replicate n back).flatten := by
  induction n with
  | zero => exact fun last _ first hfirst => absurd hfirst (by simp)
  | succ n ih =>
    rw [List.replicate_succ, List.flatten_cons]
    exact h.append ih

theorem reading_flatten {letters : List ℕ} (h : Follows letters letters) (n : ℕ) :
    reading (List.replicate n letters).flatten = n * reading letters := by
  induction n with
  | zero => simp [reading]
  | succ n ih =>
    rw [List.replicate_succ, List.flatten_cons, reading_append (h.flatten n), ih]
    push_cast
    ring

/-- Words that can be written one after the other: each reads as its number, no word begins with a
letter that counts against the last one of a word before it, or of its own, and the last word is
that of one. -/
inductive Written : List Word → Prop
  | last {word : Word} (hone : word.value = 1) (hreads : reading word.letters = word.value)
    (hself : Follows word.letters word.letters) : Written [word]
  | cons {word : Word} {rest : List Word} (hreads : reading word.letters = word.value)
    (hself : Follows word.letters word.letters)
    (hrest : ∀ next ∈ rest, Follows word.letters next.letters)
    (h : Written rest) : Written (word :: rest)

theorem follows_words {front : List ℕ} {parts : List Word}
    (h : ∀ word ∈ parts, Follows front word.letters) (n : ℕ) : Follows front (words parts n) := by
  induction parts generalizing n with
  | nil => exact fun last _ first hfirst => absurd hfirst (by simp [words])
  | cons word rest ih =>
    rw [words]
    exact ((h word (by simp)).flatten _).append
      (ih (fun next hnext => h next (by simp [hnext])) _)

theorem Follows.flatten_left {front back : List ℕ} (h : Follows front back) (n : ℕ) :
    Follows (List.replicate n front).flatten back := by
  rcases n with _ | n
  · exact fun last hlast => absurd hlast (by simp)
  · intro last hlast
    rw [List.replicate_succ', List.flatten_append, List.flatten_singleton] at hlast
    rcases front with _ | ⟨letter, front⟩
    · simp at hlast
    · rw [List.getLast?_append_of_ne_nil _ (by simp)] at hlast
      exact h last hlast

/-- **The words of a number read as the number.** -/
theorem reading_words {parts : List Word} (h : Written parts) (n : ℕ) :
    reading (words parts n) = n := by
  induction h generalizing n with
  | last hone hreads hself =>
    rw [words, words, List.append_nil, reading_flatten hself, hreads, hone, Nat.div_one]
    simp
  | @cons word rest hreads hself hrest _ ih =>
    rw [words, reading_append ((follows_words hrest _).flatten_left _), reading_flatten hself,
      hreads, ih]
    have hdiv := Nat.div_add_mod n word.value
    rw [mul_comm]
    exact_mod_cast hdiv

end Machinery.Numerals
