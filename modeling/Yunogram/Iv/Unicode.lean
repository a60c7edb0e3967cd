import Yunogram.Iv.InlineTextObjects

/-!
# Iv/Unicode — characters, their case, and texts cut by them

What the code asks of Unicode about characters is a parameter (`Unicode`), with what it relies on.
-/

namespace Yunogram.Iv.Markdown

/-- `'/'`. -/
def slash : UInt16 := unit '/'

/-- `QChar::toLower` of an ASCII character. -/
def asciiLower (c : UInt16) : UInt16 := if unit 'A' ≤ c ∧ c ≤ unit 'Z' then c + 32 else c

/-- What Unicode says of characters and of their case.  The number sign is no letter.  Lowering goes
on character by character: no other character becomes a slash, and none gets lost. -/
structure Unicode where
  isLetter : UInt16 → Bool
  isLetterOrNumber : UInt16 → Bool
  isSpace : UInt16 → Bool
  toLower : QString → QString
  equalIgnoringCase : QString → QString → Bool
  hash_not_letter : isLetter (unit '#') = false
  lower_nil : ∀ text, toLower text = [] ↔ text = []
  lower_slash : ∀ before after,
    toLower (before ++ slash :: after) = toLower before ++ slash :: toLower after
  mem_of_lower : ∀ text, slash ∈ toLower text → slash ∈ text
  equal_ascii : ∀ a b, a.map asciiLower = b.map asciiLower → equalIgnoringCase a b = true

/-- `QString::startsWith`. -/
def startsWith (text start : QString) : Bool := start.isPrefixOf text

/-- What is before the first such character; all of the text when there is none. -/
def untilFirst (c : UInt16) (text : QString) : QString :=
  match text.idxOf? c with
  | none => text
  | some index => text.take index

/-- `QString::trimmed`. -/
def Unicode.trimmed (unicode : Unicode) (text : QString) : QString :=
  ((text.dropWhile unicode.isSpace).reverse.dropWhile unicode.isSpace).reverse

end Yunogram.Iv.Markdown
