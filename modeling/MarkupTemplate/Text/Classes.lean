import MarkupTemplate.Text.Ranges

/-!
# Character classes

Four different notions of a blank and of a letter occur in templates, and they are kept apart.

* `isBlank` — the Unicode property White_Space, used wherever text is trimmed or cut into words.
* `isAsciiBlank` — the five ASCII whitespace characters that separate markup tokens.
* `isAlphabetic`, `isAlphanumeric` — Unicode letters and numbers, used for names.
* `isDigit`, `isAsciiAlpha` — their ASCII counterparts.
-/

namespace MarkupTemplate.Text

/-- A character with the Unicode property White_Space. -/
def isBlank (c : Char) : Bool :=
  let n := c.toNat
  (9 ≤ n && n ≤ 13) || n = 0x20 || n = 0x85 || n = 0xA0 || n = 0x1680 ||
    (0x2000 ≤ n && n ≤ 0x200A) || n = 0x2028 || n = 0x2029 || n = 0x202F || n = 0x205F ||
    n = 0x3000

/-- A space, tab, line feed, form feed or carriage return. -/
def isAsciiBlank (c : Char) : Bool :=
  c = ' ' || c = '\t' || c = '\n' || c = '\x0c' || c = '\r'

/-- A letter of the ASCII alphabet. -/
def isAsciiAlpha (c : Char) : Bool :=
  ('a' ≤ c && c ≤ 'z') || ('A' ≤ c && c ≤ 'Z')

/-- A decimal digit of ASCII. -/
def isDigit (c : Char) : Bool :=
  '0' ≤ c && c ≤ '9'

/-- The code point lies in one of the inclusive ranges. -/
def inRanges (ranges : List (Nat × Nat)) (c : Char) : Bool :=
  ranges.any fun r => r.1 ≤ c.toNat && c.toNat ≤ r.2

/-- A character with the Unicode property Alphabetic. -/
def isAlphabetic (c : Char) : Bool :=
  isAsciiAlpha c || (128 ≤ c.toNat && inRanges alphabeticRanges c)

/-- A character of one of the Unicode number categories. -/
def isNumeric (c : Char) : Bool :=
  isDigit c || (128 ≤ c.toNat && inRanges numericRanges c)

/-- A letter or a number. -/
def isAlphanumeric (c : Char) : Bool :=
  isAlphabetic c || isNumeric c

/-- ASCII whitespace is White_Space. -/
theorem isBlank_of_isAsciiBlank {c : Char} (h : isAsciiBlank c = true) : isBlank c = true := by
  simp only [isAsciiBlank, Bool.or_eq_true, decide_eq_true_eq] at h
  rcases h with (((h | h) | h) | h) | h <;> subst h <;> decide

/-- Numbers are written with digits. -/
theorem isDigit_of_mem_toDigits {n : Nat} {c : Char} (h : c ∈ Nat.toDigits 10 n) :
    isDigit c = true := by
  have hdigit := Nat.isDigit_of_mem_toDigits (by decide) (by decide) h
  simpa [Char.isDigit, isDigit, Char.le_def] using hdigit

/-- Every ASCII letter is alphabetic. -/
theorem isAlphabetic_of_isAsciiAlpha {c : Char} (h : isAsciiAlpha c = true) :
    isAlphabetic c = true := by
  simp [isAlphabetic, h]

/-- Every alphabetic character is alphanumeric. -/
theorem isAlphanumeric_of_isAlphabetic {c : Char} (h : isAlphabetic c = true) :
    isAlphanumeric c = true := by
  simp [isAlphanumeric, h]

end MarkupTemplate.Text
