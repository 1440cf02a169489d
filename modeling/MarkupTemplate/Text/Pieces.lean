import MarkupTemplate.Text.Classes

/-!
# Cutting text

Trimming, splitting and searching on lists of characters. Every function here keeps the characters
it was given: it only decides where to cut.

* `trim`, `trimStart`, `trimEnd` — remove White_Space at the ends.
* `words` — the maximal runs of characters that are not blank.
* `cutAt?` — the text before and after the first occurrence of a needle.
* `splitOn` — all pieces between occurrences of one separator character.
* `lower`, `sameLetters` — ASCII lower case and equality up to it.
-/

namespace MarkupTemplate.Text

/-- The text without leading White_Space. -/
def trimStart (cs : List Char) : List Char :=
  cs.dropWhile isBlank

/-- The text without the trailing characters of a class. -/
def dropEndWhile (p : Char → Bool) (cs : List Char) : List Char :=
  (cs.reverse.dropWhile p).reverse

/-- The text without trailing White_Space. -/
def trimEnd (cs : List Char) : List Char :=
  dropEndWhile isBlank cs

/-- The text without White_Space at either end. -/
def trim (cs : List Char) : List Char :=
  trimEnd (trimStart cs)

/-- The maximal runs of characters outside a class of separators, in order. -/
def runs (isSeparator : Char → Bool) : List Char → List (List Char)
  | [] => []
  | c :: cs =>
    if isSeparator c then runs isSeparator cs
    else match cs, runs isSeparator cs with
      | d :: _, word :: rest =>
        if isSeparator d then [c] :: word :: rest else (c :: word) :: rest
      | _, rest => [c] :: rest

/-- The words of a text, cut at White_Space. -/
def words (cs : List Char) : List (List Char) :=
  runs isBlank cs

/-- ASCII lower case; every other character stays. -/
def lower (cs : List Char) : List Char :=
  cs.map Char.toLower

/-- Equality up to the case of ASCII letters. -/
def sameLetters (a b : List Char) : Bool :=
  lower a == lower b

/-- The text after `head`, if it starts with it. -/
def dropHead? (head cs : List Char) : Option (List Char) :=
  head.isPrefixOf? cs

/-- The text before and after the first occurrence of `needle`. -/
def cutAt? (needle : List Char) : List Char → Option (List Char × List Char)
  | [] => if needle.isEmpty then some ([], []) else none
  | c :: cs =>
    match dropHead? needle (c :: cs) with
    | some rest => some ([], rest)
    | none => (cutAt? needle cs).map fun (before, after) => (c :: before, after)

/-- Whether `needle` occurs in the text. -/
def occursIn (needle cs : List Char) : Bool :=
  (cutAt? needle cs).isSome

/-- The pieces between the occurrences of a separator; a text without one is a single piece. -/
def splitOn (separator : Char) : List Char → List (List Char)
  | [] => [[]]
  | c :: cs =>
    if c = separator then [] :: splitOn separator cs
    else match splitOn separator cs with
      | [] => [[c]]
      | piece :: pieces => (c :: piece) :: pieces

/-- The pieces of a text joined by `glue`. -/
def join (glue : List Char) (pieces : List (List Char)) : List Char :=
  (pieces.intersperse glue).flatten

/-- A text is blank when nothing is left of it after trimming. -/
def isBlankText (cs : List Char) : Bool :=
  cs.all isBlank

/-- A split text has at least one piece. -/
theorem splitOn_ne_nil (separator : Char) (cs : List Char) : splitOn separator cs ≠ [] := by
  induction cs with
  | nil => simp [splitOn]
  | cons c cs ih =>
    rw [splitOn]
    split
    · simp
    · split <;> simp

/-- Joining the pieces of a split with the separator gives the text back. -/
theorem join_splitOn (separator : Char) (cs : List Char) :
    join [separator] (splitOn separator cs) = cs := by
  induction cs with
  | nil => simp [splitOn, join]
  | cons c cs ih =>
    rw [splitOn]
    cases hs : splitOn separator cs with
    | nil => exact absurd hs (splitOn_ne_nil separator cs)
    | cons piece pieces =>
      rw [hs] at ih
      split
      · rename_i hc
        simp only [join, List.intersperse_cons_cons, List.flatten_cons, List.nil_append] at ih ⊢
        simp [ih, hc]
      · simp only [join] at ih ⊢
        cases pieces with
        | nil => simpa using ih
        | cons p ps => simpa [List.intersperse_cons_cons] using ih

end MarkupTemplate.Text

namespace MarkupTemplate

/-- A string without White_Space at either end. -/
def trimmed (s : String) : String :=
  String.ofList (Text.trim s.toList)

/-- A string in ASCII lower case. -/
def lowered (s : String) : String :=
  String.ofList (Text.lower s.toList)

/-- A string that holds nothing but White_Space. -/
def isBlankString (s : String) : Bool :=
  Text.isBlankText s.toList

end MarkupTemplate
