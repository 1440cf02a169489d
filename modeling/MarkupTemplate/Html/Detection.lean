/-!
# Telling markup from text

* `looksLikeMarkup` — whether a text holds something like a tag.
-/

namespace MarkupTemplate

/-- A closing bracket comes before the end of the line. -/
def closesOnLine : List Char → Bool
  | [] => false
  | c :: cs => if c = '>' then true else if c = '\n' then false else closesOnLine cs

/-- Somewhere in the text an opening bracket is followed by a character that is not one, which may
be a line feed, and then by a closing bracket on the same line. -/
def looksLikeMarkupChars : List Char → Bool
  | [] => false
  | c :: cs =>
    let here := match cs with
      | d :: rest => c = '<' && d != '<' && closesOnLine rest
      | [] => false
    here || looksLikeMarkupChars cs

/-- The text holds something like a tag. -/
def looksLikeMarkup (text : String) : Bool :=
  looksLikeMarkupChars text.toList

end MarkupTemplate
