import MarkupTemplate.Text.Pieces

/-!
# Nesting

Separators count only outside of brackets, parentheses and quotes.

* `Nesting.next` — the nesting after one more character.
* `splitTop` — the pieces of a text between the separators outside of everything.
* `group?` — the text up to the bracket that closes a group.
-/

namespace MarkupTemplate

/-- How deep a place of a text is in brackets and parentheses, and the quote it is inside of. -/
structure Nesting where
  depth : Nat
  quote : Option Char
deriving DecidableEq, Repr

namespace Nesting

/-- Outside of everything. -/
def top : Nesting :=
  ⟨0, none⟩

/-- Whether a place is outside of everything. -/
def isTop (n : Nesting) : Bool :=
  n.depth = 0 && n.quote.isNone

/-- A quotation mark. -/
def isQuote (c : Char) : Bool :=
  c = '"' || c = '\''

/-- An opening bracket or parenthesis. -/
def isOpening (c : Char) : Bool :=
  c = '[' || c = '('

/-- A closing bracket or parenthesis. -/
def isClosing (c : Char) : Bool :=
  c = ']' || c = ')'

/-- The nesting after one more character. Brackets are not matched with each other, and closing
ones outside of everything do not count. Quotation marks count inside brackets, and outside of them
if `quotesAtTop`. -/
def next (quotesAtTop : Bool) (n : Nesting) (c : Char) : Nesting :=
  match n.quote with
  | some q => if c = q then { n with quote := none } else n
  | none =>
    if isQuote c && (quotesAtTop || n.depth != 0) then { n with quote := some c }
    else if isOpening c then { n with depth := n.depth + 1 }
    else if isClosing c then { n with depth := n.depth - 1 }
    else n

end Nesting

/-- The pieces between the separators outside of everything, for a text whose first character has
the nesting `n`. -/
def splitFrom (separator : Char) (n : Nesting) : List Char → List (List Char)
  | [] => [[]]
  | c :: cs =>
    if n.isTop && c = separator then [] :: splitFrom separator n cs
    else
      match splitFrom separator (n.next true c) cs with
      | [] => [[c]]
      | piece :: pieces => (c :: piece) :: pieces

/-- The pieces of a text between the separators outside of everything. -/
def splitTop (separator : Char) (cs : List Char) : List (List Char) :=
  splitFrom separator .top cs

/-- The text up to the bracket that closes the outermost of `depth + 1` open groups, and the text
after it. Only brackets of the same kind count, and none in quotes. -/
def groupFrom? (opener closer : Char) (depth : Nat) (quote : Option Char) :
    List Char → Option (List Char × List Char)
  | [] => none
  | c :: cs =>
    let inside (depth : Nat) (quote : Option Char) : Option (List Char × List Char) :=
      (groupFrom? opener closer depth quote cs).map fun (inner, rest) => (c :: inner, rest)
    match quote with
    | some q => inside depth (if c = q then none else some q)
    | none =>
      if Nesting.isQuote c then inside depth (some c)
      else if c = opener then inside (depth + 1) none
      else if c = closer then
        match depth with
        | 0 => some ([], cs)
        | depth + 1 => inside depth none
      else inside depth none

/-- The text up to the bracket that closes a group which was just opened, and the text after it. -/
def group? (opener closer : Char) (cs : List Char) : Option (List Char × List Char) :=
  groupFrom? opener closer 0 none cs

/-- A split text has at least one piece. -/
theorem splitFrom_ne_nil (separator : Char) (n : Nesting) (cs : List Char) :
    splitFrom separator n cs ≠ [] := by
  cases cs with
  | nil => simp [splitFrom]
  | cons c cs =>
    rw [splitFrom]
    split
    · simp
    · split <;> simp

/-- What follows a group is shorter than the text it was taken from. -/
theorem length_lt_of_groupFrom? {opener closer : Char} {depth : Nat} {quote : Option Char}
    {cs inner rest : List Char} (h : groupFrom? opener closer depth quote cs = some (inner, rest)) :
    rest.length < cs.length := by
  induction cs generalizing depth quote inner with
  | nil => simp [groupFrom?] at h
  | cons c cs ih =>
    have step {d : Nat} {q : Option Char}
        (h : (groupFrom? opener closer d q cs).map (fun (i, r) => (c :: i, r)) =
          some (inner, rest)) : rest.length < (c :: cs).length := by
      obtain ⟨⟨i, r⟩, hi, he⟩ := Option.map_eq_some_iff.1 h
      simp only [Prod.mk.injEq] at he
      obtain ⟨-, rfl⟩ := he
      exact Nat.lt_succ_of_lt (ih hi)
    unfold groupFrom? at h
    simp only at h
    split at h
    · exact step h
    · split at h
      · exact step h
      · split at h
        · exact step h
        · split at h
          · split at h
            · simp only [Option.some.injEq, Prod.mk.injEq] at h
              simp [← h.2]
            · exact step h
          · exact step h

end MarkupTemplate
