import MarkupTemplate.Choices

/-!
# CSS selectors

What a selector of the CSS grammar says.

* `Simple` — one condition of a compound.
* `Compound` — a type name and the conditions that follow it.
* `Branch` — compounds and the combinators in front of them; a selector is a list of branches.
-/

namespace MarkupTemplate.Css

/-- How a compound is related to the one before it. -/
inductive Combinator where
  | descendant
  | child
  /-- The sibling element right after. -/
  | adjacent
  /-- Any later sibling element. -/
  | sibling
deriving DecidableEq, Repr, Inhabited

/-- A position among siblings, counted from one. -/
inductive Nth where
  | first
  | last
  /-- The positions `step * n + offset`. -/
  | formula (step offset : Int)
deriving DecidableEq, Repr

/-- How the value of an attribute is compared. -/
inductive Comparison where
  | equal
  /-- The attribute begins with the value. -/
  | beginning
  /-- The attribute ends with the value. -/
  | ending
  /-- The attribute holds the value. -/
  | part
  /-- The attribute is the value, or begins with the value and a dash. -/
  | dashed
  /-- The value is a word of the attribute. -/
  | word
deriving DecidableEq, Repr

mutual

/-- One condition of a compound. -/
inductive Simple where
  | id (name : String)
  | cls (name : String)
  /-- The attribute is there. -/
  | present (name : String)
  | attribute (name : String) (comparison : Comparison) (value : String)
  /-- The element has neither elements nor text in it. -/
  | empty
  /-- None of the compounds fits. -/
  | negation (alternatives : List Compound)
  /-- The position among all sibling elements. -/
  | childPosition (nth : Nth)
  /-- The position among the sibling elements of the same type. -/
  | typePosition (nth : Nth)

/-- A type name, which is a star if the selector has none, and the conditions that follow it. -/
inductive Compound where
  | mk (type : String) (conditions : List Simple)

end

namespace Compound

/-- The type name. -/
def type : Compound → String
  | .mk type _ => type

/-- The conditions behind the type name. -/
def conditions : Compound → List Simple
  | .mk _ conditions => conditions

end Compound

/-- The positions among all siblings that conditions ask for. -/
def childPositions (conditions : List Simple) : List Nth :=
  conditions.filterMap fun
    | .childPosition nth => some nth
    | _ => none

/-- The positions among siblings of the same type that conditions ask for. -/
def typePositions (conditions : List Simple) : List Nth :=
  conditions.filterMap fun
    | .typePosition nth => some nth
    | _ => none

/-- Compounds, each with the combinator in front of it. The first one descends from the context. -/
abbrev Branch := List (Combinator × Compound)

end MarkupTemplate.Css
