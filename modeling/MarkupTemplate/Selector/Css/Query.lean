import MarkupTemplate.Selector.Css
import MarkupTemplate.XPath.Literal

/-!
# CSS selectors as queries

* `branchQuery` — the XPath path that selects what a branch of a selector asks for. It starts with
  a slash, so that it can be put behind the path of a context.
* `selfTest` — a compound as a node test with predicates that look only at the node and its
  siblings, so that it can stand behind any axis.
-/

namespace MarkupTemplate.Css

open XPath (literal)

/-- A predicate as it follows a node test. -/
def bracketed (predicate : String) : String :=
  "[" ++ predicate ++ "]"

/-- The test that a word is one of the words of a value. -/
def wordTest (value word : String) : String :=
  "contains(concat(\" \", normalize-space(" ++ value ++ "), \" \"), " ++
    literal (" " ++ word ++ " ") ++ ")"

/-- The test on the value of an attribute. Nothing but an equal value is found by an empty one, and
no word has a blank in it. -/
def attributeTest (name : String) (comparison : Comparison) (value : String) : String :=
  let step := "@" ++ name
  let text := literal value
  if comparison = .equal then step ++ "=" ++ text
  else if value.isEmpty then "false()"
  else
    match comparison with
    | .equal => step ++ "=" ++ text
    | .beginning => "starts-with(" ++ step ++ ", " ++ text ++ ")"
    | .ending =>
      "substring(" ++ step ++ ", string-length(" ++ step ++ ") - string-length(" ++
        text ++ ") + 1) = " ++ text
    | .part => "contains(" ++ step ++ ", " ++ text ++ ")"
    | .dashed =>
      step ++ "=" ++ text ++ " or starts-with(" ++ step ++ ", " ++
        literal (value ++ "-") ++ ")"
    | .word => if value.toList.any Text.isBlank then "false()" else wordTest step value

/-! ## Positions -/

/-- The test of one position, from the expressions for the position of an element and for the
number of elements it is counted with. -/
def nthTest (position count : String) : Nth → String
  | .first => position ++ " = 1"
  | .last => position ++ " = " ++ count
  | .formula step offset =>
    if step = 0 then position ++ " = " ++ toString offset
    else if step = 2 && offset = 1 then position ++ " mod 2 = 1"
    else if step = 2 && offset = 0 then position ++ " mod 2 = 0"
    else if 0 < step then
      let shifted :=
        if 0 ≤ offset then "(" ++ position ++ " - " ++ toString offset ++ ")"
        else "(" ++ position ++ " + " ++ toString (-offset) ++ ")"
      let divided := shifted ++ " mod " ++ toString step ++ " = 0"
      if 1 < offset then divided ++ " and " ++ position ++ " >= " ++ toString offset else divided
    else
      position ++ " <= " ++ toString offset ++ " and (" ++ toString offset ++ " - " ++ position ++
        ") mod " ++ toString (-step) ++ " = 0"

/-- Several tests that all have to hold. -/
def conjunction (tests : List String) : String :=
  String.intercalate " and " tests

/-- The predicate for positions in the list of nodes that a step selects. -/
def listPosition : List Nth → String
  | [.first] => "1"
  | [.last] => "last()"
  | [.formula step offset] =>
    if step = 0 then toString offset
    else nthTest "position()" "last()" (.formula step offset)
  | positions => conjunction (positions.map (nthTest "position()" "last()"))

/-- The predicate for positions of the context node itself among its siblings of a type. -/
def siblingPosition (type : String) (positions : List Nth) : String :=
  let before := "count(preceding-sibling::" ++ type ++ ")"
  let after := "count(following-sibling::" ++ type ++ ")"
  conjunction (positions.map fun
    | .first => "not(preceding-sibling::" ++ type ++ ")"
    | .last => "not(following-sibling::" ++ type ++ ")"
    | formula =>
      nthTest ("(" ++ before ++ " + 1)") ("(" ++ before ++ " + " ++ after ++ " + 1)") formula)

/-- The predicate for a list of positions, none if there are none. -/
def positionPredicate (predicate : List Nth → String) (positions : List Nth) : String :=
  if positions.isEmpty then "" else bracketed (predicate positions)

/-! ## Compounds -/

mutual

/-- The predicates for the conditions that are not positions. -/
def predicates : List Simple → List String
  | [] => []
  | condition :: rest => predicate condition ++ predicates rest

/-- The predicate for a condition, unless it is a position. -/
def predicate : Simple → List String
  | .id name => ["@id=" ++ literal name]
  | .cls name => [wordTest "@class" name]
  | .present name => ["@" ++ name]
  | .attribute name comparison value => [attributeTest name comparison value]
  | .empty => ["count(*)=0 and not(text())"]
  | .negation alternatives => ["not(" ++ String.intercalate " | " (selfSteps alternatives) ++ ")"]
  | .childPosition _ | .typePosition _ => []

/-- Every compound as a step to the context node itself. -/
def selfSteps : List Compound → List String
  | [] => []
  | compound :: rest => ("self::" ++ selfTest compound) :: selfSteps rest

/-- A compound as a node test with predicates that look only at the node and its siblings. -/
def selfTest : Compound → String
  | .mk type conditions =>
    type ++ positionPredicate (siblingPosition "*") (childPositions conditions) ++
      positionPredicate (siblingPosition type) (typePositions conditions) ++
      String.join ((predicates conditions).map bracketed)

end

/-- A compound without the positions among all siblings. -/
def withoutChildPositions (compound : Compound) : Compound :=
  .mk compound.type (compound.conditions.filter fun
    | .childPosition _ => false
    | _ => true)

/-- A step along `axis` to the elements that a compound fits. Positions among all siblings are
counted on any element, and the compound is then tested on the element itself. -/
def listStep (axis : String) (compound : Compound) : String :=
  let positions := childPositions compound.conditions
  if positions.isEmpty then
    axis ++ compound.type ++
      positionPredicate listPosition (typePositions compound.conditions) ++
      String.join ((predicates compound.conditions).map bracketed)
  else
    axis ++ "*" ++ bracketed (listPosition positions) ++ "/self::" ++
      selfTest (withoutChildPositions compound)

/-- The step to a compound from the one before it. -/
def stepQuery (combinator : Combinator) (compound : Compound) : String :=
  match combinator with
  | .descendant => listStep "//" compound
  | .child => listStep "/" compound
  | .sibling => "/following-sibling::" ++ selfTest compound
  | .adjacent => "/following-sibling::*[1]/self::" ++ selfTest compound

/-- The path that selects what a branch asks for. -/
def branchQuery (branch : Branch) : String :=
  String.join (branch.map fun (combinator, compound) => stepQuery combinator compound)

end MarkupTemplate.Css
