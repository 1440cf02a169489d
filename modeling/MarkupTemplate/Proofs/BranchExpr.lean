import Mathlib.Data.List.Induction
import MarkupTemplate.Proofs.Tokens
import MarkupTemplate.Selector.Css.Query

/-!
# The expressions of selectors

The text that a selector is compiled to is read as an expression. The functions here say as which,
in the order in which the text is put together.

* `literalExpr`, `intExpr` — strings and integers.
* `attributeExpr`, `nthConjuncts`, `conditionExprs` — conditions.
* `branchSteps`, `branchExpr` — branches.
* `isNamed` — the compounds whose names are names in queries too.
-/

namespace MarkupTemplate.Css

open XPath

/-! ## Expressions -/

/-- The pieces of a string between its double quotes, with those quotes between them. -/
def pieceExprs : List (List Char) → List Expr
  | [] => []
  | [piece] => [.literal (String.ofList piece)]
  | piece :: pieces => .literal (String.ofList piece) :: .literal "\"" :: pieceExprs pieces

/-- A string. -/
def literalExpr (s : String) : Expr :=
  if s.toList.contains '"' && s.toList.contains '\'' then
    .call "concat" (pieceExprs (Text.splitOn '"' s.toList))
  else .literal s

/-- A natural number. -/
def natExpr (n : Nat) : Expr :=
  .number (Number.ofDecimal (Nat.toDigits 10 n) 0)

/-- An integer. -/
def intExpr : Int → Expr
  | .ofNat n => natExpr n
  | .negSucc n => .negate (natExpr (n + 1))

/-- An equation. -/
def equation (left right : Expr) : Expr :=
  .binary (.comparison .equal) left right

/-- The attributes with a name. -/
def attributePath (name : String) : Expr :=
  .path .context [.mk .attribute (.name name) []]

/-- The test that a word is one of the words of a value. -/
def wordTestExpr (value : Expr) (word : String) : Expr :=
  .call "contains"
    [.call "concat" [.literal " ", .call "normalize-space" [value], .literal " "],
      literalExpr (" " ++ word ++ " ")]

/-- The test on the value of an attribute. -/
def attributeExpr (name : String) (comparison : Comparison) (value : String) : Expr :=
  let step := attributePath name
  let text := literalExpr value
  if comparison = .equal then equation step text
  else if value.isEmpty then .call "false" []
  else
    match comparison with
    | .equal => equation step text
    | .beginning => .call "starts-with" [step, text]
    | .ending =>
      let start := Expr.binary (.arithmetic .plus)
        (.binary (.arithmetic .minus) (.call "string-length" [step]) (.call "string-length" [text]))
        (natExpr 1)
      equation (.call "substring" [step, start]) text
    | .part => .call "contains" [step, text]
    | .dashed =>
      .binary .or (equation step text) (.call "starts-with" [step, literalExpr (value ++ "-")])
    | .word => if value.toList.any Text.isBlank then .call "false" [] else wordTestExpr step value

/-- The conditions for a position, all of which have to hold. -/
def nthConjuncts (position count : Expr) : Nth → List Expr
  | .first => [equation position (natExpr 1)]
  | .last => [equation position count]
  | .formula step offset =>
    let modulo (e : Expr) (n : Int) : Expr := .binary (.arithmetic .modulo) e (intExpr n)
    if step = 0 then [equation position (intExpr offset)]
    else if step = 2 && offset = 1 then [equation (modulo position 2) (natExpr 1)]
    else if step = 2 && offset = 0 then [equation (modulo position 2) (natExpr 0)]
    else if 0 < step then
      let shifted :=
        if 0 ≤ offset then Expr.binary (.arithmetic .minus) position (intExpr offset)
        else .binary (.arithmetic .plus) position (intExpr (-offset))
      let divided := equation (modulo shifted step) (natExpr 0)
      if 1 < offset then
        [divided, .binary (.comparison .greaterEqual) position (intExpr offset)]
      else [divided]
    else
      [.binary (.comparison .lessEqual) position (intExpr offset),
        equation (modulo (.binary (.arithmetic .minus) (intExpr offset) position) (-step))
          (natExpr 0)]

/-- Several expressions with an operator between them. -/
def folded (o : Operator) : List Expr → Expr
  | [] => .call "true" []
  | e :: es => es.foldl (.binary o) e

theorem folded_snoc (o : Operator) {es : List Expr} (h : es ≠ []) (e : Expr) :
    folded o (es ++ [e]) = .binary o (folded o es) e := by
  cases es with
  | nil => exact absurd rfl h
  | cons e' es => simp [folded]

/-- What holds of the operands and is kept by the operator holds of the whole. -/
theorem folded_induction {o : Operator} {P : Expr → Prop}
    (ho : ∀ e e', P e → P e' → P (.binary o e e')) {es : List Expr} (hne : es ≠ [])
    (h : ∀ e ∈ es, P e) : P (folded o es) := by
  induction es using List.reverseRecOn with
  | nil => exact absurd rfl hne
  | append_singleton es e ih =>
    have hlast : P e := h e (by simp)
    by_cases hes : es = []
    · rw [hes]
      exact hlast
    · rw [folded_snoc o hes]
      exact ho _ _ (ih hes fun e' he => h e' (List.mem_append_left _ he)) hlast

/-- The predicate for positions in the list of nodes that a step selects. -/
def listPositionExpr : List Nth → Expr
  | [.first] => natExpr 1
  | [.last] => .call "last" []
  | [.formula step offset] =>
    if step = 0 then intExpr offset
    else folded .and (nthConjuncts (.call "position" []) (.call "last" []) (.formula step offset))
  | positions =>
    folded .and (positions.flatMap (nthConjuncts (.call "position" []) (.call "last" [])))

/-- The node test of a type name. -/
def typeTest (type : String) : NodeTest :=
  if type = "*" then .any else .name type

/-- The elements of a type on an axis. -/
def axisPath (axis : Axis) (type : String) : Expr :=
  .path .context [.mk axis (typeTest type) []]

/-- The conditions for a position of the context node itself among its siblings of a type. -/
def siblingConjuncts (type : String) : Nth → List Expr
  | .first => [.call "not" [axisPath .precedingSibling type]]
  | .last => [.call "not" [axisPath .followingSibling type]]
  | formula =>
    let before := Expr.call "count" [axisPath .precedingSibling type]
    let after := Expr.call "count" [axisPath .followingSibling type]
    nthConjuncts (.binary (.arithmetic .plus) before (natExpr 1))
      (.binary (.arithmetic .plus) (.binary (.arithmetic .plus) before after) (natExpr 1)) formula

/-- The predicate for positions of the context node itself among its siblings of a type. -/
def siblingPositionExpr (type : String) (positions : List Nth) : Expr :=
  folded .and (positions.flatMap (siblingConjuncts type))

/-- The predicate for a list of positions, none if there are none. -/
def positionExprs (predicate : List Nth → Expr) (positions : List Nth) : List Expr :=
  if positions.isEmpty then [] else [predicate positions]

/-- The condition that there is neither an element nor a text below. -/
def emptyExpr : Expr :=
  .binary .and (equation (.call "count" [.path .context [.mk .child .any []]]) (natExpr 0))
    (.call "not" [.path .context [.mk .child .text []]])

mutual

/-- The predicates for the conditions that are not positions. -/
def conditionExprs : List Simple → List Expr
  | [] => []
  | condition :: rest => conditionExpr condition ++ conditionExprs rest

/-- The predicate for a condition, unless it is a position. -/
def conditionExpr : Simple → List Expr
  | .id name => [equation (attributePath "id") (literalExpr name)]
  | .cls name => [wordTestExpr (attributePath "class") name]
  | .present name => [attributePath name]
  | .attribute name comparison value => [attributeExpr name comparison value]
  | .empty => [emptyExpr]
  | .negation alternatives => [.call "not" [folded .union (selfPaths alternatives)]]
  | .childPosition _ | .typePosition _ => []

/-- Every compound as a step to the context node itself. -/
def selfPaths : List Compound → List Expr
  | [] => []
  | compound :: rest => .path .context [testStep .self compound] :: selfPaths rest

/-- A step to the nodes on an axis that a compound fits, each looked at for itself. -/
def testStep (axis : Axis) : Compound → Step
  | .mk type conditions =>
    .mk axis (typeTest type)
      (positionExprs (siblingPositionExpr "*") (childPositions conditions) ++
        positionExprs (siblingPositionExpr type) (typePositions conditions) ++
        conditionExprs conditions)

end

/-- The steps to the children that a compound fits. -/
def childSteps (compound : Compound) : List Step :=
  let positions := childPositions compound.conditions
  if positions.isEmpty then
    [.mk .child (typeTest compound.type)
      (positionExprs listPositionExpr (typePositions compound.conditions) ++
        conditionExprs compound.conditions)]
  else
    [.mk .child .any [listPositionExpr positions], testStep .self (withoutChildPositions compound)]

/-- The steps to a compound from the one before it. -/
def stepSteps (combinator : Combinator) (compound : Compound) : List Step :=
  match combinator with
  | .descendant => .descendantOrSelf :: childSteps compound
  | .child => childSteps compound
  | .sibling => [testStep .followingSibling compound]
  | .adjacent => [.mk .followingSibling .any [natExpr 1], testStep .self compound]

/-- The steps to what a branch asks for. -/
def branchSteps (branch : Branch) : List Step :=
  branch.flatMap fun (combinator, compound) => stepSteps combinator compound

/-- What a branch asks for in a document. -/
def branchExpr (branch : Branch) : Expr :=
  .path .root (branchSteps branch)

/-- What a branch asks for below the context node. -/
def branchExprWithin (branch : Branch) : Expr :=
  .path .context (.mk .self .node [] :: branchSteps branch)

/-! ## Names -/

/-- The name of a type, or a star. -/
def isTypeName (type : String) : Bool :=
  type = "*" || isSimpleName type.toList

mutual

/-- The check holds of the compound and of those in its negations. -/
def Compound.all (check : Compound → Bool) : Compound → Bool
  | .mk type conditions => check (.mk type conditions) && conditionsAll check conditions

/-- The check holds of the compounds in the negations. -/
def conditionsAll (check : Compound → Bool) : List Simple → Bool
  | [] => true
  | condition :: rest => condition.all check && conditionsAll check rest

/-- The check holds of the compounds in a negation. -/
def Simple.all (check : Compound → Bool) : Simple → Bool
  | .negation alternatives => compoundsAll check alternatives
  | _ => true

/-- The check holds of the compounds and of those in their negations. -/
def compoundsAll (check : Compound → Bool) : List Compound → Bool
  | [] => true
  | compound :: rest => compound.all check && compoundsAll check rest

end

/-- An attribute has a name that is a name in queries too. -/
def Simple.isNamed : Simple → Bool
  | .present name | .attribute name _ _ => isName name.toList
  | _ => true

/-- The type and the attributes have names that are names in queries too. -/
def isNamed (compound : Compound) : Bool :=
  isTypeName compound.type && compound.conditions.all Simple.isNamed

/-- A negation has something to negate. -/
def Simple.isFilled : Simple → Bool
  | .negation alternatives => !alternatives.isEmpty
  | _ => true

/-- Every negation has something to negate. -/
def isFilled (compound : Compound) : Bool :=
  compound.conditions.all Simple.isFilled

end MarkupTemplate.Css
