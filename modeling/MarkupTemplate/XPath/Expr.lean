/-!
# Queries

The abstract syntax of the XPath subset that selectors are run in.

* `Expr` — an expression.
* `Step` — one step of a location path: an axis, a node test and predicates.
* `Start` — where a location path starts.
-/

namespace MarkupTemplate.XPath

/-- Where the nodes of a step are, seen from the node before it. -/
inductive Axis where
  | child
  | descendant
  | descendantOrSelf
  | attribute
  | parent
  | ancestor
  | ancestorOrSelf
  | self
  | followingSibling
  | precedingSibling
  | following
  | preceding
deriving DecidableEq, Repr

/-- The axes that count away from the context node against document order. -/
def Axis.isReverse : Axis → Bool
  | .ancestor | .ancestorOrSelf | .precedingSibling | .preceding => true
  | _ => false

/-- What a step keeps of the nodes on its axis. -/
inductive NodeTest where
  | name (name : String)
  | any
  | text
  | comment
  | node
deriving DecidableEq, Repr

/-- The comparisons of two values. -/
inductive Comparison where
  | equal
  | notEqual
  | less
  | lessEqual
  | greater
  | greaterEqual
deriving DecidableEq, Repr

/-- The operations on two numbers. -/
inductive Arithmetic where
  | plus
  | minus
  | times
  | divide
  | modulo
deriving DecidableEq, Repr

/-- The operators between two expressions. -/
inductive Operator where
  | or
  | and
  | comparison (c : Comparison)
  | arithmetic (a : Arithmetic)
  | union
deriving DecidableEq, Repr

mutual

/-- An expression. -/
inductive Expr where
  | literal (value : String)
  | number (value : Float)
  /-- A location path. -/
  | path (start : Start) (steps : List Step)
  /-- The nodes of an expression that all predicates hold of. -/
  | filter (primary : Expr) (predicates : List Expr)
  | call (name : String) (arguments : List Expr)
  | binary (operator : Operator) (left right : Expr)
  | negate (operand : Expr)

/-- Where a location path starts. -/
inductive Start where
  /-- At the root of the document. -/
  | root
  /-- At the context node. -/
  | context
  /-- At the nodes that an expression selects. -/
  | nodes (source : Expr)

/-- One step of a location path. -/
inductive Step where
  | mk (axis : Axis) (test : NodeTest) (predicates : List Expr)

end

/-- The step that a double slash stands for. -/
def Step.descendantOrSelf : Step :=
  .mk .descendantOrSelf .node []

/-- Why a query fails. -/
inductive Fault where
  /-- The text is not an expression; `rest` is what follows the expression it begins with. -/
  | malformed (query : String) (rest : Option String)
  /-- A function is unknown or has the wrong number of arguments. -/
  | function (name reason : String)
  /-- A value is not what its place asks for. -/
  | type (reason : String)
deriving DecidableEq, Repr

/-- The text of a fault. -/
def Fault.message : Fault → String
  | .malformed query (some rest) =>
    "Malformed XPath query: " ++ query ++ " (unexpected input at '" ++ rest ++ "')"
  | .malformed query none => "Malformed XPath query: " ++ query ++ " (parse error)"
  | .function name reason => "XPath function '" ++ name ++ "' error: " ++ reason
  | .type reason => "XPath type error: " ++ reason

end MarkupTemplate.XPath
