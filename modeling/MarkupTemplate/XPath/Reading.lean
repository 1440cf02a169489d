import MarkupTemplate.Number.Layout
import MarkupTemplate.Text.Pieces
import MarkupTemplate.XPath.Expr

/-!
# Reading queries

* `Expr.read` — the expression that a text stands for.
* `Parser` — takes a value off the front of a text, or fails.
* `orExpr` and the functions before it — the grammar, from the inside out. Each takes a parser
  `nested` for the expressions in parentheses, brackets and argument lists.

A parser that fails leaves the next alternative the whole text. The alternatives of a choice are
tried in order, and repetitions take as much as they can.
-/

namespace MarkupTemplate.XPath

/-- A parser takes a value off the front of a text, or fails. -/
abbrev Parser (α : Type) := List Char → Option (α × List Char)

/-! ## Repetition and blanks -/

/-- As many values as there are, at most `fuel`. -/
def manyWithin {α : Type} (p : Parser α) : Nat → List Char → List α × List Char
  | 0, cs => ([], cs)
  | fuel + 1, cs =>
    match p cs with
    | none => ([], cs)
    | some (a, rest) =>
      let (as, rest) := manyWithin p fuel rest
      (a :: as, rest)

/-- As many values as there are, for a parser that takes at least one character. -/
def many {α : Type} (p : Parser α) (cs : List Char) : List α × List Char :=
  manyWithin p cs.length cs

/-- A blank between tokens. -/
def isSpace (c : Char) : Bool :=
  c = ' ' || c = '\t' || c = '\r' || c = '\n'

/-- The text after leading blanks. -/
def skip (cs : List Char) : List Char :=
  cs.dropWhile isSpace

/-- A sign with blanks around it; what follows. -/
def sign? (c : Char) (cs : List Char) : Option (List Char) :=
  match skip cs with
  | d :: rest => if d = c then some (skip rest) else none
  | [] => none

/-- The value of the first word of a table that a text starts with, and what follows. -/
def wordIn? {α : Type} (table : List (String × α)) (cs : List Char) : Option (α × List Char) :=
  table.findSome? fun (word, value) =>
    (Text.dropHead? word.toList cs).map fun rest => (value, rest)

/-! ## Names and literals -/

/-- A character inside a name. -/
def isNameChar (c : Char) : Bool :=
  Text.isAlphanumeric c || c = '_' || c = '-'

/-- A character that a name starts with. -/
def isNameStart (c : Char) : Bool :=
  Text.isAlphabetic c || c = '_'

/-- A name without a colon. -/
def simpleName : Parser (List Char)
  | [] => none
  | c :: cs =>
    if isNameStart c then some (c :: cs.takeWhile isNameChar, cs.dropWhile isNameChar) else none

/-- A name, perhaps of two parts with a colon between them. -/
def name (cs : List Char) : Option (String × List Char) :=
  match simpleName cs with
  | none => none
  | some (first, ':' :: rest) =>
    match simpleName rest with
    | some (second, rest) => some (String.ofList (first ++ ':' :: second), rest)
    | none => some (String.ofList first, ':' :: rest)
  | some (first, rest) => some (String.ofList first, rest)

/-- A decimal number. Digits have to stand on one side of its point. When a number that begins with
a digit is the last thing in the text, what it has behind the point does not count. -/
def number (cs : List Char) : Option (Float × List Char) :=
  let whole := cs.takeWhile Text.isDigit
  match cs.dropWhile Text.isDigit with
  | '.' :: rest =>
    let fraction := rest.takeWhile Text.isDigit
    let after := rest.dropWhile Text.isDigit
    if whole.isEmpty && fraction.isEmpty then none
    else if !whole.isEmpty && after.isEmpty then some (Number.ofDecimal whole 0, [])
    else some (Number.ofDecimal (whole ++ fraction) fraction.length, after)
  | rest => if whole.isEmpty then none else some (Number.ofDecimal whole 0, rest)

/-- A literal in quotes of one kind, without escapes. -/
def literalText : Parser String
  | [] => none
  | q :: cs =>
    if q = '\'' || q = '"' then
      match cs.dropWhile (· != q) with
      | _ :: rest => some (String.ofList (cs.takeWhile (· != q)), rest)
      | [] => none
    else none

/-! ## Operators -/

/-- An operator that is a word, unless a longer name starts with it. -/
def keyword (word : String) (operator : Operator) (cs : List Char) :
    Option (Operator × List Char) :=
  match Text.dropHead? word.toList cs with
  | some rest => if (rest.head?.map isNameChar).getD false then none else some (operator, rest)
  | none => none

/-- The comparisons for equality. -/
def equalityOperator : Parser Operator :=
  wordIn? [("!=", .comparison .notEqual), ("=", .comparison .equal)]

/-- The comparisons by size. -/
def relationalOperator : Parser Operator :=
  wordIn? [("<=", .comparison .lessEqual), (">=", .comparison .greaterEqual),
    ("<", .comparison .less), (">", .comparison .greater)]

/-- Addition and subtraction. -/
def additiveOperator : Parser Operator :=
  wordIn? [("+", .arithmetic .plus), ("-", .arithmetic .minus)]

/-- Multiplication and division. -/
def multiplicativeOperator (cs : List Char) : Option (Operator × List Char) :=
  match Text.dropHead? ['*'] cs with
  | some rest => some (.arithmetic .times, rest)
  | none => (keyword "div" (.arithmetic .divide) cs).or (keyword "mod" (.arithmetic .modulo) cs)

/-- The union of node-sets. -/
def unionOperator : Parser Operator :=
  wordIn? [("|", .union)]

/-- The operands that follow a first one. Every operator takes a character, so the length of the
text bounds their number. An operator without a right operand fails the whole chain. -/
def chainWithin (operand : Parser Expr) (operator : Parser Operator) :
    Nat → Expr → List Char → Option (Expr × List Char)
  | 0, left, cs => some (left, cs)
  | fuel + 1, left, cs =>
    match operator (skip cs) with
    | none => some (left, cs)
    | some (o, rest) =>
      match operand rest with
      | none => none
      | some (right, rest) => chainWithin operand operator fuel (.binary o left right) rest

/-- Operands joined to the left. -/
def chain (operand : Parser Expr) (operator : Parser Operator) (cs : List Char) :
    Option (Expr × List Char) :=
  match operand cs with
  | none => none
  | some (left, rest) => chainWithin operand operator rest.length left rest

/-! ## Steps -/

/-- The axes by name. A name comes before those it begins with. -/
def axisNames : List (String × Axis) :=
  [("ancestor-or-self", .ancestorOrSelf), ("ancestor", .ancestor), ("attribute", .attribute),
   ("child", .child), ("descendant-or-self", .descendantOrSelf), ("descendant", .descendant),
   ("following-sibling", .followingSibling), ("following", .following), ("parent", .parent),
   ("preceding-sibling", .precedingSibling), ("preceding", .preceding), ("self", .self)]

/-- An axis with its colons; the child axis if there is none. -/
def axis (cs : List Char) : Axis × List Char :=
  match wordIn? axisNames cs with
  | some (a, ':' :: ':' :: rest) => (a, rest)
  | _ => (.child, cs)

/-- A test for the kind of a node. -/
def kindTest (cs : List Char) : Option (NodeTest × List Char) :=
  match wordIn? [("text", NodeTest.text), ("node", .node), ("comment", .comment)] cs with
  | none => none
  | some (test, rest) =>
    match sign? '(' rest with
    | some (')' :: rest) => some (test, rest)
    | _ => none

/-- A node test. -/
def nodeTest (cs : List Char) : Option (NodeTest × List Char) :=
  match cs with
  | '*' :: rest => some (.any, rest)
  | _ =>
    match kindTest cs with
    | some found => some found
    | none => (name cs).map fun (n, rest) => (.name n, rest)

/-- The axis and the test of a step. -/
def stepHead (cs : List Char) : Option ((Axis × NodeTest) × List Char) :=
  match cs with
  | '.' :: '.' :: rest => some ((.parent, .node), rest)
  | '.' :: rest => some ((.self, .node), rest)
  | '@' :: rest => (nodeTest rest).map fun (test, rest) => ((.attribute, test), rest)
  | _ =>
    let (a, rest) := axis cs
    (nodeTest rest).map fun (test, rest) => ((a, test), rest)

/-- A predicate in brackets. -/
def predicate (nested : Parser Expr) (cs : List Char) : Option (Expr × List Char) :=
  match sign? '[' cs with
  | none => none
  | some rest =>
    match nested rest with
    | none => none
    | some (e, rest) => (sign? ']' rest).map fun rest => (e, rest)

/-- A step with its predicates. -/
def step (nested : Parser Expr) (cs : List Char) : Option (Step × List Char) :=
  match stepHead cs with
  | none => none
  | some ((a, test), rest) =>
    let (predicates, rest) := many (predicate nested) rest
    some (.mk a test predicates, rest)

/-- A further step behind its slash or slashes, which stand for a step of their own. -/
def furtherStep (nested : Parser Expr) (cs : List Char) : Option (List Step × List Char) :=
  match cs with
  | '/' :: '/' :: rest =>
    (step nested rest).map fun (s, rest) => ([.descendantOrSelf, s], rest)
  | '/' :: rest => (step nested rest).map fun (s, rest) => ([s], rest)
  | _ => none

/-- All further steps. -/
def furtherSteps (nested : Parser Expr) (cs : List Char) : List Step × List Char :=
  let (steps, rest) := many (furtherStep nested) cs
  (steps.flatten, rest)

/-- The start of a location path and its first step. A lone slash is a path without steps. -/
def pathHead (nested : Parser Expr) (cs : List Char) :
    Option ((Start × List Step) × List Char) :=
  match cs with
  | '/' :: '/' :: rest =>
    (step nested rest).map fun (s, rest) => ((.root, [.descendantOrSelf, s]), rest)
  | '/' :: rest =>
    match step nested rest with
    | some (s, rest) => some ((.root, [s]), rest)
    | none => some ((.root, []), rest)
  | _ => (step nested cs).map fun (s, rest) => ((.context, [s]), rest)

/-- A location path. -/
def locationPath (nested : Parser Expr) (cs : List Char) : Option (Expr × List Char) :=
  match pathHead nested cs with
  | none => none
  | some ((start, steps), rest) =>
    let (further, rest) := furtherSteps nested rest
    some (.path start (steps ++ further), rest)

/-! ## Expressions -/

/-- Further arguments, each behind a comma. A comma without an argument is left. -/
def furtherArgument (nested : Parser Expr) (cs : List Char) : Option (Expr × List Char) :=
  (sign? ',' cs).bind nested

/-- Arguments with commas between them, perhaps none. -/
def callArguments (nested : Parser Expr) (cs : List Char) : List Expr × List Char :=
  match nested cs with
  | none => ([], cs)
  | some (first, rest) =>
    let (further, rest) := many (furtherArgument nested) rest
    (first :: further, rest)

/-- A function call. Tests for the kind of a node look like calls and are none. -/
def functionCall (nested : Parser Expr) (cs : List Char) : Option (Expr × List Char) :=
  match name cs with
  | none => none
  | some (called, rest) =>
    if ["text", "node", "comment"].contains called then none
    else
      match sign? '(' rest with
      | none => none
      | some rest =>
        let (arguments, rest) := callArguments nested rest
        (sign? ')' rest).map fun rest => (.call called arguments, rest)

/-- An expression in parentheses. -/
def parenthesized (nested : Parser Expr) (cs : List Char) : Option (Expr × List Char) :=
  match sign? '(' cs with
  | none => none
  | some rest =>
    match nested rest with
    | none => none
    | some (e, rest) => (sign? ')' rest).map fun rest => (e, rest)

/-- A number, a literal, a call or an expression in parentheses. -/
def primary (nested : Parser Expr) (cs : List Char) : Option (Expr × List Char) :=
  match number cs with
  | some (x, rest) => some (.number x, rest)
  | none =>
    match literalText cs with
    | some (s, rest) => some (.literal s, rest)
    | none =>
      match functionCall nested cs with
      | some found => some found
      | none => parenthesized nested cs

/-- A primary expression with its predicates. -/
def filtered (nested : Parser Expr) (cs : List Char) : Option (Expr × List Char) :=
  match primary nested cs with
  | none => none
  | some (e, rest) =>
    let (predicates, rest) := many (predicate nested) rest
    some (if predicates.isEmpty then e else .filter e predicates, rest)

/-- An expression with further steps behind it. Steps behind a location path lengthen it. -/
def continued (e : Expr) (steps : List Step) : Expr :=
  if steps.isEmpty then e
  else
    match e with
    | .path start first => .path start (first ++ steps)
    | other => .path (.nodes other) steps

/-- A location path, or a primary expression that may be filtered and continued by steps. Primary
expressions go first, so that `position()` is a call and no step. -/
def pathExpr (nested : Parser Expr) (cs : List Char) : Option (Expr × List Char) :=
  let start := match filtered nested cs with
    | some found => some found
    | none => locationPath nested cs
  match start with
  | none => none
  | some (e, rest) =>
    let (steps, rest) := furtherSteps nested rest
    some (continued e steps, rest)

/-- A path with blanks around it. -/
def spacedPathExpr (nested : Parser Expr) (cs : List Char) : Option (Expr × List Char) :=
  (pathExpr nested (skip cs)).map fun (e, rest) => (e, skip rest)

/-- Paths and unions of them. -/
def unionExpr (nested : Parser Expr) : Parser Expr :=
  chain (spacedPathExpr nested) unionOperator

/-- A union, perhaps negated once. -/
def unaryExpr (nested : Parser Expr) (cs : List Char) : Option (Expr × List Char) :=
  match sign? '-' cs with
  | some rest => (unionExpr nested rest).map fun (e, rest) => (.negate e, rest)
  | none => unionExpr nested cs

/-- Products. -/
def multiplicativeExpr (nested : Parser Expr) : Parser Expr :=
  chain (unaryExpr nested) multiplicativeOperator

/-- Sums. -/
def additiveExpr (nested : Parser Expr) : Parser Expr :=
  chain (multiplicativeExpr nested) additiveOperator

/-- Comparisons by size. -/
def relationalExpr (nested : Parser Expr) : Parser Expr :=
  chain (additiveExpr nested) relationalOperator

/-- Comparisons for equality. -/
def equalityExpr (nested : Parser Expr) : Parser Expr :=
  chain (relationalExpr nested) equalityOperator

/-- Conjunctions. -/
def andExpr (nested : Parser Expr) : Parser Expr :=
  chain (equalityExpr nested) (keyword "and" .and)

/-- Disjunctions. -/
def orExpr (nested : Parser Expr) : Parser Expr :=
  chain (andExpr nested) (keyword "or" .or)

/-- An expression in which others nest at most `depth` deep. -/
def expr : Nat → Parser Expr
  | 0 => fun _ => none
  | depth + 1 => orExpr (expr depth)

/-- The expression that a text stands for. A nested expression is shorter than the one around it,
so the length bounds the nesting. -/
def Expr.read (query : String) : Except Fault Expr :=
  let cs := Text.trim query.toList
  match expr (cs.length + 1) cs with
  | some (e, []) => .ok e
  | some (_, rest) => .error (.malformed query (some (String.ofList rest)))
  | none => .error (.malformed query none)

end MarkupTemplate.XPath
