import MarkupTemplate.Number.Layout
import MarkupTemplate.Text.Pieces
import MarkupTemplate.XPath.Expr

/-!
# Values of queries

* `Atom` — a text, a number or a truth value; `Atom.toText`, `Atom.toNumber`, `Atom.toBoolean` turn
  one into another.
* `Value` — an atom or a list of nodes. The nodes are a parameter: conversions and comparisons need
  no more of a node than its text, and `Value String` holds the texts of the nodes.
* `compare` — comparisons, which hold of a list of nodes if they hold of one of them.
-/

namespace MarkupTemplate.XPath

/-! ## Numbers -/

/-- The number that a text stands for: digits with at most one point among them, perhaps after a
minus sign. Any other text stands for no number. -/
def readNumber (s : String) : Float :=
  let cs := Text.trim s.toList
  let negative := cs.head? = some '-'
  let digits := if negative then cs.drop 1 else cs
  let point := fun c => c == '.'
  if digits.any Text.isDigit && digits.all (fun c => Text.isDigit c || point c) &&
      digits.countP point ≤ 1 then
    let fraction := (digits.dropWhile fun c => !point c).drop 1
    let size := Number.ofDecimal (digits.filter fun c => !point c) fraction.length
    if negative then -size else size
  else Number.nan

/-- A number as text. Zero has no sign. -/
def numberText (x : Float) : String :=
  if x.isNaN then "NaN"
  else if !Number.isFinite x then if 0.0 < x then "Infinity" else "-Infinity"
  else if x == 0.0 then "0"
  else Number.Layout.plain.write x

/-- The whole number nearest to `x`; of two, the greater. -/
def round (x : Float) : Float :=
  if Number.isFinite x then Number.floor (x + 0.5) else x

/-! ## Atoms -/

/-- A value that is no node. -/
inductive Atom where
  | text (value : String)
  | number (value : Float)
  | boolean (value : Bool)

namespace Atom

/-- An atom as text. -/
def toText : Atom → String
  | .text s => s
  | .number x => numberText x
  | .boolean b => if b then "true" else "false"

/-- An atom as a number. -/
def toNumber : Atom → Float
  | .text s => readNumber s
  | .number x => x
  | .boolean b => if b then 1.0 else 0.0

/-- An atom as a truth value: neither the empty text nor zero nor NaN hold. -/
def toBoolean : Atom → Bool
  | .text s => !s.isEmpty
  | .number x => x != 0.0 && !x.isNaN
  | .boolean b => b

/-- The atom is a number. -/
def isNumber : Atom → Bool
  | .number _ => true
  | _ => false

/-- The atom is a truth value. -/
def isBoolean : Atom → Bool
  | .boolean _ => true
  | _ => false

/-- Equality of atoms: as truth values if one is, else as numbers if one is, else as texts. -/
def equal (a b : Atom) : Bool :=
  if a.isBoolean || b.isBoolean then a.toBoolean == b.toBoolean
  else if a.isNumber || b.isNumber then a.toNumber == b.toNumber
  else a.toText == b.toText

/-- A comparison of atoms. By size they are compared as numbers. -/
def compare (c : Comparison) (a b : Atom) : Bool :=
  match c with
  | .equal => equal a b
  | .notEqual => !equal a b
  | .less => a.toNumber < b.toNumber
  | .lessEqual => a.toNumber ≤ b.toNumber
  | .greater => b.toNumber < a.toNumber
  | .greaterEqual => b.toNumber ≤ a.toNumber

end Atom

/-- An operation on two numbers. -/
def Arithmetic.apply (a : Arithmetic) (x y : Float) : Float :=
  match a with
  | .plus => x + y
  | .minus => x - y
  | .times => x * y
  | .divide => x / y
  | .modulo => Number.remainder x y

/-! ## Values -/

/-- An atom or a list of nodes. -/
inductive Value (ν : Type) where
  | nodes (nodes : List ν)
  | atom (value : Atom)

namespace Value

variable {ν μ : Type}

/-- The value with something else for its nodes. -/
def map (f : ν → μ) : Value ν → Value μ
  | .nodes ns => .nodes (ns.map f)
  | .atom a => .atom a

/-- A value as a truth value: whether there is a node. -/
def toBoolean : Value ν → Bool
  | .nodes ns => !ns.isEmpty
  | .atom a => a.toBoolean

/-- A value as an atom: nodes stand for the text of the first. -/
def first (v : Value String) : Atom :=
  match v with
  | .nodes texts => .text (texts.head?.getD "")
  | .atom a => a

/-- A value as text. -/
def toText (v : Value String) : String :=
  v.first.toText

/-- A value as a number. -/
def toNumber (v : Value String) : Float :=
  v.first.toNumber

/-- What a value is, in the words of messages. -/
def kind : Value ν → String
  | .nodes _ => "a node-set"
  | .atom (.text _) => "a string"
  | .atom (.number _) => "a number"
  | .atom (.boolean _) => "a boolean"

/-- The atoms that nodes stand for when they are compared with an atom: one truth value for all of
them, or a number or a text for each. -/
def against (other : Atom) (texts : List String) : List Atom :=
  match other with
  | .boolean _ => [.boolean (!texts.isEmpty)]
  | .number _ => texts.map fun s => .number (readNumber s)
  | .text _ => texts.map .text

/-- A comparison of values. Of nodes it holds if it holds of one of them. -/
def compare (c : Comparison) (a b : Value String) : Bool :=
  match a, b with
  | .nodes xs, .nodes ys => xs.any fun x => ys.any fun y => Atom.compare c (.text x) (.text y)
  | .nodes xs, .atom b => (against b xs).any fun x => Atom.compare c x b
  | .atom a, .nodes ys => (against a ys).any fun y => Atom.compare c a y
  | .atom a, .atom b => Atom.compare c a b

end Value

end MarkupTemplate.XPath
