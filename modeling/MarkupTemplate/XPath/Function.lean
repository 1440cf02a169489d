import MarkupTemplate.XPath.Place
import MarkupTemplate.XPath.Value

/-!
# Functions of queries

* `Focus` — the context that an expression is evaluated in.
* `Function` — a function by name, with the number of its arguments and what it computes.
* `Function.find` — the function of a call, or the fault that there is none.

Arguments are evaluated before a function is applied.
-/

namespace MarkupTemplate.XPath

/-- The context of an expression: a node, and its position in a list of nodes. -/
structure Focus where
  scope : Scope
  node : Node
  position : Nat
  size : Nat

/-- What an expression evaluates to. -/
abbrev Result := Value Node

/-- A function: its name, how many arguments it takes, and what it makes of them. -/
structure Function where
  name : String
  least : Nat
  most : Nat
  apply : Focus → List Result → Except Fault Result

namespace Function

/-- The greatest number of arguments that there can be, where it stands for no bound at all. -/
def unbounded : Nat :=
  Nat.pow 2 64 - 1

/-- The nodes of a value that has to be a list of nodes. -/
def expectNodes (what : String) : Result → Except Fault (List Node)
  | .nodes ns => .ok ns
  | other => .error (.type (what ++ " expects a node-set, got " ++ other.kind))

/-- An argument as an atom. Where there is none, the text of the context node stands for it. -/
def argument (f : Focus) (args : List Result) (i : Nat) : Atom :=
  match args[i]? with
  | some v => (v.map f.scope.text).first
  | none => .text (f.scope.text f.node)

/-- An argument as text. -/
def textArgument (f : Focus) (args : List Result) (i : Nat) : String :=
  (argument f args i).toText

/-- An argument as a number. -/
def numberArgument (f : Focus) (args : List Result) (i : Nat) : Float :=
  (argument f args i).toNumber

/-- A function of no, one or more texts, that makes a text. -/
def textual (name : String) (least most : Nat)
    (compute : (Nat → List Char) → List Char) : Function :=
  ⟨name, least, most, fun f args =>
    .ok (.atom (.text (String.ofList (compute fun i => (textArgument f args i).toList))))⟩

/-- A function of two texts that holds or not. -/
def textTest (name : String) (holds : List Char → List Char → Bool) : Function :=
  ⟨name, 2, 2, fun f args =>
    .ok (.atom (.boolean
      (holds (textArgument f args 0).toList (textArgument f args 1).toList)))⟩

/-- A function of one number. -/
def numeric (name : String) (least : Nat) (compute : Float → Float) : Function :=
  ⟨name, least, 1, fun f args => .ok (.atom (.number (compute (numberArgument f args 0))))⟩

/-- A function of one value that is true or false. -/
def truth (name : String) (compute : Bool → Bool) : Function :=
  ⟨name, 1, 1, fun _ args =>
    .ok (.atom (.boolean (compute ((args[0]?.map Value.toBoolean).getD false))))⟩

/-- A number that the context alone decides. -/
def contextual (name : String) (compute : Focus → Nat) : Function :=
  ⟨name, 0, 0, fun f _ => .ok (.atom (.number (Float.ofNat (compute f))))⟩

/-- A truth value. -/
def constant (name : String) (value : Bool) : Function :=
  ⟨name, 0, 0, fun _ _ => .ok (.atom (.boolean value))⟩

/-- A number that is computed from the texts of nodes. -/
def aggregate (name : String) (compute : List String → Float) : Function :=
  ⟨name, 1, 1, fun f args => do
    let ns ← expectNodes (name ++ "()") (args[0]?.getD (.nodes []))
    return .atom (.number (compute (ns.map f.scope.text)))⟩

/-- The name of the first node, or of the context node. -/
def naming (name : String) : Function :=
  ⟨name, 0, 1, fun f args =>
    match args[0]? with
    | some v => do
      let ns ← expectNodes "name()" v
      return .atom (.text ((ns.head?.map f.scope.name).getD ""))
    | none => .ok (.atom (.text (f.scope.name f.node)))⟩

/-- The characters of a text from position `start` on, counted from one, up to and without
`stop`. -/
def charactersBetween (start stop : Float) (cs : List Char) : List Char :=
  (cs.zipIdx 1).filterMap fun (c, i) =>
    if start ≤ Float.ofNat i && Float.ofNat i < stop then some c else none

/-- The part of a text that starts at a position and, if there is a third argument, has a length. -/
def substring : Function :=
  ⟨"substring", 2, 3, fun f args =>
    let start := round (numberArgument f args 1)
    let stop := if args.length = 3 then start + round (numberArgument f args 2) else Number.infinity
    .ok (.atom (.text
      (String.ofList (charactersBetween start stop (textArgument f args 0).toList))))⟩

/-- All arguments as one text. -/
def concat : Function :=
  ⟨"concat", 2, unbounded, fun f args =>
    .ok (.atom (.text (String.join (args.map fun v => (v.map f.scope.text).toText))))⟩

/-- The number of characters of a text. -/
def stringLength : Function :=
  ⟨"string-length", 0, 1, fun f args =>
    .ok (.atom (.number (Float.ofNat (textArgument f args 0).length)))⟩

/-- Every character of `source` replaced by the one at the same index of `target`, or dropped if
there is none. -/
def translated (cs source target : List Char) : List Char :=
  cs.filterMap fun c =>
    match source.idxOf? c with
    | some i => target[i]?
    | none => some c

/-- All functions. -/
def all : List Function :=
  [contextual "last" Focus.size,
   contextual "position" Focus.position,
   aggregate "count" fun texts => Float.ofNat texts.length,
   aggregate "sum" fun texts => texts.foldl (fun sum s => sum + readNumber s) (-0.0),
   truth "not" Bool.not,
   truth "boolean" id,
   constant "true" true,
   constant "false" false,
   concat,
   substring,
   stringLength,
   textual "string" 0 1 fun arg => arg 0,
   textTest "contains" fun cs needle => Text.occursIn needle cs,
   textTest "starts-with" fun cs head => head.isPrefixOf cs,
   textual "substring-before" 2 2 fun arg =>
     ((Text.cutAt? (arg 1) (arg 0)).map Prod.fst).getD [],
   textual "substring-after" 2 2 fun arg =>
     ((Text.cutAt? (arg 1) (arg 0)).map Prod.snd).getD [],
   textual "normalize-space" 0 1 fun arg => Text.join [' '] (Text.words (arg 0)),
   textual "translate" 3 3 fun arg => translated (arg 0) (arg 1) (arg 2),
   numeric "number" 0 id,
   numeric "floor" 1 Number.floor,
   numeric "ceiling" 1 Number.ceiling,
   numeric "round" 1 round,
   naming "name",
   naming "local-name"]

/-- The function that a call with a number of arguments is of. -/
def find (called : String) (count : Nat) : Except Fault Function :=
  match all.find? fun f => f.name = called with
  | none => .error (.function called "unknown function")
  | some f =>
    if f.least ≤ count && (count ≤ f.most || f.most = unbounded) then .ok f
    else
      .error (.function called ("expected " ++ toString f.least ++ "..=" ++ toString f.most ++
        " arguments, got " ++ toString count))

end Function

end MarkupTemplate.XPath
