import MarkupTemplate.XPath.Function
import MarkupTemplate.XPath.Reading

/-!
# Evaluating queries

* `evaluate` — the value of an expression in a context.
* `Expr.selectNodes` — the places that an expression selects, in document order.
-/

namespace MarkupTemplate.XPath

/-- The nodes that a condition holds of. It is told the position of a node, counted from `i`. -/
def keep (holds : Nat → Node → Except Fault Bool) (i : Nat) : List Node → Except Fault (List Node)
  | [] => .ok []
  | n :: ns => do
    let kept ← holds i n
    let rest ← keep holds (i + 1) ns
    return if kept then n :: rest else rest

/-- All of several lists of nodes, as long as none fails. -/
def gather (found : Node → Except Fault (List Node)) : List Node → Except Fault (List Node)
  | [] => .ok []
  | n :: ns => do
    let first ← found n
    let rest ← gather found ns
    return first ++ rest

/-- Whether the value of a predicate holds at a position: a number stands for the position. -/
def holdsAt (position : Nat) : Result → Bool
  | .atom (.number x) => x == Float.ofNat position
  | other => other.toBoolean

mutual

/-- The value of an expression. -/
def evaluate (f : Focus) : Expr → Except Fault Result
  | .literal s => .ok (.atom (.text s))
  | .number x => .ok (.atom (.number x))
  | .path start steps => do
    let ns ← evaluateStart f start
    return .nodes (← walk f ns steps)
  | .filter primary predicates => do
    let v ← evaluate f primary
    let ns ← Function.expectNodes "filter expression" v
    return .nodes (← narrow f ns predicates)
  | .call name arguments => do
    let called ← Function.find name arguments.length
    called.apply f (← evaluateAll f arguments)
  | .binary .or left right => do
    let l ← evaluate f left
    if l.toBoolean then return .atom (.boolean true)
    else
      let r ← evaluate f right
      return .atom (.boolean r.toBoolean)
  | .binary .and left right => do
    let l ← evaluate f left
    if l.toBoolean then
      let r ← evaluate f right
      return .atom (.boolean r.toBoolean)
    else return .atom (.boolean false)
  | .binary .union left right => do
    let l ← Function.expectNodes "union" (← evaluate f left)
    let r ← Function.expectNodes "union" (← evaluate f right)
    return .nodes (inOrder (l ++ r))
  | .binary (.comparison c) left right => do
    let l ← evaluate f left
    let r ← evaluate f right
    return .atom (.boolean (Value.compare c (l.map f.scope.text) (r.map f.scope.text)))
  | .binary (.arithmetic a) left right => do
    let l ← evaluate f left
    let r ← evaluate f right
    return .atom (.number
      (a.apply (l.map f.scope.text).toNumber (r.map f.scope.text).toNumber))
  | .negate operand => do
    let v ← evaluate f operand
    return .atom (.number (-(v.map f.scope.text).toNumber))

/-- The values of several expressions in order. -/
def evaluateAll (f : Focus) : List Expr → Except Fault (List Result)
  | [] => .ok []
  | e :: es => do
    let v ← evaluate f e
    let vs ← evaluateAll f es
    return v :: vs

/-- The nodes that a location path starts at. -/
def evaluateStart (f : Focus) : Start → Except Fault (List Node)
  | .root => .ok [.tree .root]
  | .context => .ok [f.node]
  | .nodes source => do
    let v ← evaluate f source
    Function.expectNodes "path" v

/-- The nodes that are reached from others by steps. -/
def walk (f : Focus) (ns : List Node) : List Step → Except Fault (List Node)
  | [] => .ok ns
  | s :: steps => do
    let reached ← stepFrom f ns s
    walk f reached steps

/-- The nodes that are reached by one step. Positions in its predicates count from each node
anew. From a single node a forward axis is in document order as it is. -/
def stepFrom (f : Focus) (ns : List Node) : Step → Except Fault (List Node)
  | .mk a test predicates => do
    let found ← gather (fun n =>
      narrow f ((f.scope.axis a n).filter (f.scope.passes a test)) predicates) ns
    return if 1 < ns.length || a.isReverse then inOrder found else found

/-- The nodes that all predicates hold of. Each predicate counts what the ones before it left. -/
def narrow (f : Focus) (ns : List Node) : List Expr → Except Fault (List Node)
  | [] => .ok ns
  | p :: ps => do
    let kept ← keep (fun i n => do
      let v ← evaluate ⟨f.scope, n, i, ns.length⟩ p
      return holdsAt i v) 1 ns
    narrow f kept ps

end

/-- The value of an expression for a context node. -/
def Expr.value (e : Expr) (s : Scope) (context : Place) : Except Fault Result :=
  evaluate ⟨s, .tree context, 1, 1⟩ e

/-- The places of the nodes of a value. Attributes are left out. -/
def places (ns : List Node) : List Place :=
  ns.filterMap fun
    | .tree p => some p
    | .attribute .. => none

/-- The places that a query selects. Its text is for the message that it selects no nodes. -/
def Expr.select (e : Expr) (query : String) (s : Scope) (context : Place) :
    Except Fault (List Place) := do
  match ← e.value s context with
  | .nodes ns => return places ns
  | other =>
    throw (.type ("'" ++ query ++ "' evaluates to " ++ other.kind ++ " instead of a node-set"))

end MarkupTemplate.XPath
