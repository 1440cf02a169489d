import MarkupTemplate.Page
import MarkupTemplate.Repeat.Plan

/-!
# Working lists

Before anything is written into a document, the nodes that data goes to are put on a list of slots,
one for each piece of data.

* `WorkingList.named` — a slot for each selector, with all elements it finds.
* `WorkingList.ofChildren` — a slot for each child element; an element without one gets a copy of
  itself.
* `WorkingList.complete` — the list after copies were made until it is long enough.
* `WorkingList.populate` — the completed list for given targets;
  `WorkingList.populateShuffled` — the same for any outcome of a shuffle.
-/

namespace MarkupTemplate

/-- What a working list is made for. -/
inductive Targets where
  /-- A slot for each selector. -/
  | named (selectors : List String)
  /-- A slot for each of a number of items. -/
  | items (count : Nat)
deriving DecidableEq, Repr

/-- The number of slots that targets ask for. -/
def Targets.expected : Targets → Nat
  | .named selectors => selectors.length
  | .items count => count

/-- A list of slots, and how many there were before any copies were made for it. -/
structure WorkingList where
  slots : List (List NodeId)
  found : Nat
deriving DecidableEq, Repr

namespace WorkingList

/-- A list of slots that were found. -/
def ofSlots (slots : List (List NodeId)) : WorkingList :=
  ⟨slots, slots.length⟩

/-- A slot for each selector, with all elements that it finds. -/
def named (selectors : List String) (context : QueryContext) : Action Page WorkingList := do
  return ofSlots (← selectors.mapM fun s => Page.select s context)

/-- A slot for each child element of a node. An element without such children gets a copy of itself
as its only one. -/
def ofChildren (d : Document) (source : NodeId) : WorkingList × Document :=
  let children := d.elementChildren source
  if children.isEmpty && d.isElement source then
    match d.copy? source with
    | some (copy, d) => (ofSlots [[copy]], d.append source copy)
    | none => (ofSlots [], d)
  else (ofSlots (children.map fun c => [c]), d)

/-- A new node indented like the first node of its parent. -/
def indent (d : Document) (id : NodeId) : Document :=
  match (d.parent? id).bind fun parent => (d.children parent).head? with
  | none => d
  | some first =>
    match d.data? first with
    | none => d
    | some data =>
      if data.isBlankText then
        let (space, d) := d.adopt (.node data [])
        d.insertBefore id space
      else d

/-- A copy put into the document and into the list. -/
def place (list : WorkingList) (c : PlannedCopy) (source copy : NodeId) (d : Document) :
    WorkingList × Document :=
  match c.placement with
  | .afterSource =>
    ({ list with slots := list.slots.insertIdx (c.source + 1) [copy] }, d.insertAfter source copy)
  | .atEnd =>
    let anchor := (list.slots.reverse.findSome? List.getLast?).getD source
    ({ list with slots := list.slots ++ [[copy]] }, d.insertAfter anchor copy)

/-- The list after one planned copy. -/
def makeCopy (indented : Bool) (list : WorkingList) (c : PlannedCopy) :
    Action Page WorkingList := do
  let p ← get
  match (list.slots[c.source]?).bind List.head? with
  | none =>
    throw ⟨.document, "No node in slot " ++ toString c.source ++ " to copy from (" ++
      toString list.slots.length ++ " slots)"⟩
  | some source =>
    match p.document.copy? source with
    | none => throw ⟨.document, "Only elements and text can be copied into a list"⟩
    | some (copy, d) =>
      let (list, d) := list.place c source copy d
      set { p with document := if indented then indent d copy else d }
      return list

/-- The list after copies were made until it has the expected length. A list that is to be shuffled
is left in the order of the document. -/
def complete (list : WorkingList) (strategy : RepeatStrategy) (expected : Nat) (indented : Bool) :
    Action Page WorkingList :=
  (strategy.plan list.found expected).foldlM (makeCopy indented) list

/-- The list for targets before any copies are made for it. With `itself` its only slot is the
source, if there is one; without a source, targets are looked for in the whole document. -/
def start (targets : Targets) (source : Option NodeId) (itself : Bool) :
    Action Page WorkingList := do
  if itself then return ofSlots (source.toList.map fun id => [id])
  else
    match targets with
    | .named selectors =>
      named selectors (match source with
        | some id => .node id
        | none => .document)
    | .items _ =>
      let p ← get
      let (list, d) := ofChildren p.document (source.getD p.document.root)
      set { p with document := d }
      return list

/-- The list for targets. With a strategy it is brought to the number of targets. -/
def populate (targets : Targets) (source : Option NodeId) (strategy : Option RepeatStrategy)
    (itself indented : Bool) : Action Page WorkingList := do
  let list ← start targets source itself
  match strategy with
  | some strategy => list.complete strategy targets.expected indented
  | none => return list

/-- The list for targets after a shuffle, if the strategy asks for one. The outcome of the shuffle is
left to chance. -/
def populateShuffled (shuffle : List (List NodeId) → List (List NodeId)) (targets : Targets)
    (source : Option NodeId) (strategy : Option RepeatStrategy) (itself indented : Bool) :
    Action Page WorkingList := do
  let list ← populate targets source strategy itself indented
  return if strategy.any (·.shuffle) then { list with slots := shuffle list.slots } else list

end WorkingList

end MarkupTemplate
