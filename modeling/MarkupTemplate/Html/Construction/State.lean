import MarkupTemplate.Html.Node
import MarkupTemplate.Html.Token

/-!
# A tree under construction

The state in which tokens become a tree. Nodes are numbered in the order in which they are made,
because open elements, formatting elements and misplaced content refer to nodes from several sides.

* `Construction` — the nodes so far, the open elements and the insertion mode.
* `Build` — a step that changes a construction.
* `appendTo`, `insertBefore`, `detach` — the moves of nodes.
* `Construction.treeAt` — the tree of numbers below a node.
-/

namespace MarkupTemplate.Html

/-- The rules by which the next token is taken. -/
inductive InsertionMode where
  | initial
  | beforeHtml
  | beforeHead
  | inHead
  | inHeadNoscript
  | afterHead
  | inBody
  | text
  | inTable
  | inTableText
  | inCaption
  | inColumnGroup
  | inTableBody
  | inRow
  | inCell
  | inSelect
  | inSelectInTable
  | inTemplate
  | afterBody
  | inFrameset
  | afterFrameset
  | afterAfterBody
  | afterAfterFrameset
deriving DecidableEq, Repr

/-- A node under construction. The content of a template hangs on a node of its own. -/
structure BuildNode where
  data : NodeData
  parent : Option Nat
  children : Array Nat
  contents : Option Nat

/-- An entry of the list of formatting elements, which are reopened when their parents end. -/
inductive Formatting where
  /-- Entries before a marker are out of reach. -/
  | marker
  | element (node : Nat) (tag : Tag)

/-- A tree under construction. -/
structure Construction where
  /-- The nodes by number; the document node is the first. -/
  nodes : Array BuildNode
  mode : InsertionMode
  /-- The mode to go back to after raw text or the text of a table. -/
  originalMode : InsertionMode
  /-- The modes of the open templates, innermost first. -/
  templateModes : List InsertionMode
  /-- The open elements, innermost first. -/
  stack : List Nat
  /-- The formatting elements, newest first. -/
  formatting : List Formatting
  head : Option Nat
  form : Option Nat
  framesetOk : Bool
  /-- The document follows the old layout rules. -/
  oldLayout : Bool
  /-- Content is being moved in front of the table it was found in. -/
  fostering : Bool
  /-- The characters found directly in a table, newest first. -/
  tableText : List Char
  /-- A line feed at this place does not count. -/
  skipLineFeed : Bool
  /-- How the text after the current token is read. -/
  textMode : TextMode
  /-- A fragment is read, as the content of a body. -/
  fragment : Bool

/-- A construction that holds only the document node. -/
def Construction.empty : Construction where
  nodes := #[⟨.document, none, #[], none⟩]
  mode := .initial
  originalMode := .initial
  templateModes := []
  stack := []
  formatting := []
  head := none
  form := none
  framesetOk := true
  oldLayout := false
  fostering := false
  tableText := []
  skipLineFeed := false
  textMode := .data
  fragment := false

/-- A step of a construction. -/
abbrev Build := StateM Construction

/-- The number of the document node. -/
def documentNode : Nat := 0

/-! ## Nodes -/

/-- What a node holds. -/
def Construction.dataOf (s : Construction) (n : Nat) : NodeData :=
  match s.nodes[n]? with
  | some node => node.data
  | none => .document

/-- The name of an element. -/
def Construction.nameOf (s : Construction) (n : Nat) : ElementName :=
  match s.dataOf n with
  | .element name _ => name
  | _ => ⟨.html, ""⟩

/-- The parent of a node. -/
def Construction.parentOf (s : Construction) (n : Nat) : Option Nat :=
  (s.nodes[n]?).bind BuildNode.parent

/-- The children of a node. -/
def Construction.childrenOf (s : Construction) (n : Nat) : Array Nat :=
  match s.nodes[n]? with
  | some node => node.children
  | none => #[]

/-- The node that holds the content of a template. -/
def Construction.contentsOf (s : Construction) (n : Nat) : Option Nat :=
  (s.nodes[n]?).bind BuildNode.contents

/-- Change a node. -/
def modifyNode (n : Nat) (f : BuildNode → BuildNode) : Build Unit :=
  modify fun s => { s with nodes := s.nodes.modify n f }

/-- A new node outside of the tree. -/
def create (data : NodeData) : Build Nat := do
  let n := (← get).nodes.size
  modify fun s => { s with nodes := s.nodes.push ⟨data, none, #[], none⟩ }
  return n

/-- A new element outside of the tree. For a template, a node for its content is made first. -/
def createElement (name : ElementName) (attributes : List Attribute) : Build Nat := do
  if name.isOneOf ["template"] then
    let contents ← create .document
    let n ← create (.element name attributes)
    modifyNode n fun node => { node with contents := some contents }
    return n
  else create (.element name attributes)

/-- Take a node away from its parent. -/
def detach (n : Nat) : Build Unit := do
  match (← get).parentOf n with
  | none => return
  | some p =>
    modifyNode p fun node => { node with children := node.children.filter (· != n) }
    modifyNode n fun node => { node with parent := none }

/-- Make a node the last child of another. -/
def appendTo (p n : Nat) : Build Unit := do
  detach n
  modifyNode p fun node => { node with children := node.children.push n }
  modifyNode n fun node => { node with parent := some p }

/-- Make a node the sibling right before another, which has a parent. -/
def insertBefore (sibling n : Nat) : Build Unit := do
  detach n
  match (← get).parentOf sibling with
  | none => return
  | some p =>
    modifyNode p fun node =>
      { node with
        children := node.children.flatMap fun c => if c = sibling then #[n, c] else #[c] }
    modifyNode n fun node => { node with parent := some p }

/-- Where new content goes. -/
inductive Place where
  | inside (parent : Nat)
  | before (sibling : Nat)

/-- Put a node into its place. -/
def Place.insert (place : Place) (n : Nat) : Build Unit :=
  match place with
  | .inside p => appendTo p n
  | .before sibling => insertBefore sibling n

/-- The node right before a place. -/
def Place.neighbour (place : Place) (s : Construction) : Option Nat :=
  match place with
  | .inside p => (s.childrenOf p).back?
  | .before sibling =>
    match s.parentOf sibling with
    | none => none
    | some p => ((s.childrenOf p).toList.takeWhile (· != sibling)).getLast?

/-- Put a character into its place. It joins a text that stands right before it. -/
def Place.insertChar (place : Place) (c : Char) : Build Unit := do
  let s ← get
  match place.neighbour s with
  | some n =>
    match s.dataOf n with
    | .text content => modifyNode n fun node => { node with data := .text (content.push c) }
    | _ => place.insert (← create (.text (String.singleton c)))
  | none => place.insert (← create (.text (String.singleton c)))

/-! ## The finished tree -/

/-- The numbers of the nodes below a node, to a depth. -/
def Construction.treeTo (s : Construction) : Nat → Nat → Tree Nat
  | 0, n => .node n []
  | depth + 1, n => .node n ((s.childrenOf n).toList.map (s.treeTo depth))

/-- The numbers of the nodes below a node. The number of nodes bounds the depth. -/
def Construction.treeAt (s : Construction) (n : Nat) : Tree Nat :=
  s.treeTo s.nodes.size n

end MarkupTemplate.Html
