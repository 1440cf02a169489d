import MarkupTemplate.Html.Node
import MarkupTemplate.XPath.Expr

/-!
# Nodes and axes

Where the nodes of a query are, and what lies on the axes from them.

* `Scope` — the document, and the tree of a context node that is not in it.
* `Place` — a tree and a path in it; `Node` — a place, or an attribute of the element there.
* `Scope.axis` — the nodes on an axis, nearest first.
* `Node.le`, `inOrder` — document order, and lists of nodes sorted by it without repetition.

Paths that are ascending in the lexicographic order lead to nodes in document order. Nodes outside
of the document come last, in no order among themselves.
-/

namespace MarkupTemplate.XPath

/-- The trees that the nodes of a query are in. -/
structure Scope where
  document : Markup
  /-- The tree of a context node that is not in the document. -/
  stray : Option Markup

/-- Where a node is. -/
structure Place where
  /-- Outside of the document. -/
  astray : Bool
  path : Path
deriving DecidableEq, Repr

/-- A node that a query selects: one of a tree, or an attribute of an element. -/
inductive Node where
  | tree (place : Place)
  | attribute (owner : Place) (index : Nat)
deriving DecidableEq, Repr

/-! ## Places -/

namespace Place

/-- The root of the document. -/
def root : Place :=
  ⟨false, []⟩

/-- A child by its index. -/
def child (p : Place) (i : Nat) : Place :=
  ⟨p.astray, p.path ++ [i]⟩

/-- The parent, unless the place is a root. -/
def parent? (p : Place) : Option Place :=
  if p.path.isEmpty then none else some ⟨p.astray, p.path.dropLast⟩

/-- The ancestors, nearest first. -/
def ancestors (p : Place) : List Place :=
  (List.range p.path.length).reverse.map fun n => ⟨p.astray, p.path.take n⟩

/-- The siblings before a place, nearest first. -/
def earlierSiblings (p : Place) : List Place :=
  match p.path.getLast? with
  | some i => (List.range i).reverse.map fun j => ⟨p.astray, p.path.dropLast ++ [j]⟩
  | none => []

end Place

namespace Scope

/-- The tree at a place. -/
def at? (s : Scope) (p : Place) : Option Markup :=
  if p.astray then s.stray.bind (Tree.at? p.path) else Tree.at? p.path s.document

/-- What the node at a place holds. -/
def data? (s : Scope) (p : Place) : Option NodeData :=
  (s.at? p).map Tree.label

/-- The number of children of a node. -/
def childCount (s : Scope) (p : Place) : Nat :=
  match s.at? p with
  | some t => t.children.length
  | none => 0

/-- The children of a node in order. -/
def children (s : Scope) (p : Place) : List Place :=
  (List.range (s.childCount p)).map p.child

/-- A node and all below it in document order. -/
def preorder (s : Scope) (p : Place) : List Place :=
  match s.at? p with
  | some t => t.paths.map fun q => ⟨p.astray, p.path ++ q⟩
  | none => []

/-- The siblings after a place in order. -/
def laterSiblings (s : Scope) (p : Place) : List Place :=
  match p.path.getLast? with
  | some i =>
    let parent : Place := ⟨p.astray, p.path.dropLast⟩
    (s.children parent).drop (i + 1)
  | none => []

/-- Everything after a node that is not below it, in order. -/
def following (s : Scope) (p : Place) : List Place :=
  (p :: p.ancestors).flatMap fun q => (s.laterSiblings q).flatMap s.preorder

/-- Everything of the document before a node that is not above it, nearest first. -/
def preceding (s : Scope) (p : Place) : List Place :=
  let before := (s.preorder .root).takeWhile fun q => q != p
  (before.filter fun q => !p.ancestors.contains q).reverse

/-! ## Nodes -/

/-- The attributes of the element at a place. -/
def attributes (s : Scope) (p : Place) : List Attribute :=
  match s.data? p with
  | some d => d.attributes
  | none => []

/-- The text of a node: of everything below it, or the value of an attribute. -/
def text (s : Scope) : Node → String
  | .tree p =>
    match s.at? p with
    | some t => t.text
    | none => ""
  | .attribute p i =>
    match (s.attributes p)[i]? with
    | some a => a.value
    | none => ""

/-- The name of an element or an attribute; other nodes have none. -/
def name (s : Scope) : Node → String
  | .tree p =>
    match s.data? p with
    | some d => d.elementName
    | none => ""
  | .attribute p i =>
    match (s.attributes p)[i]? with
    | some a => a.name
    | none => ""

/-- What lies on an axis from a node of a tree, nearest first. -/
def treeAxis (s : Scope) (p : Place) : Axis → List Node
  | .child => (s.children p).map .tree
  | .descendant => ((s.preorder p).drop 1).map .tree
  | .descendantOrSelf => (s.preorder p).map .tree
  | .attribute => (List.range (s.attributes p).length).map (.attribute p)
  | .parent => p.parent?.toList.map .tree
  | .ancestor => p.ancestors.map .tree
  | .ancestorOrSelf => (p :: p.ancestors).map .tree
  | .self => [.tree p]
  | .followingSibling => (s.laterSiblings p).map .tree
  | .precedingSibling => p.earlierSiblings.map .tree
  | .following => (s.following p).map .tree
  | .preceding => (s.preceding p).map .tree

/-- What lies on an axis from an attribute, nearest first. Its owner is its parent, and what is
below the owner follows it. -/
def attributeAxis (s : Scope) (owner : Place) (index : Nat) : Axis → List Node
  | .self => [.attribute owner index]
  | .parent => [.tree owner]
  | .ancestor => .tree owner :: owner.ancestors.map .tree
  | .ancestorOrSelf => .attribute owner index :: .tree owner :: owner.ancestors.map .tree
  | .following => ((s.preorder owner).drop 1).map .tree ++ (s.following owner).map .tree
  | .preceding => (s.preceding owner).map .tree
  | _ => []

/-- What lies on an axis from a node, nearest first. -/
def axis (s : Scope) (a : Axis) : Node → List Node
  | .tree p => s.treeAxis p a
  | .attribute owner index => s.attributeAxis owner index a

/-- Equality of names: the case of ASCII letters does not count. -/
def sameName (a b : String) : Bool :=
  Text.sameLetters a.toList b.toList

/-- Whether a node on an axis passes a test. Names and the star stand for attributes on the
attribute axis, and for elements on all others. -/
def passes (s : Scope) (a : Axis) (test : NodeTest) (n : Node) : Bool :=
  match test, n with
  | .node, _ => true
  | .any, .attribute .. => a = .attribute
  | .name name, .attribute .. => a = .attribute && sameName (s.name n) name
  | .any, .tree p => a != .attribute && ((s.data? p).map NodeData.isElement).getD false
  | .name name, .tree p =>
    a != .attribute && ((s.data? p).map NodeData.isElement).getD false &&
      sameName (s.name n) name
  | .text, .tree p => ((s.data? p).map NodeData.isText).getD false
  | .comment, .tree p => ((s.data? p).map NodeData.isComment).getD false
  | .text, .attribute .. | .comment, .attribute .. => false

end Scope

/-! ## Document order -/

namespace Node

/-- The place of a node or of the owner of an attribute. -/
def place : Node → Place
  | .tree p => p
  | .attribute owner _ => owner

/-- The rank at a place: the node itself, and then its attributes in order. -/
def slot : Node → Nat
  | .tree _ => 0
  | .attribute _ index => index + 1

/-- Document order. Nodes outside of the document come last. -/
def le (a b : Node) : Bool :=
  match a.place.astray, b.place.astray with
  | false, true => true
  | true, false => false
  | true, true => a.slot ≤ b.slot
  | false, false =>
    if a.place.path = b.place.path then a.slot ≤ b.slot else decide (a.place.path < b.place.path)

end Node

/-- The list without nodes that repeat the one before them. -/
def distinct : List Node → List Node
  | [] => []
  | a :: rest =>
    match distinct rest with
    | [] => [a]
    | b :: kept => if a = b then b :: kept else a :: b :: kept

/-- The nodes in document order, each once. -/
def inOrder (ns : List Node) : List Node :=
  distinct (ns.mergeSort Node.le)

end MarkupTemplate.XPath
