import MarkupTemplate.Html.NodePath
import MarkupTemplate.Html.Serialization
import MarkupTemplate.XPath.Place

/-!
# Documents

A document whose nodes have an identity, so that a node can be followed through edits.

* `Document` — the tree, and the trees beside it: new nodes, removed ones, the content of templates.
* `Document.ofMarkup`, `Document.markup` — to and from trees without identity.
* `Document.home?` — the tree that a node is in, and its path there.
* `Document.isAttached` — whether a node is below a document node.
* `Document.written` — a tree as it is written, with the content of its templates. Without templates
  nothing is added (`written_eq_plain`).
-/

namespace MarkupTemplate

/-- The identity of a node. -/
abbrev NodeId := Nat

/-- A node: its identity and what it holds. -/
structure Entry where
  id : NodeId
  data : NodeData
  /-- For a template, the node that its content hangs on. -/
  content : Option NodeId
deriving DecidableEq, Repr

/-- A document and the nodes beside it. -/
structure Document where
  tree : Tree Entry
  /-- Trees that are not in the document. Their order does not count. -/
  strays : List (Tree Entry)
  /-- The next identity to give. -/
  nextId : NodeId

mutual

/-- The nodes of a tree with identities from `next` on, in document order, and the identity after
the last one. -/
def Markup.numbered (next : NodeId) : Markup → Tree Entry × NodeId
  | .node data ts =>
    let (children, after) := Markup.numberedList (next + 1) ts
    (.node ⟨next, data, none⟩ children, after)

/-- The same for several trees. -/
def Markup.numberedList (next : NodeId) : List Markup → List (Tree Entry) × NodeId
  | [] => ([], next)
  | t :: ts =>
    let (first, next) := Markup.numbered next t
    let (rest, next) := Markup.numberedList next ts
    (first :: rest, next)

end

namespace Document

/-- The document of a tree. -/
def ofMarkup (m : Markup) : Document :=
  let (tree, next) := Markup.numbered 0 m
  ⟨tree, [], next⟩

/-- A tree without the identities of its nodes. -/
def plain (t : Tree Entry) : Markup :=
  t.map Entry.data

/-- The tree of a document without identities. -/
def markup (d : Document) : Markup :=
  plain d.tree

/-- Whether an entry is the one with an identity. -/
def hasId (id : NodeId) (e : Entry) : Bool :=
  e.id == id

/-! ## Nodes -/

/-- The root of the document. -/
def root (d : Document) : NodeId :=
  d.tree.label.id

/-- The tree that a node is in, and its path there. -/
def home? (d : Document) (id : NodeId) : Option (Tree Entry × Path) :=
  (d.tree :: d.strays).findSome? fun t => (t.pathTo? (hasId id)).map fun p => (t, p)

/-- The node with all below it. -/
def find? (d : Document) (id : NodeId) : Option (Tree Entry) :=
  Tree.findList? (hasId id) (d.tree :: d.strays)

/-- The node with all below it, without identities. -/
def markupOf? (d : Document) (id : NodeId) : Option Markup :=
  (d.find? id).map plain

/-- What a node holds. -/
def data? (d : Document) (id : NodeId) : Option NodeData :=
  (d.find? id).map fun t => t.label.data

/-- The children of a node. -/
def children (d : Document) (id : NodeId) : List NodeId :=
  match d.find? id with
  | some t => t.children.map fun c => c.label.id
  | none => []

/-- The parent of a node, unless the node is a root. -/
def parent? (d : Document) (id : NodeId) : Option NodeId :=
  match d.home? id with
  | some (t, p) => if p.isEmpty then none else (t.at? p.dropLast).map fun t => t.label.id
  | none => none

/-- The sibling right after a node. -/
def nextSibling? (d : Document) (id : NodeId) : Option NodeId :=
  match d.parent? id with
  | some parent => ((d.children parent).dropWhile (· != id))[1]?
  | none => none

/-- The node is an element. -/
def isElement (d : Document) (id : NodeId) : Bool :=
  ((d.data? id).map NodeData.isElement).getD false

/-- The tag of an element, in lower case. -/
def tag? (d : Document) (id : NodeId) : Option String :=
  (d.data? id).bind NodeData.tag?

/-- The value of an attribute. -/
def attribute? (d : Document) (id : NodeId) (name : String) : Option String :=
  (d.data? id).bind (NodeData.attribute? name)

/-- The children that are elements. -/
def elementChildren (d : Document) (id : NodeId) : List NodeId :=
  (d.children id).filter d.isElement

/-- A document node is on the way from the root of a tree to the end of a path, which does not count
itself. -/
def passesDocument : Path → Tree Entry → Bool
  | [], _ => false
  | i :: p, t =>
    t.label.data.isDocument || ((t.children[i]?).map (passesDocument p)).getD false

/-- The node is below a document node: the root of the document, or the node that the content of a
template hangs on. -/
def isAttached (d : Document) (id : NodeId) : Bool :=
  ((d.home? id).map fun (t, p) => passesDocument p t).getD false

/-! ## Writing -/

mutual

/-- A tree with what `content` gives for its templates put before their children. -/
def filledIn (content : NodeId → List Markup) : Tree Entry → Markup
  | .node e ts => .node e.data ((e.content.map content).getD [] ++ filledInList content ts)

/-- The same for several trees. -/
def filledInList (content : NodeId → List Markup) : List (Tree Entry) → List Markup
  | [] => []
  | t :: ts => filledIn content t :: filledInList content ts

end

/-- The content of a template as it is written, by the node that it hangs on. The templates in it
are filled in as well, to a depth, and except with what the template itself is inside of. -/
def contentAt (d : Document) : Nat → List NodeId → NodeId → List Markup
  | 0, _, _ => []
  | depth + 1, around, id =>
    if around.contains id then []
    else ((d.find? id).map (filledIn (d.contentAt depth (id :: around)))).toList

/-- A tree as it is written. The number of nodes bounds the depth of templates in templates. -/
def written (d : Document) (t : Tree Entry) : Markup :=
  filledIn (d.contentAt d.nextId []) t

/-- The document as HTML. -/
def html (d : Document) : String :=
  (d.written d.tree).html

/-- A node as HTML. -/
def nodeHtml (d : Document) (id : NodeId) : String :=
  ((d.find? id).map fun t => (d.written t).html).getD ""

/-- The children of a node as HTML. -/
def contentHtml (d : Document) (id : NodeId) : String :=
  ((d.find? id).map fun t => Markup.htmlOfAll (t.children.map d.written)).getD ""

/-- The location path of a node. -/
def nodePath (d : Document) (id : NodeId) : String :=
  match d.home? id with
  | some (t, p) => (plain t).nodePath p
  | none => "/"

/-! ## Places -/

/-- The trees that a query from a node may see, and the place of the node in them. -/
def scopeOf (d : Document) (id : NodeId) : XPath.Scope × XPath.Place :=
  match d.tree.pathTo? (hasId id) with
  | some p => (⟨d.markup, none⟩, ⟨false, p⟩)
  | none =>
    match d.home? id with
    | some (t, p) => (⟨d.markup, some (plain t)⟩, ⟨true, p⟩)
    | none => (⟨d.markup, none⟩, .root)

/-- The node at a place that a query from the node `context` has found. -/
def idAt? (d : Document) (context : NodeId) (p : XPath.Place) : Option NodeId :=
  let tree := if p.astray then (d.home? context).map Prod.fst else some d.tree
  (tree.bind (Tree.at? p.path)).map fun t => t.label.id

end Document

mutual

/-- Numbering changes nothing but identities. -/
theorem plain_numbered (next : NodeId) (m : Markup) :
    Document.plain (Markup.numbered next m).1 = m := by
  cases m with
  | node data ts =>
    simp only [Markup.numbered, Document.plain, Tree.map]
    rw [plain_numberedList]

/-- The same for several trees. -/
theorem plain_numberedList (next : NodeId) (ts : List Markup) :
    Tree.mapList Entry.data (Markup.numberedList next ts).1 = ts := by
  cases ts with
  | nil => simp [Markup.numberedList, Tree.mapList]
  | cons t ts =>
    simp only [Markup.numberedList, Tree.mapList]
    rw [plain_numberedList]
    have h := plain_numbered next t
    simp only [Document.plain] at h
    rw [h]

end

mutual

/-- Filling in a tree without templates changes nothing but identities. -/
theorem Document.filledIn_eq_plain (content : NodeId → List Markup) (t : Tree Entry)
    (h : ∀ e ∈ t.labels, e.content = none) : Document.filledIn content t = Document.plain t := by
  cases t with
  | node e ts =>
    have he : e.content = none := h e (by simp [Tree.labels])
    have hts : ∀ a ∈ Tree.labelsList ts, a.content = none := fun a ha =>
      h a (by simp [Tree.labels, ha])
    simp [Document.filledIn, Document.plain, Tree.map, he, filledInList_eq_plain content ts hts]

/-- The same for several trees. -/
theorem Document.filledInList_eq_plain (content : NodeId → List Markup) (ts : List (Tree Entry))
    (h : ∀ e ∈ Tree.labelsList ts, e.content = none) :
    Document.filledInList content ts = Tree.mapList Entry.data ts := by
  cases ts with
  | nil => simp [Document.filledInList, Tree.mapList]
  | cons t ts =>
    have ht : ∀ e ∈ t.labels, e.content = none := fun e he =>
      h e (by simp [Tree.labelsList, he])
    have hts : ∀ e ∈ Tree.labelsList ts, e.content = none := fun e he =>
      h e (by simp [Tree.labelsList, he])
    have first := Document.filledIn_eq_plain content t ht
    simp only [Document.plain] at first
    simp [Document.filledInList, Tree.mapList, first, filledInList_eq_plain content ts hts]

end

/-- A tree without templates is written as what it is. -/
theorem Document.written_eq_plain (d : Document) (t : Tree Entry)
    (h : ∀ e ∈ t.labels, e.content = none) : d.written t = Document.plain t :=
  Document.filledIn_eq_plain _ t h

/-- A document that was made of a tree is that tree. -/
theorem Document.markup_ofMarkup (m : Markup) : (Document.ofMarkup m).markup = m := by
  simp [Document.ofMarkup, Document.markup, plain_numbered]

end MarkupTemplate
