import MarkupTemplate.Document.Basic
import MarkupTemplate.Html.Reading

/-!
# Reading documents

* `Document.ofHtml` — the document that a text stands for.
* `Document.graft` — the nodes that a text stands for as content of a body, beside a document.

Nodes get their identities in the order in which reading makes them. That includes nodes that end up
in no tree, and those that the content of templates hangs on.
-/

namespace MarkupTemplate.Document

open Html (Construction)

/-- A node of a construction. -/
def entryOf (s : Construction) (n : Nat) : Entry :=
  ⟨n, s.dataOf n, s.contentsOf n⟩

/-- The tree below a node of a construction. -/
def treeOf (s : Construction) (n : Nat) : Tree Entry :=
  (s.treeAt n).map (entryOf s)

/-- The nodes of a construction from a number on that are below none of these. -/
def topmost (s : Construction) (first : Nat) : List Nat :=
  (List.range s.nodes.size).filter fun n =>
    first ≤ n && ((s.parentOf n).map fun p => decide (p < first)).getD true

/-- The document that was constructed. -/
def ofConstruction (s : Construction) : Document where
  tree := treeOf s Html.documentNode
  strays := ((topmost s 0).filter fun n => n != Html.documentNode).map (treeOf s)
  nextId := s.nodes.size

/-- The document that a text stands for. -/
def ofHtml (text : String) : Document :=
  ofConstruction (.ofDocument text)

/-- The first node of a fragment and the siblings after it. What was misplaced in a table and has
moved in front of the first node is not among them. If the fragment begins with a template, the
first node is the one that its content hangs on, which has no siblings. -/
def fragmentNodes (s : Construction) : List Nat :=
  match s.parentOf Html.fragmentStart with
  | some p => (s.childrenOf p).toList.dropWhile fun n => n != Html.fragmentStart
  | none => if Html.fragmentStart < s.nodes.size then [Html.fragmentStart] else []

/-- The nodes that a text stands for as content of a body, put beside a document. The identities go
on from those of the document. What a template says about its content is not changed: it names the
identity that the content had in the fragment, whatever node has it in the document. -/
def graft (d : Document) (text : String) : List NodeId × Document :=
  let s := Construction.ofFragment text
  let moved (n : Nat) : NodeId := n - Html.fragmentStart + d.nextId
  let trees := (topmost s Html.fragmentStart).map fun n =>
    (treeOf s n).map fun e => { e with id := moved e.id }
  ((fragmentNodes s).map moved,
    { d with
      strays := trees ++ d.strays
      nextId := moved s.nodes.size })

end MarkupTemplate.Document
