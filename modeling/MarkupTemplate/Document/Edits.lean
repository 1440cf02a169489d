import MarkupTemplate.Choices
import MarkupTemplate.Document.Reading
import MarkupTemplate.Html.Copying

/-!
# Editing documents

* `Document.detach`, `Document.append`, `Document.insertBefore`, `Document.insertAfter` — move
  nodes.
* `Document.clear`, `Document.unwrap`, `Document.rename` — change elements.
* `Document.copy` — make a copy of a node.
* `Document.insertText`, `Document.insertMarkup` — put new nodes into an element.
* `Document.mergeAttribute` — set or extend an attribute.

A node that leaves its place stays known, outside of the document. The roots outside of the document
are treated as if they were siblings.
-/

namespace MarkupTemplate.Document

/-! ## Moving nodes -/

/-- The document with nodes other than its root replaced by lists of nodes. -/
def splice (d : Document) (id : NodeId) (f : Tree Entry → List (Tree Entry)) : Document :=
  { d with
    tree := d.tree.splice (hasId id) f
    strays := Tree.spliceList (hasId id) f d.strays }

/-- The document with one node changed. -/
def update (d : Document) (id : NodeId) (f : Tree Entry → Tree Entry) : Document :=
  { d with
    tree := d.tree.update (hasId id) f
    strays := Tree.updateList (hasId id) f d.strays }

/-- A node other than the root, and the document without it. -/
def take? (d : Document) (id : NodeId) : Option (Tree Entry × Document) :=
  if id = d.root then none else (d.find? id).map fun t => (t, d.splice id fun _ => [])

/-- The document with a node taken out of its tree. -/
def detach (d : Document) (id : NodeId) : Document :=
  match d.take? id with
  | some (t, d) => { d with strays := t :: d.strays }
  | none => d

/-- A node moved to the end of the children of another one. -/
def append (d : Document) (parent child : NodeId) : Document :=
  match d.take? child with
  | some (t, d) => d.update parent fun p => p.withChildren (p.children ++ [t])
  | none => d

/-- A node moved to the place right before another one. -/
def insertBefore (d : Document) (anchor moved : NodeId) : Document :=
  if anchor = moved then d.detach moved
  else
    match d.take? moved with
    | some (t, d) => d.splice anchor fun a => [t, a]
    | none => d

/-- A node moved to the place right after another one. Nothing can be put after a root. -/
def insertAfter (d : Document) (anchor moved : NodeId) : Document :=
  match d.nextSibling? anchor, d.parent? anchor with
  | some next, _ => d.insertBefore next moved
  | none, some parent => d.append parent moved
  | none, none => d

/-- The document with all children of a node taken out. -/
def clear (d : Document) (id : NodeId) : Document :=
  (d.children id).foldl detach d

/-! ## New nodes -/

/-- A new node outside of the document, and its identity. -/
def adopt (d : Document) (m : Markup) : NodeId × Document :=
  let (t, next) := Markup.numbered d.nextId m
  (d.nextId, { d with strays := t :: d.strays, nextId := next })

/-- A copy of a node, if it can be copied. -/
def copy? (d : Document) (id : NodeId) : Option (NodeId × Document) :=
  ((d.markupOf? id).bind Markup.copied?).map d.adopt

/-- Nodes put into an element: in place of its children, before them or after them. -/
def insertNodes (d : Document) (target : NodeId) (nodes : List NodeId) (mode : InsertMode) :
    Document :=
  match mode with
  | .replace => nodes.foldl (fun d n => d.append target n) (d.clear target)
  | .append => nodes.foldl (fun d n => d.append target n) d
  | .prepend =>
    match (d.children target).head? with
    | some first => nodes.foldl (fun d n => d.insertBefore first n) d
    | none => nodes.foldl (fun d n => d.append target n) d

/-- A text put into an element. -/
def insertText (d : Document) (target : NodeId) (text : String) (mode : InsertMode) : Document :=
  let (id, d) := d.adopt (.node (.text text) [])
  d.insertNodes target [id] mode

/-! ## New markup -/

/-- The elements that have to be around the content of an element for it to be read as what it
is. -/
def contextChain (tag : String) : List String :=
  if tag = "table" then ["table"]
  else if ["thead", "tbody", "tfoot", "colgroup"].contains tag then ["table", tag]
  else if tag = "tr" then ["table", "tbody", "tr"]
  else []

/-- A text inside of the tags of a chain of elements. -/
def wrapped (chain : List String) (text : String) : String :=
  String.join (chain.map fun name => "<" ++ name ++ ">") ++ text ++
    String.join (chain.reverse.map fun name => "</" ++ name ++ ">")

/-- The nodes inside of a chain of elements, each the first of its tag. Nodes that have moved out of
an element of the chain come before what is inside of it. -/
def insideChain : List String → List (Tree Entry) → List (Tree Entry)
  | [], ts => ts
  | tag :: chain, ts =>
    match ts.findIdx? fun t => t.label.data.tag? = some tag with
    | none => ts
    | some i =>
      match ts[i]? with
      | none => ts
      | some t => ts.eraseIdx i ++ insideChain chain t.children

/-- Markup put into an element, read as content of the element. It is read into an element of its
own first, from which its nodes are moved. -/
def insertMarkup (d : Document) (target : NodeId) (text : String) (mode : InsertMode) : Document :=
  let chain := contextChain ((d.tag? target).getD "")
  let (holder, d) := d.adopt (.node (.element ⟨.unknown, "div"⟩ []) [])
  let (ids, d) := d.graft (wrapped chain text)
  let d := ids.foldl (fun d n => d.append holder n) d
  let held := ((d.find? holder).map Tree.children).getD []
  d.insertNodes target ((insideChain chain held).map fun t => t.label.id) mode

/-! ## Elements -/

/-- The document with the attributes of an element changed. -/
def mapAttributes (d : Document) (id : NodeId) (f : List Attribute → List Attribute) : Document :=
  d.update id fun t => .node { t.label with data := t.label.data.mapAttributes f } t.children

/-- An attribute set. -/
def setAttribute (d : Document) (id : NodeId) (name value : String) : Document :=
  d.mapAttributes id (Attributes.set name value)

/-- An attribute removed. -/
def eraseAttribute (d : Document) (id : NodeId) (name : String) : Document :=
  d.mapAttributes id (Attributes.erase name)

/-- The value of an attribute that had the value `old` and gets another one: in its place, before it
or after it, with a space between them and none around them. -/
def mergedValue (old : Option String) (value : String) (mode : InsertMode) : String :=
  let old := old.getD ""
  trimmed (match mode with
    | .replace => value
    | .prepend => if old.isEmpty then value else value ++ " " ++ old
    | .append => if old.isEmpty then value else old ++ " " ++ value)

/-- An attribute set, or extended at one of its ends. -/
def mergeAttribute (d : Document) (id : NodeId) (name value : String) (mode : InsertMode) :
    Document :=
  d.setAttribute id name (mergedValue (d.attribute? id name) value mode)

/-- The document with a plain attribute removed from all its elements. -/
def stripAttribute (d : Document) (name : String) : Document :=
  { d with tree := d.tree.map fun e =>
      { e with data := e.data.mapAttributes (Attributes.strip name) } }

/-- An element replaced by one with another name, with plain copies of its attributes and with its
children. The new element is a node of its own. -/
def rename (d : Document) (id : NodeId) (name : String) : NodeId × Document :=
  let renamed := d.nextId
  let replaced := { d with nextId := renamed + 1 }.splice id fun t =>
    let data : NodeData := .element ⟨.unknown, name⟩ (Attributes.plain t.label.data.attributes)
    [.node ⟨renamed, data, none⟩ t.children, t.withChildren []]
  (renamed, replaced.detach id)

/-- An element replaced by its children. -/
def unwrap (d : Document) (id : NodeId) : Document :=
  (d.splice id fun t => t.children ++ [t.withChildren []]).detach id

end MarkupTemplate.Document
