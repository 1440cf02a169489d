import MarkupTemplate.Document.Edits
import MarkupTemplate.Selector.Compiled
import MarkupTemplate.XPath.Evaluation

/-!
# Pages

A document together with the queries that are run on it.

* `Page.select` — the elements that a selector finds, from the document or within contexts.
* `Page.log` — the queries that were run, with the numbers of their matches.

Elements that are marked as settled are never found. Queries that fail are not logged.
-/

namespace MarkupTemplate

/-- Work that may fail. Changes made before a failure stay. -/
abbrev Action (σ : Type) := ExceptT Error (StateM σ)

/-- Run work from a state. -/
def Action.runFrom {σ α : Type} (action : Action σ α) (s : σ) : Except Error α × σ :=
  action.run.run s

/-- Work on one part of a larger state. -/
def Action.on {σ τ α : Type} (part : τ → σ) (replace : τ → σ → τ) (action : Action σ α) :
    Action τ α := do
  let s ← get
  let (result, changed) := action.runFrom (part s)
  set (replace s changed)
  match result with
  | .ok a => return a
  | .error e => throw e

/-- The mark of elements that are settled. -/
def settledMark : String :=
  "data-tpl-no_parse"

/-- Where a query starts. -/
inductive QueryContext where
  /-- At the root of the document. -/
  | document
  /-- At a node. -/
  | node (id : NodeId)
  /-- At the nodes of location paths, which are written with bars between them. -/
  | paths (paths : String)

/-- A query that was run, and how many elements it found. -/
structure QueryRecord where
  query : String
  count : Nat
deriving DecidableEq, Repr

/-- A record as text. -/
def QueryRecord.text (r : QueryRecord) : String :=
  ">> " ++ r.query ++ " -> (" ++ toString r.count ++ ")"

/-- A document and the queries that were run on it. -/
structure Page where
  document : Document
  grammar : Grammar
  log : List QueryRecord

namespace Page

/-- The page of a text of HTML. -/
def ofHtml (html : String) (grammar : Grammar) : Page :=
  ⟨Document.ofHtml html, grammar, []⟩

/-- The page with another document in place of its own. The log goes on. -/
def reload (p : Page) (html : String) : Page :=
  { p with document := Document.ofHtml html }

/-- The location paths in a text. -/
def contextPaths (paths : String) : List String :=
  ((Text.splitOn '|' paths.toList).map Text.trim).filterMap fun path =>
    if path.isEmpty then none else some (String.ofList path)

/-- The query of a selector from a context. -/
def query (s : Selector) : QueryContext → String
  | .document => s.expression
  | .node _ => s.within ["."]
  | .paths paths => s.within (contextPaths paths)

/-- The query as it is logged: from a node it starts with the location path of the node. -/
def loggedQuery (p : Page) (s : Selector) : QueryContext → String
  | .node id => s.within [p.document.nodePath id]
  | context => query s context

/-- The node that a query from a context is evaluated for. -/
def contextNode (p : Page) : QueryContext → NodeId
  | .node id => id
  | _ => p.document.root

/-- An element that is not settled. -/
def isOpen (d : Document) (id : NodeId) : Bool :=
  d.isElement id && (d.attribute? id settledMark).isNone

/-- A fault of a query as an error. -/
def queryError (f : XPath.Fault) : Error :=
  ⟨.selector, f.message⟩

/-- The nodes that a query from a node selects. -/
def nodesAt (d : Document) (context : NodeId) (query : String) :
    Except XPath.Fault (List NodeId) := do
  let e ← XPath.Expr.read query
  let (scope, place) := d.scopeOf context
  let places ← e.select query scope place
  return places.filterMap (d.idAt? context)

/-- The elements that a selector finds. -/
def selectCompiled (s : Selector) (context : QueryContext) : Action Page (List NodeId) := do
  let p ← get
  match nodesAt p.document (p.contextNode context) (query s context) with
  | .error f => throw (queryError f)
  | .ok nodes =>
    let ids := nodes.filter (isOpen p.document)
    let record : QueryRecord := ⟨p.loggedQuery s context, ids.length⟩
    set { p with log := p.log ++ [record] }
    return ids

/-- The elements that the selector of a text finds. -/
def select (selector : String) (context : QueryContext) : Action Page (List NodeId) := do
  let s ← Selector.compile (← get).grammar selector
  selectCompiled s context

/-- The elements that a selector finds, as HTML. -/
def selectHtml (selector : String) : Action Page (List String) := do
  let ids ← select selector .document
  return ids.map (← get).document.nodeHtml

/-- The elements that a selector finds, as HTML with separators between them. -/
def fragmentHtml (selector separator : String) : Action Page String :=
  String.intercalate separator <$> selectHtml selector

end Page

end MarkupTemplate
