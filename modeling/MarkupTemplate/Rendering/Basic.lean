import MarkupTemplate.Data.Params
import MarkupTemplate.Import.Resolving
import MarkupTemplate.Settings

/-!
# Renderings

* `Rendering` — a page that is being filled, with everything that filling it changes.
* `Situation`, `Job` — what holds where a value is applied to a node, and what the value does there.
* `Diagnostic` — a failure that did not end the rendering.
* `Rendering.attempt` — work whose failures are reported where that is allowed.
-/

namespace MarkupTemplate

/-- A failure that did not end a rendering. -/
structure Diagnostic where
  /-- The selector whose value failed. -/
  selector : String
  /-- The directive that failed, if it was one. -/
  directive : Option String
  message : String
deriving DecidableEq, Repr

/-- A diagnostic as text. -/
def Diagnostic.text (d : Diagnostic) : String :=
  match d.directive with
  | some directive => d.selector ++ " " ++ directive ++ ": " ++ d.message
  | none => d.selector ++ ": " ++ d.message

/-- A page that is being filled. -/
structure Rendering where
  page : Page
  importer : Importer
  /-- The nodes that were given a value, or took the place of one that was. -/
  touched : List NodeId
  diagnostics : List Diagnostic

/-- What holds where a value is applied to a node. -/
structure Situation where
  /-- The selector that the value was given for. -/
  selector : String
  /-- Where content goes unless a directive says otherwise. -/
  mode : InsertMode
  /-- The parameters that hold. -/
  params : Params
  /-- The number of lists around the value. -/
  depth : Nat
deriving Repr

namespace Rendering

/-- A page that nothing was done with. -/
def start (page : Page) (importer : Importer) : Rendering :=
  ⟨page, importer, [], []⟩

/-- Work on the page. -/
def onPage {α : Type} (action : Action Page α) : Action Rendering α :=
  action.on Rendering.page fun r page => { r with page }

/-- The document as it is now. -/
def document : Action Rendering Document := do
  return (← get).page.document

/-- A change of the document. -/
def edit (change : Document → Document) : Action Rendering Unit :=
  modify fun r => { r with page.document := change r.page.document }

/-- A node that was given a value. -/
def touch (id : NodeId) : Action Rendering Unit :=
  modify fun r => { r with touched := r.touched ++ [id] }

/-- The markup that the import of a location inserts. -/
def fetchMarkup (settings : Settings) (location : ImportLocation) (control : CacheControl) :
    Action Rendering String := do
  let r ← get
  let (markup, importer) := r.importer.resolve location control settings.grammar
  set { r with importer }
  match markup with
  | .ok markup => return markup
  | .error e => throw e

/-- The failure of a value or of a directive: it is reported, unless it has to end the rendering. -/
def report (settings : Settings) (selector : String) (directive : Option String) (e : Error) :
    Action Rendering Unit :=
  if settings.strict || !e.isDirectiveLevel then throw e
  else modify fun r =>
    { r with diagnostics := r.diagnostics ++ [⟨selector, directive, e.message⟩] }

/-- Work whose failure is reported; then the result is `fallback`. -/
def attempt {α : Type} (settings : Settings) (selector : String) (directive : Option String)
    (fallback : α) (action : Action Rendering α) : Action Rendering α :=
  tryCatch action fun e => do
    report settings selector directive e
    return fallback

end Rendering

/-- A value ready to be applied to a node. The result is the node that the next directive of a set
goes to, if there is one left. -/
abbrev Job := Situation → NodeId → Action Rendering (Option NodeId)

end MarkupTemplate
