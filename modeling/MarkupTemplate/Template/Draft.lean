import MarkupTemplate.Template

/-!
# Drafts

Everything that a template is made of, given at once.

* `Draft` — the source of a page, settings, imports and assignments.
* `Draft.template` — the template of a draft, if all of it can be used.
* `Draft.render` — the filled page with a report of the work.
-/

namespace MarkupTemplate

/-- Where the page of a template comes from. -/
inductive TemplateSource where
  | html (text : String)
  | file (path : String)
deriving DecidableEq, Repr

/-- An import that is asked for. -/
structure ImportRequest where
  selector : String
  location : String
  cache : CacheControl
deriving DecidableEq, Repr

/-- What a template is made of. -/
structure Draft where
  source : Option TemplateSource
  settings : Settings
  imports : List ImportRequest
  /-- JSON values by selector. -/
  assignments : List (String × Json)

/-- A filled page, and what it took. -/
structure RenderReport where
  html : String
  /-- The number of queries that were run. -/
  queries : Nat
  diagnostics : List Diagnostic
deriving DecidableEq, Repr

namespace Draft

/-- The template of the source of a draft. -/
def start (d : Draft) (files : Files) (fetcher : Fetcher) : Except Error Template :=
  match d.source with
  | some (.html text) => Template.ofHtml d.settings fetcher text
  | some (.file path) => Template.ofFile d.settings fetcher files path
  | none => .error ⟨.loading, "No template source provided. Use from_str() or from_file()"⟩

/-- The imports and assignments of a draft, made in order. -/
def apply (d : Draft) : Action Template Unit := do
  d.imports.forM fun i => Template.addImport i.selector i.location i.cache
  d.assignments.forM fun e => Template.assign e.1 e.2

/-- The template of a draft. -/
def template (d : Draft) (files : Files) (fetcher : Fetcher) : Except Error Template := do
  let t ← d.start files fetcher
  let (result, t) := d.apply.runFrom t
  result
  return t

/-- The filled page of a draft, with the template as it is then. -/
def render (d : Draft) (files : Files) (fetcher : Fetcher) :
    Except Error (RenderReport × Template) := do
  let t ← d.template files fetcher
  let (result, t) := Template.render.runFrom t
  return (⟨← result, t.queries.length, t.diagnostics⟩, t)

end Draft

end MarkupTemplate
