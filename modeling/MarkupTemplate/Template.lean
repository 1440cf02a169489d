import MarkupTemplate.Data.Reading
import MarkupTemplate.Rendering.Pass

/-!
# Templates

A page with the data that it is to be filled with.

* `Template.ofHtml`, `Template.ofFile`, `Template.empty` — a template, or one that has no page yet.
* `Template.load` — another page from markup or from a file; the data stays.
* `Template.assign`, `Template.assignAll`, `Template.addImport` — what is to be filled in.
* `Template.render`, `Template.rendered` — the filled page. A page is filled once.
* `Template.find` — parts of the page as it is.

Work that fails keeps what it has done so far to the page, to the data and to the import cache.
-/

namespace MarkupTemplate

/-- A page and the data that it is to be filled with. -/
structure Template where
  /-- The page, once there is one. -/
  page : Option Page
  settings : Settings
  data : DataStack
  imports : List PageImport
  importer : Importer
  /-- What the last rendering reported. -/
  diagnostics : List Diagnostic
  isRendered : Bool

namespace Template

/-! ## Loading -/

/-- A template without a page. -/
def empty (settings : Settings) (fetcher : Fetcher) : Template :=
  ⟨none, settings, [], [], .start fetcher, [], false⟩

/-- The template with the page of a text of HTML. -/
def withHtml (t : Template) (html : String) : Template :=
  { t with
    page := some (Page.ofHtml html t.settings.grammar)
    diagnostics := []
    isRendered := false }

/-- There is nothing in a text to make a page of. -/
def nothingToLoad : Error :=
  ⟨.loading, "No HTML data provided"⟩

/-- There is no page yet. -/
def nothingLoaded : Error :=
  ⟨.loading, "No template source provided. Call set_template() first."⟩

/-- The content of a template file. -/
def readFile (files : Files) (path : String) : Except Error String :=
  match files.read path with
  | .ok html => .ok html
  | .error fault =>
    .error ⟨.loading, "Failed to read template file '" ++ path ++ "': " ++ fault.message⟩

/-- The template of a text of HTML. -/
def ofHtml (settings : Settings) (fetcher : Fetcher) (html : String) : Except Error Template :=
  if isBlankString html then .error nothingToLoad
  else .ok ((empty settings fetcher).withHtml html)

/-- The template in a file. -/
def ofFile (settings : Settings) (fetcher : Fetcher) (files : Files) (path : String) :
    Except Error Template :=
  (empty settings fetcher).withHtml <$> readFile files path

/-- Another page, from a text that is markup or else the path of a file. -/
def load (files : Files) (text : String) : Action Template Unit := do
  if looksLikeMarkup text then modify fun t => t.withHtml text
  else if isBlankString text then throw nothingToLoad
  else
    let html ← readFile files (trimmed text)
    modify fun t => t.withHtml html

/-! ## Data -/

/-- A selector that can be compiled. -/
def checkSelector (selector : String) : Action Template Unit := do
  discard (Selector.compile (← get).settings.grammar selector)

/-- A content to be filled in where a selector finds something. -/
def assignContent (selector : String) (content : Content) : Action Template Unit := do
  checkSelector selector
  modify fun t => { t with data := Keyed.insert selector content t.data }

/-- A JSON value to be filled in. -/
def assign (selector : String) (value : Json) : Action Template Unit := do
  assignContent selector (← Content.ofJson value)

/-- All values of an object to be filled in. -/
def assignAll (data : Json) : Action Template Unit :=
  match data with
  | .object entries => entries.forM fun e => assign e.1 e.2
  | other => throw ⟨.directive, "assign_all expects an object, got " ++ other.write⟩

/-- An import to be put in where a selector finds something, before the page is filled. -/
def addImport (selector location : String) (cache : CacheControl) : Action Template Unit := do
  let location ← ImportLocation.read location
  checkSelector selector
  modify fun t => { t with imports := t.imports ++ [⟨selector, location, cache⟩] }

/-! ## Rendering -/

/-- The page of a template. -/
def currentPage : Action Template Page := do
  match (← get).page with
  | some page => return page
  | none => throw nothingLoaded

/-- Work on the page of a template. -/
def onPage {α : Type} (action : Action Page α) : Action Template α := do
  let page ← currentPage
  let (result, page) := action.runFrom page
  modify fun t => { t with page := some page }
  match result with
  | .ok a => return a
  | .error e => throw e

/-- The template after its rendering has ended, with what came of it. -/
def afterRendering (t : Template) (result : Except Error Unit) (r : Rendering) : Template :=
  let t := { t with page := some r.page, importer := r.importer }
  match result with
  | .ok () => { t with diagnostics := r.diagnostics, isRendered := true }
  | .error _ => t

/-- The page filled, unless it has been before. -/
def ensureRendered : Action Template Unit := do
  let t ← get
  if t.isRendered then return
  let page ← currentPage
  let (result, r) :=
    (Rendering.complete t.settings t.imports t.data).runFrom (.start page t.importer)
  set (t.afterRendering result r)
  match result with
  | .ok () => return
  | .error e => throw e

/-- The filled page as HTML. -/
def render : Action Template String := do
  ensureRendered
  return (← currentPage).document.html

/-- What stands between the parts of a page that are asked for together. -/
def separator (settings : Settings) : String :=
  if settings.keepIndentation then "\r\n" else ""

/-- What a selector finds in the filled page, as HTML. -/
def renderedPart (selector : String) : Action Template String := do
  ensureRendered
  onPage (Page.fragmentHtml selector (separator (← get).settings))

/-- What a selector finds in the page as it is, as HTML. -/
def find (selector : String) : Action Template (List String) :=
  onPage (Page.selectHtml selector)

/-- The queries that were run on the page. -/
def queries (t : Template) : List QueryRecord :=
  (t.page.map Page.log).getD []

end Template

end MarkupTemplate
