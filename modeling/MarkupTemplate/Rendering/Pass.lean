import MarkupTemplate.Rendering.Jobs

/-!
# Passes over a page

* `Rendering.spliceImports` — imports that are put into a page before it is filled.
* `Rendering.pass` — a data stack applied to a page.
* `Rendering.complete` — everything that is done with a page, in one pass or in two.

With a second pass, markup that the first one inserted is filled as well: the page is written and
read again, and the elements that the first pass gave values to are marked so that the second one
does not find them.
-/

namespace MarkupTemplate

/-- An import that is put into a page before it is filled. -/
structure PageImport where
  selector : String
  location : ImportLocation
  cache : CacheControl
deriving DecidableEq, Repr

/-- The situation of the outermost stack. -/
def Situation.outermost : Situation :=
  ⟨"", .replace, .empty, 0⟩

namespace Rendering

/-- An import put into everything that its selector finds. -/
def spliceImport (settings : Settings) (i : PageImport) : Action Rendering Unit := do
  let markup ← fetchMarkup settings i.location i.cache
  let selector ← Selector.compile (← get).page.grammar i.selector
  let targets ← onPage (Page.selectCompiled selector .document)
  targets.forM fun node => edit fun d => d.insertMarkup node markup selector.insertMode

/-- Imports put into a page. One that fails ends the rendering. -/
def spliceImports (settings : Settings) (imports : List PageImport) : Action Rendering Unit :=
  imports.forM (spliceImport settings)

/-- A data stack applied to a page. -/
def pass (settings : Settings) (data : DataStack) : Action Rendering Unit :=
  fillEntries settings none .outermost (Content.entryJobs settings data)

/-- An element marked as settled if it is still in the document. -/
def settle (d : Document) (id : NodeId) : Document :=
  if d.isElement id && d.isAttached id then d.setAttribute id settledMark "" else d

/-- The page with its touched elements marked, written and read again. -/
def turnOver (r : Rendering) : Rendering :=
  let d := r.touched.foldl settle r.page.document
  { r with page := r.page.reload d.html, touched := [] }

/-- A second pass over a page, which reaches what the first one inserted. -/
def passAgain (settings : Settings) (data : DataStack) : Action Rendering Unit := do
  modify turnOver
  pass settings data
  edit fun d => d.stripAttribute settledMark

/-- Everything that is done with a page. -/
def complete (settings : Settings) (imports : List PageImport) (data : DataStack) :
    Action Rendering Unit := do
  spliceImports settings imports
  pass settings data
  if settings.fillInserted then passAgain settings data

end Rendering

end MarkupTemplate
