import MarkupTemplate.Template

/-!
# Inspecting HTML

Looking at the HTML that a template gave.

* `Html.normalized` — HTML without the blanks between its tags, to compare it by.
* `Html.texts`, `Html.attributes`, `Html.count` — what a selector finds. A selector that fails finds
  nothing.
-/

namespace MarkupTemplate

/-- A document without the blank texts in its tree. The content of templates stays as it is. -/
def Document.withoutBlanks (d : Document) : Document :=
  { d with tree := d.tree.splice (fun e => e.data.isBlankText) fun _ => [] }

namespace Html

/-- HTML without the blanks between its tags: what is in the body, or everything if there is no
body. -/
def normalized (html : String) : String :=
  let d := (Document.ofHtml html).withoutBlanks
  match d.tree.find? fun e => e.data.tag? = some "body" with
  | some body => trimmed (d.contentHtml body.label.id)
  | none => trimmed d.html

/-- Two texts of HTML are the same but for blanks between tags. -/
def sameNormalized (a b : String) : Bool :=
  normalized a = normalized b

/-- What a selector finds, and the document that it is in. -/
def matching (html selector : String) : Document × List NodeId :=
  match (Page.select selector .document).runFrom (Page.ofHtml html .css) with
  | (.ok ids, page) => (page.document, ids)
  | (.error _, page) => (page.document, [])

/-- The texts of the elements that a selector finds. -/
def texts (html selector : String) : List String :=
  let (d, ids) := matching html selector
  ids.map fun id => trimmed (((d.markupOf? id).map Markup.text).getD "")

/-- The values of an attribute of those elements that have it. -/
def attributes (html selector name : String) : List String :=
  let (d, ids) := matching html selector
  ids.filterMap fun id => d.attribute? id name

/-- The number of elements that a selector finds. -/
def count (html selector : String) : Nat :=
  (matching html selector).2.length

/-- A part of a text of HTML that is filled with data. -/
def filledPart (fetcher : Fetcher) (html : String) (data : Json) (selector : String) :
    Except Error String := do
  let t ← Template.ofHtml .standard fetcher html
  let action := do
    Template.assignAll data
    Template.renderedPart selector
  (action.runFrom t).1

end Html

end MarkupTemplate
