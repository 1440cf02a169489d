import MarkupTemplate.Import.Cache
import MarkupTemplate.Page

/-!
# Imported markup

* `Page.cut` — the part of a page that an import inserts.
* `Importer.resolve` — the markup that the import of a location inserts.

An import inserts the elements that the fragment of its location selects. Without a fragment it
inserts what the body of the document holds.
-/

namespace MarkupTemplate

namespace Page

/-- What the elements that a selector finds hold, as HTML. -/
def contentHtml (selector : String) : Action Page String := do
  let ids ← select selector .document
  return String.join (ids.map (← get).document.contentHtml)

/-- The part of a page that an import inserts. -/
def cut (location : ImportLocation) : Action Page String :=
  match location.selector? with
  | some selector => fragmentHtml selector ""
  | none => contentHtml "css:body"

end Page

namespace Importer

/-- The part of a document that an import inserts. Nothing but blanks is nothing to insert. -/
def markupIn (grammar : Grammar) (location : ImportLocation) (html : String) :
    Except Error String := do
  let markup ← ((Page.cut location).runFrom (Page.ofHtml html grammar)).1
  if isBlankString markup then
    throw ⟨.importing, "Import '" ++ location.text ++ "' produced no content"⟩
  else return markup

/-- The markup that the import of a location inserts. A failed import may still have fetched. -/
def resolve (i : Importer) (location : ImportLocation) (control : CacheControl)
    (grammar : Grammar) : Except Error String × Importer :=
  let (loaded, i) := i.load location control
  (loaded.bind (markupIn grammar location), i)

end Importer

end MarkupTemplate
