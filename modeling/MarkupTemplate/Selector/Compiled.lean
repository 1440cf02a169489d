import MarkupTemplate.Selector.Position
import MarkupTemplate.Selector.Css.Query
import MarkupTemplate.Selector.Css.Reading

/-!
# Compiled selectors

Selectors are written in the CSS grammar or as XPath, and are always run as XPath.

* `Selector.compile` — a selector from its text: a marker in front of it may name the grammar, and
  a suffix a position.
* `Selector.expression` — the query from the root of a document.
* `Selector.within` — the query below given contexts.
-/

namespace MarkupTemplate

/-- A selector that can be run. -/
structure Selector where
  /-- The text as it was written. -/
  source : String
  grammar : Grammar
  /-- Where a position suffix puts content. -/
  position : Option InsertMode
  /-- Paths, each starting with a slash, for the members of a CSS selector list; for XPath the
  expression alone. -/
  branches : List String
deriving DecidableEq, Repr

namespace Selector

/-- The grammar that a marker in front of a selector names, and the selector without the marker. -/
def detectGrammar (standard : Grammar) (body : List Char) : Grammar × List Char :=
  if Text.lower (body.take 6) = "xpath:".toList then (.xpath, Text.trim (body.drop 6))
  else if Text.lower (body.take 4) = "css:".toList then (.css, Text.trim (body.drop 4))
  else (standard, body)

/-- The selector of a text; without a marker it is written in the standard grammar. -/
def compile (standard : Grammar) (source : String) : Except Error Selector := do
  let (body, position) := splitPosition source
  let (grammar, body) := detectGrammar standard body.toList
  if body.isEmpty then
    throw (Css.fault ("Empty selector '" ++ source ++ "'"))
  else
    let text := String.ofList body
    let branches ←
      match grammar with
      | .xpath => pure [text]
      | .css => (·.map Css.branchQuery) <$> Css.readBranches text
    return ⟨source, grammar, position, branches⟩

/-- Where the selector puts content: in place of what is there, unless a suffix says otherwise. -/
def insertMode (s : Selector) : InsertMode :=
  s.position.getD .replace

/-- The query from the root of a document. -/
def expression (s : Selector) : String :=
  String.intercalate " | " s.branches

/-- A branch below one context. A dot stands for the node that the query runs from. -/
def branchWithin (grammar : Grammar) (context branch : String) : String :=
  match grammar with
  | .css => context ++ branch
  | .xpath =>
    if context = "." then branch
    else if branch.toList.head? = some '/' then context ++ branch
    else context ++ "/" ++ branch

/-- The query below each of several contexts. -/
def within (s : Selector) (contexts : List String) : String :=
  String.intercalate " | " (contexts.flatMap fun context =>
    let context := String.ofList (Text.dropEndWhile (fun c => c = '/') context.toList)
    s.branches.map (branchWithin s.grammar context))

end Selector

end MarkupTemplate
