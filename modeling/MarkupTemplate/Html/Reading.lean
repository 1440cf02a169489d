import MarkupTemplate.Html.Lexer
import MarkupTemplate.Html.Construction.Rules

/-!
# Reading HTML

* `Construction.ofDocument` — the document that a text stands for. Every text stands for one:
  missing tags are supplied, misplaced ones dropped.
* `Construction.ofFragment` — what a text stands for as the content of a body.
-/

namespace MarkupTemplate.Html

/-- Take all tokens of a text. Every step takes at least one character, so the length bounds
them. -/
def takeText : Nat → List Char → Build Unit
  | 0, _ => return
  | _ + 1, [] => return
  | fuel + 1, c :: cs => do
    let s ← get
    let sections := match s.stack with
      | [] => false
      | n :: _ => (s.nameOf n).space != .html
    let lexed := next s.textMode sections c cs
    modify fun t => { t with textMode := lexed.mode }
    match lexed.token with
    | some token => takeToken token
    | none => pure ()
    takeText fuel lexed.rest

/-- Take a whole text and its end. -/
def takeDocument (text : String) : Build Unit := do
  let cs := unifyLines text.toList
  let cs := if cs.head? = some '\ufeff' then cs.drop 1 else cs
  takeText (cs.length + 1) cs
  takeToken .endOfFile

/-- A construction that starts inside of an empty body. The body is in no tree: its content goes
into the document element. -/
def startFragment : Build Unit := do
  let _ ← createElement ⟨.html, "body"⟩ []
  createRoot []
  modify fun s => { s with fragment := true, mode := .inBody }

/-- The number of the first node in a fragment: the document node, the body and the document element
come before it. -/
def fragmentStart : Nat := 3

/-- The document that a text stands for. -/
def Construction.ofDocument (text : String) : Construction :=
  ((takeDocument text).run .empty).2

/-- What a text stands for as the content of a body. -/
def Construction.ofFragment (text : String) : Construction :=
  let build : Build Unit := do
    startFragment
    takeDocument text
  (build.run .empty).2

end MarkupTemplate.Html
