import MarkupTemplate.Data.Params
import MarkupTemplate.Import.Location

/-!
# Content

What a template is filled with.

* `Content` — a text, a list, a nested stack of entries, or a set of directives.
* `Directive` — one thing to do with a node; `Directive.key` is how it is written.
* `ordered` — directives in the order in which they are carried out.
* `DataStack` — contents by selector.
-/

namespace MarkupTemplate

/-- What becomes of the node itself. -/
inductive RenderControl where
  | remove
  | keep
  /-- The element gets another name. -/
  | rename (name : String)
  /-- The children take the place of the element. -/
  | unwrap
deriving DecidableEq, Repr

mutual

/-- What a node is filled with. -/
inductive Content where
  | text (text : String)
  | list (items : List Content)
  /-- Contents for the nodes below, by selector. -/
  | stack (entries : List (String × Content))
  | directives (params : Params) (items : List Directive)

/-- One thing to do with a node. -/
inductive Directive where
  /-- Set attributes, or remove those without a value. -/
  | setAttributes (mode : InsertMode) (values : List (String × Option String))
  | content (mode : InsertMode) (value : Content)
  /-- The same as content, under another name. -/
  | children (mode : InsertMode) (value : Content)
  | fetch (mode : InsertMode) (location : ImportLocation)
  | control (control : RenderControl)
  /-- Repeat the node itself. -/
  | repetition (value : Content)

end

/-- Contents by selector, in order. -/
abbrev DataStack := Keyed Content

namespace Directive

/-- A key with the suffix that stands for an insert mode. -/
def keyWith (name : String) : InsertMode → String
  | .replace => name
  | .prepend => name ++ "::before"
  | .append => name ++ "::after"

/-- The key that a directive is written under. -/
def key : Directive → String
  | .setAttributes mode _ => keyWith "@attr" mode
  | .content mode _ => keyWith "@content" mode
  | .children mode _ => keyWith "@children" mode
  | .fetch mode _ => keyWith "@import" mode
  | .control _ => "@render"
  | .repetition _ => "@repeat"

/-- The place of a directive among others: content, imports, what becomes of the node, repetition.
Attributes have none of their own. -/
def rank? : Directive → Option Nat
  | .setAttributes .. => none
  | .content .. | .children .. => some 1
  | .fetch .. => some 2
  | .control _ => some 3
  | .repetition _ => some 4

/-- Things with their ranks. What has no rank of its own takes the rank of the thing before it. -/
def ranked {α : Type} (rank? : α → Option Nat) (previous : Nat) : List α → List (Nat × α)
  | [] => []
  | a :: rest =>
    let rank := (rank? a).getD previous
    (rank, a) :: ranked rank? rank rest

/-- Things by rank, and within a rank as they are written. -/
def orderedBy {α : Type} (rank? : α → Option Nat) (items : List α) : List α :=
  ((ranked rank? 0 items).mergeSort fun a b => a.1 ≤ b.1).map Prod.snd

/-- Directives in the order in which they are carried out. -/
def ordered (items : List Directive) : List Directive :=
  orderedBy rank? items

/-- Ranking keeps the things as they are. -/
theorem map_snd_ranked {α : Type} (rank? : α → Option Nat) (previous : Nat) (items : List α) :
    (ranked rank? previous items).map Prod.snd = items := by
  induction items generalizing previous with
  | nil => simp [ranked]
  | cons a rest ih => simp [ranked, ih]

/-- Ordering drops nothing and repeats nothing. -/
theorem orderedBy_perm {α : Type} (rank? : α → Option Nat) (items : List α) :
    (orderedBy rank? items).Perm items := by
  have h := (List.mergeSort_perm (ranked rank? 0 items) fun a b => a.1 ≤ b.1).map Prod.snd
  rwa [map_snd_ranked] at h

end Directive

end MarkupTemplate
