import MarkupTemplate.Text.Pieces

/-!
# Errors

* `ErrorKind` — the part of the work that failed.
* `Error` — a kind and what went wrong; `Error.message` is its text.
* `Error.isDirectiveLevel` — errors that concern a single directive: a render that is not strict
  reports them and goes on.
-/

namespace MarkupTemplate

/-- The part of the work that failed. -/
inductive ErrorKind where
  /-- Loading a template. -/
  | loading
  /-- Compiling or running a selector. -/
  | selector
  /-- Reading a directive, a parameter or a setting. -/
  | directive
  /-- Finding imported markup. -/
  | importing
  /-- Copying nodes while a list is filled. -/
  | document
  /-- Reading JSON. -/
  | json
  /-- Fetching from an address. -/
  | address
  /-- Reading a file. -/
  | file
deriving DecidableEq, Repr

/-- An error: what failed, and why. -/
structure Error where
  kind : ErrorKind
  detail : String
deriving DecidableEq, Repr

/-- The words that introduce an error of a kind. -/
def ErrorKind.title : ErrorKind → String
  | .loading => "Parse error"
  | .selector => "Selector error"
  | .directive => "Directive error"
  | .importing => "Import error"
  | .document => "DOM error"
  | .json => "JSON error"
  | .address => "HTTP error"
  | .file => "IO error"

/-- The text of an error. -/
def Error.message (e : Error) : String :=
  e.kind.title ++ ": " ++ e.detail

/-- An error that concerns a single directive. -/
def ErrorKind.isDirectiveLevel : ErrorKind → Bool
  | .directive | .importing | .address | .file => true
  | .loading | .selector | .document | .json => false

/-- An error that concerns a single directive. -/
def Error.isDirectiveLevel (e : Error) : Bool :=
  e.kind.isDirectiveLevel

end MarkupTemplate
