/-!
# Markup tokens

* `Token` — what the text of a document is cut into before a tree is built.
* `Tag` — the name and attributes of a start tag.
* `Doctype` — a document type with the identifiers that decide about old layout rules.
* `TextMode` — how the text after a token is to be read.
-/

namespace MarkupTemplate.Html

/-- A start tag. The name and the attribute names are in lower case, each attribute occurs once. -/
structure Tag where
  name : String
  attributes : List (String × String)
  selfClosing : Bool
deriving DecidableEq, Repr

/-- A document type. -/
structure Doctype where
  name : Option String
  publicId : Option String
  systemId : Option String
  /-- The declaration was malformed. -/
  malformed : Bool
deriving DecidableEq, Repr

/-- One token. -/
inductive Token where
  | doctype (doctype : Doctype)
  | startTag (tag : Tag)
  | endTag (name : String)
  | comment (content : String)
  | char (c : Char)
  | endOfFile
deriving DecidableEq, Repr

/-- Where the reader is inside a script. -/
inductive ScriptState where
  /-- Outside of a comment. -/
  | plain
  /-- In a comment, after so many dashes (at most two count). -/
  | escaped (dashes : Nat)
  /-- In a script inside a comment, after so many dashes. -/
  | nested (dashes : Nat)
  /-- On the way to another state, after that many further characters. -/
  | passing (count : Nat) (next : ScriptState)
deriving DecidableEq, Repr

/-- How text is read. -/
inductive TextMode where
  /-- Tags and references count. -/
  | data
  /-- References and the end tag of the given name count. -/
  | escapable (tag : String)
  /-- Only the end tag of the given name counts. -/
  | raw (tag : String)
  /-- The content of a script. -/
  | script (state : ScriptState)
  /-- Everything up to the end is text. -/
  | plain
  /-- A character data section of a foreign element. -/
  | section
deriving DecidableEq, Repr

end MarkupTemplate.Html
