import MarkupTemplate.Html.References
import MarkupTemplate.Html.Token
import MarkupTemplate.Text.Pieces

/-!
# Cutting HTML into tokens

* `next` — the token at the front of a text that is not empty, read in a `TextMode`.
* `tagBody` — a tag from its name to its closing bracket, as a walk over the text with a state.
* `commentBody`, `doctypeBody` — comments and document types.
* `unifyLines` — line ends as single line feeds, done once before everything else.

Nothing is an error: malformed markup still has tokens. A tag that the text ends in is dropped.
-/

namespace MarkupTemplate.Html

open Text (isAsciiBlank isAsciiAlpha)

/-- Line ends as single line feeds. -/
def unifyLines : List Char → List Char
  | [] => []
  | '\r' :: '\n' :: cs => '\n' :: unifyLines cs
  | '\r' :: cs => '\n' :: unifyLines cs
  | c :: cs => c :: unifyLines cs

/-- A character where NUL is not allowed. -/
def cleaned (c : Char) : Char :=
  if c = '\x00' then replacement else c

/-! ## Tags -/

/-- Where the reader is inside a tag. -/
inductive TagState where
  | name
  | beforeAttribute
  | attributeName
  | afterAttributeName
  | beforeValue
  | quoted (quote : Char)
  | unquoted
  | afterValue
  | selfClosing

/-- A tag that is being read. Texts are collected backwards. -/
structure TagDraft where
  name : List Char
  attributes : List (String × String)
  current : Option (List Char × List Char)

/-- The draft without a current attribute: a new name joins the finished attributes. -/
def TagDraft.settled (d : TagDraft) : TagDraft :=
  match d.current with
  | none => d
  | some (name, value) =>
    let name := String.ofList name.reverse
    let known := d.attributes.any fun a => a.1 = name
    let value := String.ofList (decodeAttribute value.reverse)
    ⟨d.name, if known then d.attributes else d.attributes ++ [(name, value)], none⟩

/-- The draft with a new current attribute that has the first character of its name. -/
def TagDraft.begin (c : Char) (d : TagDraft) : TagDraft :=
  { d.settled with current := some ([(cleaned c).toLower], []) }

/-- The current attribute with a further character in its name. -/
def TagDraft.nameChar (c : Char) (d : TagDraft) : TagDraft :=
  { d with current := d.current.map fun a => ((cleaned c).toLower :: a.1, a.2) }

/-- The current attribute with a further character in its value. -/
def TagDraft.valueChar (c : Char) (d : TagDraft) : TagDraft :=
  { d with current := d.current.map fun a => (a.1, cleaned c :: a.2) }

/-- The finished tag. -/
def TagDraft.finish (d : TagDraft) (selfClosing : Bool) : Tag :=
  let d := d.settled
  ⟨String.ofList d.name.reverse, d.attributes, selfClosing⟩

/-- What a character does to a tag. -/
inductive TagStep where
  | go (state : TagState) (draft : TagDraft)
  | finish (tag : Tag)

/-- A character that may start an attribute. -/
def attributeStart (d : TagDraft) (c : Char) : TagStep :=
  if isAsciiBlank c then .go .beforeAttribute d
  else if c = '/' then .go .selfClosing d
  else if c = '>' then .finish (d.finish false)
  else .go .attributeName (d.begin c)

/-- What a character does to a tag in a state. -/
def tagStep (d : TagDraft) (c : Char) : TagState → TagStep
  | .name =>
    if isAsciiBlank c then .go .beforeAttribute d
    else if c = '/' then .go .selfClosing d
    else if c = '>' then .finish (d.finish false)
    else .go .name { d with name := (cleaned c).toLower :: d.name }
  | .beforeAttribute => attributeStart d c
  | .attributeName =>
    if isAsciiBlank c then .go .afterAttributeName d
    else if c = '/' then .go .selfClosing d
    else if c = '=' then .go .beforeValue d
    else if c = '>' then .finish (d.finish false)
    else .go .attributeName (d.nameChar c)
  | .afterAttributeName =>
    if isAsciiBlank c then .go .afterAttributeName d
    else if c = '=' then .go .beforeValue d
    else attributeStart d c
  | .beforeValue =>
    if isAsciiBlank c then .go .beforeValue d
    else if c = '"' || c = '\'' then .go (.quoted c) d
    else if c = '>' then .finish (d.finish false)
    else .go .unquoted (d.valueChar c)
  | .quoted quote =>
    if c = quote then .go .afterValue d
    else .go (.quoted quote) (d.valueChar c)
  | .unquoted =>
    if isAsciiBlank c then .go .beforeAttribute d
    else if c = '>' then .finish (d.finish false)
    else .go .unquoted (d.valueChar c)
  | .afterValue => attributeStart d c
  | .selfClosing => if c = '>' then .finish (d.finish true) else attributeStart d c

/-- The rest of a tag. Nothing, if the text ends inside of it. -/
def tagBody (state : TagState) (d : TagDraft) : List Char → Option (Tag × List Char)
  | [] => none
  | c :: cs =>
    match tagStep d c state with
    | .go state d => tagBody state d cs
    | .finish tag => some (tag, cs)

/-- A tag from the first letter of its name on. -/
def tag? (cs : List Char) : Option (Tag × List Char) :=
  tagBody .name ⟨[], [], none⟩ cs

/-! ## Comments and document types -/

/-- A comment after its first two dashes, up to two dashes and a closing bracket. -/
def commentBody (read : List Char) : List Char → List Char × List Char
  | '-' :: '-' :: '>' :: rest => (read.reverse, rest)
  | '-' :: '-' :: '!' :: '>' :: rest => (read.reverse, rest)
  | ['-', '-', '!'] => (read.reverse, [])
  | ['-', '-'] => (read.reverse, [])
  | ['-'] => (read.reverse, [])
  | [] => (read.reverse, [])
  | c :: rest => commentBody (cleaned c :: read) rest

/-- The content of a comment after `<!--`, and the rest. -/
def comment (cs : List Char) : List Char × List Char :=
  match cs with
  | '>' :: rest => ([], rest)
  | '-' :: '>' :: rest => ([], rest)
  | _ => commentBody [] cs

/-- The content of a malformed declaration, which ends at the first closing bracket. -/
def bogusComment (cs : List Char) : List Char × List Char :=
  ((cs.takeWhile (· != '>')).map cleaned, (cs.dropWhile (· != '>')).drop 1)

/-- A quoted identifier, cut short by a closing bracket. The flag says that it was closed. -/
def quotedId (quote : Char) (cs : List Char) : List Char × Bool × List Char :=
  let body := cs.takeWhile fun c => c != quote && c != '>'
  let rest := cs.drop body.length
  match rest with
  | c :: after =>
    if c = quote then (body.map cleaned, true, after) else (body.map cleaned, false, rest)
  | [] => (body.map cleaned, false, [])

/-- The text after the next closing bracket. -/
def afterBracket (cs : List Char) : List Char :=
  (cs.dropWhile (· != '>')).drop 1

/-- The system identifier of a document type and what follows it. -/
def systemPart (d : Doctype) (required : Bool) (cs : List Char) : Doctype × List Char :=
  match cs.dropWhile isAsciiBlank with
  | [] => ({ d with malformed := true }, [])
  | c :: rest =>
    if c = '>' then ({ d with malformed := required }, rest)
    else if c = '"' || c = '\'' then
      let (name, closed, rest) := quotedId c rest
      let d := { d with systemId := some (String.ofList name) }
      let after := rest.dropWhile isAsciiBlank
      let malformed := !closed || after.isEmpty
      ({ d with malformed := malformed }, afterBracket after)
    else ({ d with malformed := true }, afterBracket rest)

/-- The public identifier of a document type and what follows it. -/
def publicPart (d : Doctype) (cs : List Char) : Doctype × List Char :=
  match cs.dropWhile isAsciiBlank with
  | [] => ({ d with malformed := true }, [])
  | c :: rest =>
    if c = '>' then ({ d with malformed := true }, rest)
    else if c = '"' || c = '\'' then
      let (name, closed, rest) := quotedId c rest
      let d := { d with publicId := some (String.ofList name) }
      if closed then systemPart d false rest
      else ({ d with malformed := true }, afterBracket rest)
    else ({ d with malformed := true }, afterBracket rest)

/-- A document type after its keyword. -/
def doctypeBody (cs : List Char) : Doctype × List Char :=
  let cs := cs.dropWhile isAsciiBlank
  let name := cs.takeWhile fun c => !isAsciiBlank c && c != '>'
  let rest := (cs.drop name.length).dropWhile isAsciiBlank
  let title := (name.map fun c => (cleaned c).toLower)
  let d : Doctype :=
    ⟨if name.isEmpty then none else some (String.ofList title), none, none, name.isEmpty⟩
  match rest with
  | [] => ({ d with malformed := true }, [])
  | '>' :: after => (d, after)
  | _ =>
    let word := Text.lower (rest.take 6)
    if word = "public".toList then publicPart d (rest.drop 6)
    else if word = "system".toList then systemPart d true (rest.drop 6)
    else ({ d with malformed := true }, afterBracket rest)

/-! ## Tokens -/

/-- What was read: perhaps a token, the mode to go on in, and the rest. -/
structure Lexed where
  token : Option Token
  mode : TextMode
  rest : List Char

/-- The text starts with a word in any case that is followed by the end of a tag name. -/
def closesName (word : String) (cs : List Char) : Bool :=
  let n := word.length
  Text.lower (cs.take n) = word.toList &&
    match cs.drop n with
    | c :: _ => isAsciiBlank c || c = '/' || c = '>'
    | [] => false

/-- An end tag, read from its name on. -/
def endTag (cs : List Char) : Lexed :=
  match tag? cs with
  | some (t, rest) => ⟨some (.endTag t.name), .data, rest⟩
  | none => ⟨none, .data, []⟩

/-- What follows an opening bracket where tags count. -/
def markup (sections : Bool) (cs : List Char) : Lexed :=
  match cs with
  | '!' :: '-' :: '-' :: rest =>
    let (content, rest) := comment rest
    ⟨some (.comment (String.ofList content)), .data, rest⟩
  | '!' :: rest =>
    if Text.lower (rest.take 7) = "doctype".toList then
      let (d, rest) := doctypeBody (rest.drop 7)
      ⟨some (.doctype d), .data, rest⟩
    else if sections && rest.take 7 = "[CDATA[".toList then ⟨none, .section, rest.drop 7⟩
    else
      let (content, rest) := bogusComment rest
      ⟨some (.comment (String.ofList content)), .data, rest⟩
  | '?' :: _ =>
    let (content, rest) := bogusComment cs
    ⟨some (.comment (String.ofList content)), .data, rest⟩
  | '/' :: '>' :: rest => ⟨none, .data, rest⟩
  | '/' :: c :: rest =>
    if isAsciiAlpha c then endTag (c :: rest)
    else
      let (content, rest) := bogusComment (c :: rest)
      ⟨some (.comment (String.ofList content)), .data, rest⟩
  | c :: _ =>
    if isAsciiAlpha c then
      match tag? cs with
      | some (t, rest) => ⟨some (.startTag t), .data, rest⟩
      | none => ⟨none, .data, []⟩
    else ⟨some (.char '<'), .data, cs⟩
  | [] => ⟨some (.char '<'), .data, []⟩

/-- A reference or a plain ampersand. Of a reference that stands for several characters, the first
is the token and the others are put back as text. -/
def ampersand (mode : TextMode) (cs : List Char) : Lexed :=
  match reference? false cs with
  | some (c :: more, rest) => ⟨some (.char c), mode, more ++ rest⟩
  | _ => ⟨some (.char '&'), mode, cs⟩

/-- One character of a script that is no end tag, and the state after it. -/
def scriptChar (c : Char) (cs : List Char) : ScriptState → ScriptState
  | .passing n next => if n ≤ 1 then next else .passing (n - 1) next
  | .plain => if c = '<' && cs.take 3 = ['!', '-', '-'] then .passing 3 (.escaped 2) else .plain
  | .escaped dashes =>
    if c = '-' then .escaped (min 2 (dashes + 1))
    else if c = '<' && closesName "script" cs then .passing 7 (.nested 0)
    else if c = '>' && dashes = 2 then .plain
    else .escaped 0
  | .nested dashes =>
    if c = '-' then .nested (min 2 (dashes + 1))
    else if c = '<' && cs.head? = some '/' && closesName "script" (cs.drop 1) then
      .passing 8 (.escaped 0)
    else if c = '>' && dashes = 2 then .plain
    else .nested 0

/-- An end tag counts in this state of a script. -/
def ScriptState.closable : ScriptState → Bool
  | .plain => true
  | .escaped _ => true
  | _ => false

/-- The text after an opening bracket starts the end tag of a name. -/
def closes (name : String) (cs : List Char) : Bool :=
  cs.head? = some '/' && closesName name (cs.drop 1)

/-- The token that a character and the text after it start. `sections` says that character data
sections count. -/
def next (mode : TextMode) (sections : Bool) (c : Char) (cs : List Char) : Lexed :=
  match mode with
  | .data =>
    if c = '<' then markup sections cs
    else if c = '&' then ampersand mode cs
    else ⟨some (.char c), mode, cs⟩
  | .escapable name =>
    if c = '<' && closes name cs then endTag (cs.drop 1)
    else if c = '&' then ampersand mode cs
    else ⟨some (.char (cleaned c)), mode, cs⟩
  | .raw name =>
    if c = '<' && closes name cs then endTag (cs.drop 1)
    else ⟨some (.char (cleaned c)), mode, cs⟩
  | .script state =>
    if c = '<' && state.closable && closes "script" cs then endTag (cs.drop 1)
    else ⟨some (.char (cleaned c)), .script (scriptChar c cs state), cs⟩
  | .plain => ⟨some (.char (cleaned c)), mode, cs⟩
  | .section =>
    if c = ']' && cs.take 2 = [']', '>'] then ⟨none, .data, cs.drop 2⟩
    else ⟨some (.char c), mode, cs⟩

end MarkupTemplate.Html
