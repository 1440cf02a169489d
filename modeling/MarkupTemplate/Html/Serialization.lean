import MarkupTemplate.Html.Node

/-!
# Writing HTML

Nodes as HTML text.

* `Markup.html` — a node with everything below it.
* `Markup.htmlOfAll` — several nodes.

Text is escaped, except in elements whose content is raw. An element of a void name is written
without an end tag, and of what it may hold only texts and comments are written.
-/

namespace MarkupTemplate.Markup

/-- A character of a text, escaped. -/
def escapeTextChar (c : Char) : List Char :=
  if c = '&' then "&amp;".toList
  else if c = '\u00a0' then "&nbsp;".toList
  else if c = '<' then "&lt;".toList
  else if c = '>' then "&gt;".toList
  else [c]

/-- A character of an attribute value, escaped. -/
def escapeAttributeChar (c : Char) : List Char :=
  if c = '&' then "&amp;".toList
  else if c = '\u00a0' then "&nbsp;".toList
  else if c = '"' then "&quot;".toList
  else [c]

/-- An escaped text. -/
def escapeText (s : String) : String :=
  String.ofList (s.toList.flatMap escapeTextChar)

/-- An escaped attribute value. -/
def escapeAttribute (s : String) : String :=
  String.ofList (s.toList.flatMap escapeAttributeChar)

/-- The names of HTML elements that have no end tag. -/
def voidNames : List String :=
  ["area", "base", "basefont", "bgsound", "br", "col", "embed", "frame", "hr", "img", "input",
   "keygen", "link", "meta", "param", "source", "track", "wbr"]

/-- The names of HTML elements whose text is written as it is. -/
def rawTextNames : List String :=
  ["style", "script", "xmp", "iframe", "noembed", "noframes", "plaintext"]

/-- An HTML element without end tag. -/
def isVoid (n : ElementName) : Bool :=
  n.space = .html && voidNames.contains n.name

/-- An HTML element with raw text. -/
def isRawText (n : ElementName) : Bool :=
  n.space = .html && rawTextNames.contains n.name

/-- The name of an attribute as it is written. -/
def attributeLabel (a : Attribute) : String :=
  match a.space with
  | .plain => a.name
  | .xlink => "xlink:" ++ a.name
  | .xml => "xml:" ++ a.name
  | .xmlns => if a.name = "xmlns" then "xmlns" else "xmlns:" ++ a.name

/-- The attributes of a start tag. -/
def attributesHtml (as : List Attribute) : String :=
  String.join (as.map fun a => " " ++ attributeLabel a ++ "=\"" ++ escapeAttribute a.value ++ "\"")

/-- What decides how the nodes below an element are written: whether texts are raw, and whether
the tags of elements are left out. -/
structure Surroundings where
  raw : Bool
  muted : Bool

/-- Outside of any element. -/
def Surroundings.none : Surroundings :=
  ⟨false, false⟩

mutual

/-- The parts of the text of a node. -/
def write (s : Surroundings) : Markup → List String
  | .node .document ts => writeList s ts
  | .node (.doctype name) _ => ["<!DOCTYPE ", name, ">"]
  | .node (.comment content) _ => ["<!--", content, "-->"]
  | .node (.text content) _ => [if s.raw then content else escapeText content]
  | .node (.element n as) ts =>
    if s.muted then writeList ⟨isRawText n, true⟩ ts
    else
      ["<", n.name, attributesHtml as, ">"] ++ writeList ⟨isRawText n, isVoid n⟩ ts ++
        (if isVoid n then [] else ["</", n.name, ">"])

/-- The parts of the text of several nodes. -/
def writeList (s : Surroundings) : List Markup → List String
  | [] => []
  | t :: ts => write s t ++ writeList s ts

end

/-- A node as HTML. -/
def html (m : Markup) : String :=
  String.join (write .none m)

/-- Nodes as HTML, one after the other. -/
def htmlOfAll (ts : List Markup) : String :=
  String.join (writeList .none ts)

/-- Nodes written one after the other. -/
theorem writeList_append (s : Surroundings) (ts us : List Markup) :
    writeList s (ts ++ us) = writeList s ts ++ writeList s us := by
  induction ts with
  | nil => simp [writeList]
  | cons t ts ih => simp [writeList, ih]

end MarkupTemplate.Markup
