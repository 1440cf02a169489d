import MarkupTemplate.Fault

/-!
# Import locations

Where imported markup comes from: a file or an address, and perhaps a part of the document there.

* `ImportLocation.read` — the location of a text.
* `ImportLocation.key` — the source without the part, by which fetched documents are cached.
* `ImportLocation.text` — a text that is read as the location.
* `ImportLocation.selector?` — the part as a selector.
-/

namespace MarkupTemplate

/-- Where a document is fetched from. -/
inductive ImportSource where
  | file (path : String)
  | address (url : String)
deriving DecidableEq, Repr

/-- A source and perhaps a part of the document there. -/
structure ImportLocation where
  source : ImportSource
  fragment : Option String
deriving DecidableEq, Repr

namespace ImportSource

/-- What follows the kind of a source. -/
def place : ImportSource → String
  | .file path => path
  | .address url => url

/-- A source as text. -/
def key : ImportSource → String
  | .file path => "file:" ++ path
  | .address url => "url:" ++ url

/-- The source of a text without a part. Without a prefix, web addresses are addresses and
everything else is a file. -/
def read (body : List Char) : ImportSource :=
  let letters := Text.lower body
  if "url:".toList.isPrefixOf letters then .address (String.ofList (Text.trim (body.drop 4)))
  else if "file:".toList.isPrefixOf letters then .file (String.ofList (Text.trim (body.drop 5)))
  else if "http://".toList.isPrefixOf letters || "https://".toList.isPrefixOf letters then
    .address (String.ofList body)
  else .file (String.ofList body)

end ImportSource

namespace ImportLocation

/-- The location of a text: a source, and after the first number sign a part. -/
def read (text : String) : Except Error ImportLocation :=
  let cs := Text.trim text.toList
  let (body, fragment) := match Text.cutAt? ['#'] cs with
    | some (body, rest) => (body, String.ofList (Text.trim rest))
    | none => (cs, "")
  let source := ImportSource.read body
  if source.place.isEmpty then
    .error ⟨.importing, "Import location '" ++ String.ofList cs ++ "' names no source"⟩
  else .ok ⟨source, if fragment.isEmpty then none else some fragment⟩

/-- The source without the part. -/
def key (l : ImportLocation) : String :=
  l.source.key

/-- A location as text. -/
def text (l : ImportLocation) : String :=
  match l.fragment with
  | some fragment => l.key ++ "#" ++ fragment
  | none => l.key

/-- The part as a selector. A bare name stands for the element with that id. -/
def selector? (l : ImportLocation) : Option String :=
  l.fragment.map fun fragment =>
    if fragment.toList.all fun c => Text.isAlphanumeric c || c = '-' || c = '_' then
      "css:#" ++ fragment
    else fragment

end ImportLocation

end MarkupTemplate
