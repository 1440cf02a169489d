import MarkupTemplate.Html.Construction.State
import MarkupTemplate.Text.Pieces

/-!
# Open elements

The stack of open elements and the place where new content goes.

* `inScope`, `inButtonScope`, `inListScope`, `inTableScope`, `inSelectScope` — whether an element
  is open without one of the kind's boundaries around it.
* `popUntil`, `closeImplied`, `closeParagraph` — ending elements.
* `placeFor`, `insertElement`, `insertChar`, `insertComment` — adding content.
-/

namespace MarkupTemplate.Html

/-- The names of the headings. -/
def headings : List String :=
  ["h1", "h2", "h3", "h4", "h5", "h6"]

/-- The names of HTML elements that end formatting and list items. -/
def specialNames : List String :=
  ["address", "applet", "area", "article", "aside", "base", "basefont", "bgsound", "blockquote",
   "body", "br", "button", "caption", "center", "col", "colgroup", "dd", "details", "dir", "div",
   "dl", "dt", "embed", "fieldset", "figcaption", "figure", "footer", "form", "frame", "frameset",
   "h1", "h2", "h3", "h4", "h5", "h6", "head", "header", "hgroup", "hr", "html", "iframe", "img",
   "input", "isindex", "keygen", "li", "link", "listing", "main", "marquee", "menu", "meta", "nav",
   "noembed", "noframes", "noscript", "object", "ol", "p", "param", "plaintext", "pre", "script",
   "search", "section", "select", "source", "style", "summary", "table", "tbody", "td", "template",
   "textarea", "tfoot", "th", "thead", "title", "tr", "track", "ul", "wbr", "xmp"]

/-- A foreign element whose content is text of formulas. -/
def isFormulaText (n : ElementName) : Bool :=
  n.space = .mathml && ["mi", "mo", "mn", "ms", "mtext"].contains n.name

/-- A foreign element whose content is HTML again. -/
def isGraphicsText (n : ElementName) : Bool :=
  n.space = .svg && ["foreignObject", "desc", "title"].contains n.name

/-- A foreign element in which HTML goes on. Annotations of formulas are not among them: HTML in an
annotation ends the formula. -/
def holdsHtml (n : ElementName) : Bool :=
  isFormulaText n || isGraphicsText n

/-- An element that ends formatting and list items. Foreign elements never do. -/
def isSpecial (n : ElementName) : Bool :=
  n.isOneOf specialNames

/-! ## Scopes -/

/-- A scope: the elements that bound it. -/
abbrev Scope := ElementName → Bool

/-- The boundaries of the general scope. -/
def generalScope : Scope := fun n =>
  n.isOneOf ["applet", "caption", "html", "table", "td", "th", "marquee", "object", "template"] ||
    holdsHtml n

/-- The boundaries of the scope of list items. -/
def listScope : Scope := fun n =>
  generalScope n || n.isOneOf ["ol", "ul"]

/-- The boundaries of the scope of paragraphs. -/
def buttonScope : Scope := fun n =>
  generalScope n || n.isOneOf ["button"]

/-- The boundaries of the scope of table parts. -/
def tableScope : Scope := fun n =>
  n.isOneOf ["html", "table", "template"]

/-- The boundaries of the scope of selections: everything but options and their groups. -/
def selectScope : Scope := fun n =>
  !n.isOneOf ["optgroup", "option"]

/-- One of the open elements has the property, and no boundary lies inside of it. -/
def Construction.within (s : Construction) (scope : Scope) (isTarget : ElementName → Bool) : Bool :=
  go s.stack
where
  /-- The same for the elements that are left, innermost first. -/
  go : List Nat → Bool
    | [] => false
    | n :: rest =>
      let name := s.nameOf n
      if isTarget name then true else if scope name then false else go rest

/-- One of the named HTML elements is open in a scope. -/
def inScope (scope : Scope) (names : List String) : Build Bool := do
  return (← get).within scope (·.isOneOf names)

/-- A node is open in the general scope. -/
def nodeInScope (node : Nat) : Build Bool := do
  let s ← get
  return go s s.stack
where
  /-- The same for the elements that are left, innermost first. -/
  go (s : Construction) : List Nat → Bool
    | [] => false
    | n :: rest => if n = node then true else if generalScope (s.nameOf n) then false else go s rest

/-- The innermost open element. -/
def current : Build Nat := do
  return (← get).stack.headD documentNode

/-- The name of the innermost open element. -/
def currentName : Build ElementName := do
  return (← get).nameOf (← current)

/-- The innermost open element is one of the named HTML elements. -/
def currentIs (names : List String) : Build Bool := do
  return (← currentName).isOneOf names

/-- An HTML template is open. -/
def templateOpen : Build Bool := do
  let s ← get
  return s.stack.any fun n => (s.nameOf n).isOneOf ["template"]

/-! ## Ending elements -/

/-- End the innermost open element. -/
def pop : Build Unit :=
  modify fun s => { s with stack := s.stack.drop 1 }

/-- End elements up to and including the innermost with a property. -/
def popThrough (p : ElementName → Bool) : Build Unit :=
  modify fun s => { s with stack := (s.stack.dropWhile fun n => !p (s.nameOf n)).drop 1 }

/-- End elements up to and including the innermost of the named HTML elements. -/
def popUntil (names : List String) : Build Unit :=
  popThrough (·.isOneOf names)

/-- End elements until the innermost is one of the named HTML elements. -/
def clearTo (names : List String) : Build Unit :=
  modify fun s => { s with stack := s.stack.dropWhile fun n => !(s.nameOf n).isOneOf names }

/-- The names of elements whose end tag may be left out. -/
def impliedNames : List String :=
  ["dd", "dt", "li", "optgroup", "option", "p", "rb", "rp", "rt", "rtc"]

/-- End the elements whose end tag may be left out, other than the named ones. -/
def closeImplied (except : List String) : Build Unit :=
  modify fun s =>
    { s with
      stack := s.stack.dropWhile fun n =>
        (s.nameOf n).isOneOf impliedNames && !(s.nameOf n).isOneOf except }

/-- End the elements whose end tag may be left out, table parts among them. -/
def closeImpliedThoroughly : Build Unit :=
  modify fun s =>
    { s with
      stack := s.stack.dropWhile fun n =>
        (s.nameOf n).isOneOf
          (impliedNames ++ ["caption", "colgroup", "tbody", "td", "tfoot", "th", "thead", "tr"]) }

/-- End the open paragraph. -/
def endParagraph : Build Unit := do
  closeImplied ["p"]
  popUntil ["p"]

/-- End the open paragraph if there is one in its scope. -/
def closeParagraph : Build Unit := do
  if ← inScope buttonScope ["p"] then endParagraph

/-- Take one node out of the open elements. -/
def removeOpen (node : Nat) : Build Unit :=
  modify fun s => { s with stack := s.stack.filter (· != node) }

/-! ## Adding content -/

/-- The place in front of the innermost table, or in the innermost template if that is nearer. -/
def Construction.fosterPlace (s : Construction) : List Nat → Place
  | [] => .inside documentNode
  | n :: rest =>
    let name := s.nameOf n
    if name.isOneOf ["template"] then .inside ((s.contentsOf n).getD n)
    else if name.isOneOf ["table"] then
      if (s.parentOf n).isSome then .before n else .inside (rest.headD documentNode)
    else if rest.isEmpty then .inside n
    else s.fosterPlace rest

/-- The place for content that belongs into `target`. -/
def placeIn (target : Nat) : Build Place := do
  let s ← get
  let name := s.nameOf target
  if s.fostering && name.isOneOf ["table", "tbody", "tfoot", "thead", "tr"] then
    return s.fosterPlace s.stack
  else
    return .inside ((s.contentsOf target).getD target)

/-- The place for content of the innermost open element. -/
def placeHere : Build Place := do
  placeIn (← current)

/-- Add a character to the innermost open element. -/
def insertChar (c : Char) : Build Unit := do
  (← placeHere).insertChar c

/-- Add a comment to the innermost open element. -/
def insertComment (content : String) : Build Unit := do
  (← placeHere).insert (← create (.comment content))

/-- Add a comment to a given node. -/
def appendComment (parent : Nat) (content : String) : Build Unit := do
  appendTo parent (← create (.comment content))

/-- The attributes of a tag as plain attributes. -/
def Tag.plainAttributes (tag : Tag) : List Attribute :=
  tag.attributes.map fun a => ⟨.plain, a.1, a.2⟩

/-- Add an element and open it. -/
def insertNamed (name : ElementName) (attributes : List Attribute) : Build Nat := do
  let place ← placeHere
  let n ← createElement name attributes
  place.insert n
  modify fun s => { s with stack := n :: s.stack }
  return n

/-- Add an HTML element for a tag and open it. -/
def insertElement (tag : Tag) : Build Nat :=
  insertNamed ⟨.html, tag.name⟩ tag.plainAttributes

/-- Add an HTML element without attributes and open it. -/
def insertPlain (name : String) : Build Nat :=
  insertNamed ⟨.html, name⟩ []

/-- Add an HTML element for a tag that cannot have content. -/
def insertVoid (tag : Tag) : Build Unit := do
  let _ ← insertElement tag
  pop

/-- Add to a node the attributes of a tag that it does not have. -/
def addMissing (node : Nat) (tag : Tag) : Build Unit :=
  modifyNode node fun n =>
    { n with
      data := n.data.mapAttributes fun as =>
        as ++ tag.plainAttributes.filter fun a => !as.any fun b => b.name = a.name }

/-- Go on in another mode. -/
def setMode (mode : InsertionMode) : Build Unit :=
  modify fun s => { s with mode := mode }

/-- Framesets can no longer replace the body. -/
def noFrameset : Build Unit :=
  modify fun s => { s with framesetOk := false }

/-- Add an element whose content is read in a text mode of its own. -/
def insertWithText (tag : Tag) (textMode : TextMode) : Build Unit := do
  let _ ← insertElement tag
  modify fun s => { s with originalMode := s.mode, mode := .text, textMode := textMode }

/-- The mode that the open elements call for. -/
def Construction.modeFor (s : Construction) : List Nat → InsertionMode
  | [] => .inBody
  | n :: rest =>
    let last := rest.isEmpty
    let name := s.nameOf n
    if last && s.fragment then .inBody
    else if name.isOneOf ["select"] then
      let around := rest.find? fun m => (s.nameOf m).isOneOf ["template", "table"]
      match around with
      | some m => if (s.nameOf m).isOneOf ["table"] then .inSelectInTable else .inSelect
      | none => .inSelect
    else if name.isOneOf ["td", "th"] then .inCell
    else if name.isOneOf ["tr"] then .inRow
    else if name.isOneOf ["tbody", "thead", "tfoot"] then .inTableBody
    else if name.isOneOf ["caption"] then .inCaption
    else if name.isOneOf ["colgroup"] then .inColumnGroup
    else if name.isOneOf ["table"] then .inTable
    else if name.isOneOf ["template"] then s.templateModes.headD .inBody
    else if name.isOneOf ["head"] then .inHead
    else if name.isOneOf ["body"] then .inBody
    else if name.isOneOf ["frameset"] then .inFrameset
    else if name.isOneOf ["html"] then if s.head.isNone then .beforeHead else .afterHead
    else if last then .inBody
    else s.modeFor rest

/-- Go on in the mode that the open elements call for. -/
def resetMode : Build Unit :=
  modify fun s => { s with mode := s.modeFor s.stack }

end MarkupTemplate.Html
