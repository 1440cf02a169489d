import MarkupTemplate.Html.Construction.Formatting

/-!
# Foreign elements

Graphics and formulas inside HTML. Their names and some of their attributes are written in mixed
case or belong to other vocabularies.

* `adjustedAttributes` — the attributes of a foreign element.
* `insertForeign` — add a foreign element.
* `isForeignToken` — whether the next token is taken by the rules of foreign content.
* `inForeign` — those rules.
-/

namespace MarkupTemplate.Html

/-- The mixed-case names of elements of graphics. -/
def graphicsNames : List String :=
  ["altGlyph", "altGlyphDef", "altGlyphItem", "animateColor", "animateMotion", "animateTransform",
   "clipPath", "feBlend", "feColorMatrix", "feComponentTransfer", "feComposite",
   "feConvolveMatrix", "feDiffuseLighting", "feDisplacementMap", "feDistantLight", "feDropShadow",
   "feFlood", "feFuncA", "feFuncB", "feFuncG", "feFuncR", "feGaussianBlur", "feImage", "feMerge",
   "feMergeNode", "feMorphology", "feOffset", "fePointLight", "feSpecularLighting", "feSpotLight",
   "feTile", "feTurbulence", "foreignObject", "glyphRef", "linearGradient", "radialGradient",
   "textPath"]

/-- The mixed-case names of attributes of graphics. -/
def graphicsAttributes : List String :=
  ["attributeName", "attributeType", "baseFrequency", "baseProfile", "calcMode", "clipPathUnits",
   "diffuseConstant", "edgeMode", "filterUnits", "glyphRef", "gradientTransform", "gradientUnits",
   "kernelMatrix", "kernelUnitLength", "keyPoints", "keySplines", "keyTimes", "lengthAdjust",
   "limitingConeAngle", "markerHeight", "markerUnits", "markerWidth", "maskContentUnits",
   "maskUnits", "numOctaves", "pathLength", "patternContentUnits", "patternTransform",
   "patternUnits", "pointsAtX", "pointsAtY", "pointsAtZ", "preserveAlpha", "preserveAspectRatio",
   "primitiveUnits", "refX", "refY", "repeatCount", "repeatDur", "requiredExtensions",
   "requiredFeatures", "specularConstant", "specularExponent", "spreadMethod", "startOffset",
   "stdDeviation", "stitchTiles", "surfaceScale", "systemLanguage", "tableValues", "targetX",
   "targetY", "textLength", "viewBox", "viewTarget", "xChannelSelector", "yChannelSelector",
   "zoomAndPan"]

/-- A name in the case that a table gives it. -/
def inTableCase (table : List String) (name : String) : String :=
  (table.find? fun n => lowered n = name).getD name

/-- The attributes with a prefix that belong to other vocabularies. -/
def prefixedAttributes : List (String × AttributeSpace × String) :=
  [("xlink:actuate", .xlink, "actuate"), ("xlink:arcrole", .xlink, "arcrole"),
   ("xlink:href", .xlink, "href"), ("xlink:role", .xlink, "role"), ("xlink:show", .xlink, "show"),
   ("xlink:title", .xlink, "title"), ("xlink:type", .xlink, "type"), ("xml:lang", .xml, "lang"),
   ("xml:space", .xml, "space"), ("xmlns", .xmlns, "xmlns"), ("xmlns:xlink", .xmlns, "xlink")]

/-- The name of a foreign element. -/
def adjustedName (space : Namespace) (name : String) : ElementName :=
  ⟨space, if space = .svg then inTableCase graphicsNames name else name⟩

/-- The attributes of a foreign element. -/
def adjustedAttributes (space : Namespace) (tag : Tag) : List Attribute :=
  tag.attributes.map fun (name, value) =>
    match prefixedAttributes.find? fun e => e.1 = name with
    | some (_, attributeSpace, localName) => ⟨attributeSpace, localName, value⟩
    | none =>
      match space with
      | .svg => ⟨.plain, inTableCase graphicsAttributes name, value⟩
      | .mathml => ⟨.plain, if name = "definitionurl" then "definitionURL" else name, value⟩
      | .html | .unknown => ⟨.plain, name, value⟩

/-- Add a foreign element, and leave it again if its tag closes itself. -/
def insertForeign (space : Namespace) (tag : Tag) : Build Unit := do
  let _ ← insertNamed (adjustedName space tag.name) (adjustedAttributes space tag)
  if tag.selfClosing then pop

/-- The next token is taken by the rules of foreign content. -/
def Construction.isForeignToken (s : Construction) (token : Token) : Bool :=
  match s.stack with
  | [] => false
  | n :: _ =>
    let name := s.nameOf n
    if name.space = .html then false
    else
      match token with
      | .endOfFile => false
      | .char _ => !holdsHtml name
      | .startTag tag =>
        !((isFormulaText name && tag.name != "mglyph" && tag.name != "malignmark") ||
          (name = ⟨.mathml, "annotation-xml"⟩ && tag.name = "svg") ||
          isGraphicsText name)
      | _ => true

/-- The names of tags that end foreign content. -/
def breakoutNames : List String :=
  ["b", "big", "blockquote", "body", "br", "center", "code", "dd", "div", "dl", "dt", "em", "embed",
   "h1", "h2", "h3", "h4", "h5", "h6", "head", "hr", "i", "img", "li", "listing", "menu", "meta",
   "nobr", "ol", "p", "pre", "ruby", "s", "small", "span", "strong", "strike", "sub", "sup",
   "table", "tt", "u", "ul", "var"]

/-- A start tag that ends foreign content. -/
def isBreakout (tag : Tag) : Bool :=
  breakoutNames.contains tag.name ||
    (tag.name = "font" &&
      tag.attributes.any fun a => a.1 = "color" || a.1 = "face" || a.1 = "size")

/-- End foreign elements up to one that holds HTML. -/
def leaveForeign : Build Unit :=
  modify fun s =>
    { s with
      stack := s.stack.dropWhile fun n =>
        let name := s.nameOf n
        !(name.space = .html || holdsHtml name) }

/-- What the rules of foreign content leave to others. -/
inductive ForeignOutcome where
  | done
  /-- The token is taken by the rules of the insertion mode. -/
  | byMode

/-- Take an end tag in foreign content: end the foreign element of that name, or leave the tag to
the rules of the mode at the first HTML element. -/
def endForeign (name : String) : Build ForeignOutcome := do
  let s ← get
  go s true s.stack
where
  /-- The same for the elements that are left, innermost first. -/
  go (s : Construction) (first : Bool) : List Nat → Build ForeignOutcome
    | [] => return .done
    | [_] => return .done
    | n :: rest => do
      let found := s.nameOf n
      if !first && found.space = .html then return .byMode
      else if lowered found.name = name then
        modify fun t => { t with stack := rest }
        return .done
      else go s false rest

/-- Take a token by the rules of foreign content. -/
def inForeign (token : Token) : Build ForeignOutcome := do
  match token with
  | .char c =>
    if c = '\x00' then insertChar '\ufffd'
    else
      insertChar c
      if !Text.isAsciiBlank c then noFrameset
    return .done
  | .comment content =>
    insertComment content
    return .done
  | .doctype _ => return .done
  | .startTag tag =>
    if isBreakout tag then
      leaveForeign
      return .byMode
    else
      insertForeign (← currentName).space tag
      return .done
  | .endTag name =>
    if name = "br" || name = "p" then
      leaveForeign
      return .byMode
    else endForeign name
  | .endOfFile => return .byMode

end MarkupTemplate.Html
