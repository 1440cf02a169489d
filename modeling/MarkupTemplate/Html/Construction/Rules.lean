import MarkupTemplate.Html.Construction.Foreign

/-!
# The insertion modes

One function for each insertion mode says what a token does there. A rule that only changes the
mode answers `again`, and the token is taken once more in the new mode.

* `inBody` — the content of the body; most other modes fall back on it.
* `inTable`, `inRow`, `inCell`, … — the parts of tables. What does not belong into a table is
  moved in front of it.
* `takeToken` — take a token, as often as the rules ask for it.
-/

namespace MarkupTemplate.Html

open Text (isAsciiBlank)

/-- What is left to do with a token. -/
inductive Outcome where
  | done
  /-- The token is taken again by the rules of the mode that is now set. -/
  | again

/-! ## The head -/

/-- The attributes of a second start tag of the document element. -/
def htmlStart (tag : Tag) : Build Outcome := do
  if !(← templateOpen) then
    match (← get).stack.getLast? with
    | some root => addMissing root tag
    | none => return .done
  return .done

/-- A template that is meant to be a shadow root. -/
def Tag.declaresShadow (tag : Tag) : Bool :=
  tag.attributes.any fun a => a.1 = "shadowrootmode" && (a.2 = "open" || a.2 = "closed")

/-- Begin a template. Documents have no shadow roots: a template that is meant to be one is made,
given up and made again as any other. -/
def startTemplate (tag : Tag) : Build Unit := do
  if tag.declaresShadow then
    let _ ← createElement ⟨.html, tag.name⟩ tag.plainAttributes
  let _ ← insertElement tag
  pushMarker
  noFrameset
  setMode .inTemplate
  modify fun s => { s with templateModes := .inTemplate :: s.templateModes }

/-- End the innermost template. -/
def endTemplate : Build Unit := do
  popUntil ["template"]
  clearToMarker
  modify fun s => { s with templateModes := s.templateModes.drop 1 }
  resetMode

/-- Take a token in the head. -/
def inHead (token : Token) : Build Outcome := do
  let leave : Build Outcome := do
    pop
    setMode .afterHead
    return .again
  match token with
  | .char c =>
    if isAsciiBlank c then
      insertChar c
      return .done
    else leave
  | .comment content =>
    insertComment content
    return .done
  | .doctype _ => return .done
  | .startTag tag =>
    if tag.name = "html" then htmlStart tag
    else if ["base", "basefont", "bgsound", "link", "meta"].contains tag.name then
      insertVoid tag
      return .done
    else if tag.name = "title" then
      insertWithText tag (.escapable "title")
      return .done
    else if tag.name = "noframes" || tag.name = "style" then
      insertWithText tag (.raw tag.name)
      return .done
    else if tag.name = "noscript" then
      let _ ← insertElement tag
      setMode .inHeadNoscript
      return .done
    else if tag.name = "script" then
      insertWithText tag (.script .plain)
      return .done
    else if tag.name = "template" then
      startTemplate tag
      return .done
    else if tag.name = "head" then return .done
    else leave
  | .endTag name =>
    if name = "head" then
      pop
      setMode .afterHead
      return .done
    else if ["body", "html", "br"].contains name then leave
    else if name = "template" then
      if ← templateOpen then
        closeImpliedThoroughly
        endTemplate
      return .done
    else return .done
  | .endOfFile => leave

/-- Take a token in a `noscript` element of the head. -/
def inHeadNoscript (token : Token) : Build Outcome := do
  let leave : Build Outcome := do
    pop
    setMode .inHead
    return .again
  match token with
  | .doctype _ => return .done
  | .char c => if isAsciiBlank c then inHead token else leave
  | .comment _ => inHead token
  | .startTag tag =>
    if tag.name = "html" then htmlStart tag
    else if ["basefont", "bgsound", "link", "meta", "noframes", "style"].contains tag.name then
      inHead token
    else if tag.name = "head" || tag.name = "noscript" then return .done
    else leave
  | .endTag name =>
    if name = "noscript" then
      pop
      setMode .inHead
      return .done
    else if name = "br" then leave
    else return .done
  | .endOfFile => leave

/-- The names of old public identifiers that call for the old layout rules. -/
def oldPublicStarts : List String :=
  ["+//silmaril//dtd html pro v0r11 19970101//", "-//as//dtd html 3.0 aswedit + extensions//",
   "-//advasoft ltd//dtd html 3.0 aswedit + extensions//", "-//ietf//dtd html 2.0 level 1//",
   "-//ietf//dtd html 2.0 level 2//", "-//ietf//dtd html 2.0 strict level 1//",
   "-//ietf//dtd html 2.0 strict level 2//", "-//ietf//dtd html 2.0 strict//",
   "-//ietf//dtd html 2.0//", "-//ietf//dtd html 2.1e//", "-//ietf//dtd html 3.0//",
   "-//ietf//dtd html 3.2 final//", "-//ietf//dtd html 3.2//", "-//ietf//dtd html 3//",
   "-//ietf//dtd html level 0//", "-//ietf//dtd html level 1//", "-//ietf//dtd html level 2//",
   "-//ietf//dtd html level 3//", "-//ietf//dtd html strict level 0//",
   "-//ietf//dtd html strict level 1//", "-//ietf//dtd html strict level 2//",
   "-//ietf//dtd html strict level 3//", "-//ietf//dtd html strict//", "-//ietf//dtd html//",
   "-//metrius//dtd metrius presentational//",
   "-//microsoft//dtd internet explorer 2.0 html strict//",
   "-//microsoft//dtd internet explorer 2.0 html//",
   "-//microsoft//dtd internet explorer 2.0 tables//",
   "-//microsoft//dtd internet explorer 3.0 html strict//",
   "-//microsoft//dtd internet explorer 3.0 html//",
   "-//microsoft//dtd internet explorer 3.0 tables//", "-//netscape comm. corp.//dtd html//",
   "-//netscape comm. corp.//dtd strict html//", "-//o'reilly and associates//dtd html 2.0//",
   "-//o'reilly and associates//dtd html extended 1.0//",
   "-//o'reilly and associates//dtd html extended relaxed 1.0//",
   "-//softquad software//dtd hotmetal pro 6.0::19990601::extensions to html 4.0//",
   "-//softquad//dtd hotmetal pro 4.0::19971010::extensions to html 4.0//",
   "-//spyglass//dtd html 2.0 extended//", "-//sq//dtd html 2.0 hotmetal + extensions//",
   "-//sun microsystems corp.//dtd hotjava html//",
   "-//sun microsystems corp.//dtd hotjava strict html//", "-//w3c//dtd html 3 1995-03-24//",
   "-//w3c//dtd html 3.2 draft//", "-//w3c//dtd html 3.2 final//", "-//w3c//dtd html 3.2//",
   "-//w3c//dtd html 3.2s draft//", "-//w3c//dtd html 4.0 frameset//",
   "-//w3c//dtd html 4.0 transitional//", "-//w3c//dtd html experimental 19960712//",
   "-//w3c//dtd html experimental 970421//", "-//w3c//dtd w3 html//", "-//w3o//dtd w3 html 3.0//",
   "-//webtechs//dtd mozilla html 2.0//", "-//webtechs//dtd mozilla html//"]

/-- The public identifiers that call for the old layout rules. -/
def oldPublicIds : List String :=
  ["-//w3o//dtd w3 html strict 3.0//en//", "-/w3c/dtd html 4.0 transitional/en", "html"]

/-- Public identifiers that do so only without a system identifier. -/
def oldWithoutSystem : List String :=
  ["-//w3c//dtd html 4.01 frameset//", "-//w3c//dtd html 4.01 transitional//"]

/-- The one system identifier that does so by itself. -/
def oldSystemId : String :=
  "/".intercalate ["http:", "", "www.ibm.com", "data", "dtd", "v11", "ibmxhtml1-transitional.dtd"]

/-- The document type calls for the old layout rules. -/
def Doctype.oldLayout (d : Doctype) : Bool :=
  let publicId := lowered (d.publicId.getD "")
  let startsWithOne (starts : List String) : Bool :=
    starts.any fun head => head.toList.isPrefixOf publicId.toList
  d.malformed || d.name != some "html" ||
    (d.publicId.isSome &&
      (oldPublicIds.contains publicId || startsWithOne oldPublicStarts)) ||
    d.systemId.map lowered = some oldSystemId ||
    (d.systemId.isNone && startsWithOne oldWithoutSystem)

/-- Take a token before anything else was found. -/
def initially (token : Token) : Build Outcome := do
  let start : Build Outcome := do
    modify fun s => { s with oldLayout := true }
    setMode .beforeHtml
    return .again
  match token with
  | .char c => if isAsciiBlank c then return .done else start
  | .comment content =>
    appendComment documentNode content
    return .done
  | .doctype d =>
    appendTo documentNode (← create (.doctype (d.name.getD "")))
    modify fun s => { s with oldLayout := d.oldLayout }
    setMode .beforeHtml
    return .done
  | _ => start

/-- Add the document element. -/
def createRoot (attributes : List Attribute) : Build Unit := do
  let root ← createElement ⟨.html, "html"⟩ attributes
  appendTo documentNode root
  modify fun s => { s with stack := [root] }

/-- Take a token before the document element. -/
def beforeHtml (token : Token) : Build Outcome := do
  let start : Build Outcome := do
    createRoot []
    setMode .beforeHead
    return .again
  match token with
  | .doctype _ => return .done
  | .comment content =>
    appendComment documentNode content
    return .done
  | .char c => if isAsciiBlank c then return .done else start
  | .startTag tag =>
    if tag.name = "html" then
      createRoot tag.plainAttributes
      setMode .beforeHead
      return .done
    else start
  | .endTag name => if ["head", "body", "html", "br"].contains name then start else return .done
  | .endOfFile => start

/-- Open the head. -/
def openHead (tag : Tag) : Build Unit := do
  let head ← insertElement tag
  modify fun s => { s with head := some head }
  setMode .inHead

/-- Take a token before the head. -/
def beforeHead (token : Token) : Build Outcome := do
  let start : Build Outcome := do
    openHead ⟨"head", [], false⟩
    return .again
  match token with
  | .char c => if isAsciiBlank c then return .done else start
  | .comment content =>
    insertComment content
    return .done
  | .doctype _ => return .done
  | .startTag tag =>
    if tag.name = "html" then htmlStart tag
    else if tag.name = "head" then
      openHead tag
      return .done
    else start
  | .endTag name => if ["head", "body", "html", "br"].contains name then start else return .done
  | .endOfFile => start

/-- Take a token between the head and the body. -/
def afterHead (token : Token) : Build Outcome := do
  let start : Build Outcome := do
    let _ ← insertPlain "body"
    setMode .inBody
    return .again
  match token with
  | .char c =>
    if isAsciiBlank c then
      insertChar c
      return .done
    else start
  | .comment content =>
    insertComment content
    return .done
  | .doctype _ => return .done
  | .startTag tag =>
    if tag.name = "html" then htmlStart tag
    else if tag.name = "body" then
      let _ ← insertElement tag
      noFrameset
      setMode .inBody
      return .done
    else if tag.name = "frameset" then
      let _ ← insertElement tag
      setMode .inFrameset
      return .done
    else if ["base", "basefont", "bgsound", "link", "meta", "noframes", "script", "style",
        "template", "title"].contains tag.name then
      match (← get).head with
      | none => inHead token
      | some head =>
        modify fun s => { s with stack := head :: s.stack }
        let outcome ← inHead token
        removeOpen head
        return outcome
    else if tag.name = "head" then return .done
    else start
  | .endTag name =>
    if name = "template" then inHead token
    else if ["body", "html", "br"].contains name then start
    else return .done
  | .endOfFile => start

/-! ## The body -/

/-- The end of the text in a template ends the template. -/
def templateEndOfFile : Build Outcome := do
  if ← templateOpen then
    endTemplate
    return .again
  else return .done

/-- The names of blocks that end a paragraph. -/
def blockNames : List String :=
  ["address", "article", "aside", "blockquote", "center", "details", "dialog", "dir", "div", "dl",
   "fieldset", "figcaption", "figure", "footer", "header", "hgroup", "main", "menu", "nav", "ol",
   "p", "search", "section", "summary", "ul"]

/-- The names of blocks with an ordinary end tag. -/
def blockEndNames : List String :=
  ["address", "article", "aside", "blockquote", "button", "center", "details", "dialog", "dir",
   "div", "dl", "fieldset", "figcaption", "figure", "footer", "header", "hgroup", "listing",
   "main", "menu", "nav", "ol", "pre", "search", "section", "summary", "ul"]

/-- The names of formatting elements but `a` and `nobr`. -/
def formattingNames : List String :=
  ["b", "big", "code", "em", "font", "i", "s", "small", "strike", "strong", "tt", "u"]

/-- The names of elements that count only inside of tables and framesets. -/
def misplacedNames : List String :=
  ["caption", "col", "colgroup", "frame", "head", "tbody", "td", "tfoot", "th", "thead", "tr"]

/-- End the list item that a new one follows. -/
def closeItem (names : List String) : Build Unit := do
  let s ← get
  go s s.stack
where
  /-- The same for the elements that are left, innermost first. -/
  go (s : Construction) : List Nat → Build Unit
    | [] => return
    | n :: rest => do
      let found := s.nameOf n
      if found.isOneOf names then
        closeImplied [found.name]
        popUntil [found.name]
      else if isSpecial found && !found.isOneOf ["address", "div", "p"] then return
      else go s rest

/-- Add an element that takes no content among text. -/
def insertInline (tag : Tag) : Build Unit := do
  reopenFormatting
  insertVoid tag
  noFrameset

/-- A start tag in the body that the head does not take. -/
def bodyStart (tag : Tag) : Build Outcome := do
  let name := tag.name
  if blockNames.contains name then
    closeParagraph
    let _ ← insertElement tag
  else if headings.contains name then
    closeParagraph
    if ← currentIs headings then pop
    let _ ← insertElement tag
  else if name = "pre" || name = "listing" then
    closeParagraph
    let _ ← insertElement tag
    modify fun s => { s with skipLineFeed := true, framesetOk := false }
  else if name = "form" then
    let inTemplate ← templateOpen
    if (← get).form.isNone || inTemplate then
      closeParagraph
      let form ← insertElement tag
      if !inTemplate then modify fun s => { s with form := some form }
  else if name = "li" then
    noFrameset
    closeItem ["li"]
    closeParagraph
    let _ ← insertElement tag
  else if name = "dd" || name = "dt" then
    noFrameset
    closeItem ["dd", "dt"]
    closeParagraph
    let _ ← insertElement tag
  else if name = "plaintext" then
    closeParagraph
    let _ ← insertElement tag
    modify fun s => { s with textMode := .plain }
  else if name = "button" then
    if ← inScope generalScope ["button"] then
      closeImplied []
      popUntil ["button"]
    reopenFormatting
    let _ ← insertElement tag
    noFrameset
  else if name = "a" then
    match (← get).formattingElement? "a" with
    | some (n, _) =>
      closeFormatting "a"
      forgetFormatting n
      removeOpen n
    | none => pure ()
    reopenFormatting
    openFormatting tag
  else if formattingNames.contains name then
    reopenFormatting
    openFormatting tag
  else if name = "nobr" then
    reopenFormatting
    if ← inScope generalScope ["nobr"] then
      closeFormatting "nobr"
      reopenFormatting
    openFormatting tag
  else if ["applet", "marquee", "object"].contains name then
    reopenFormatting
    let _ ← insertElement tag
    pushMarker
    noFrameset
  else if name = "table" then
    if !(← get).oldLayout then closeParagraph
    let _ ← insertElement tag
    noFrameset
    setMode .inTable
  else if ["area", "br", "embed", "img", "keygen", "wbr"].contains name then insertInline tag
  else if name = "input" then
    let hidden := tag.attributes.any fun a => a.1 = "type" && lowered a.2 = "hidden"
    reopenFormatting
    insertVoid tag
    if !hidden then noFrameset
  else if ["param", "source", "track"].contains name then insertVoid tag
  else if name = "hr" then
    closeParagraph
    insertVoid tag
    noFrameset
  else if name = "image" then insertInline { tag with name := "img" }
  else if name = "textarea" then
    insertWithText tag (.escapable "textarea")
    modify fun s => { s with skipLineFeed := true, framesetOk := false }
  else if name = "xmp" then
    closeParagraph
    reopenFormatting
    noFrameset
    insertWithText tag (.raw "xmp")
  else if name = "iframe" then
    noFrameset
    insertWithText tag (.raw "iframe")
  else if name = "noembed" then insertWithText tag (.raw "noembed")
  else if name = "select" then
    reopenFormatting
    let _ ← insertElement tag
    noFrameset
    modify fun s =>
      let inTable := [InsertionMode.inTable, .inCaption, .inTableBody, .inRow, .inCell].contains
        s.mode
      { s with mode := if inTable then .inSelectInTable else .inSelect }
  else if name = "optgroup" || name = "option" then
    if ← currentIs ["option"] then pop
    reopenFormatting
    let _ ← insertElement tag
  else if name = "rb" || name = "rtc" then
    if ← inScope generalScope ["ruby"] then closeImplied []
    let _ ← insertElement tag
  else if name = "rp" || name = "rt" then
    if ← inScope generalScope ["ruby"] then closeImplied ["rtc"]
    let _ ← insertElement tag
  else if name = "math" then
    reopenFormatting
    insertForeign .mathml tag
  else if name = "svg" then
    reopenFormatting
    insertForeign .svg tag
  else if misplacedNames.contains name then pure ()
  else
    reopenFormatting
    let _ ← insertElement tag
  return .done

/-- An end tag in the body. -/
def bodyEnd (name : String) : Build Outcome := do
  if name = "body" then
    if ← inScope generalScope ["body"] then setMode .afterBody
    return .done
  else if name = "html" then
    if ← inScope generalScope ["body"] then
      setMode .afterBody
      return .again
    else return .done
  else
    if blockEndNames.contains name then
      if ← inScope generalScope [name] then
        closeImplied []
        popUntil [name]
    else if name = "form" then
      if ← templateOpen then
        if ← inScope generalScope ["form"] then
          closeImplied []
          popUntil ["form"]
      else
        let form := (← get).form
        modify fun s => { s with form := none }
        match form with
        | none => pure ()
        | some n =>
          if ← nodeInScope n then
            closeImplied []
            removeOpen n
    else if name = "p" then
      if !(← inScope buttonScope ["p"]) then
        let _ ← insertPlain "p"
      endParagraph
    else if name = "li" then
      if ← inScope listScope ["li"] then
        closeImplied ["li"]
        popUntil ["li"]
    else if name = "dd" || name = "dt" then
      if ← inScope generalScope [name] then
        closeImplied [name]
        popUntil [name]
    else if headings.contains name then
      if ← inScope generalScope headings then
        closeImplied []
        popUntil headings
    else if formattingNames.contains name || name = "a" || name = "nobr" then closeFormatting name
    else if ["applet", "marquee", "object"].contains name then
      if ← inScope generalScope [name] then
        closeImplied []
        popUntil [name]
        clearToMarker
    else if name = "br" then insertInline ⟨"br", [], false⟩
    else closeOther name
    return .done

/-- A second start tag of the body: its attributes count where they are new. -/
def secondBody (tag : Tag) : Build Outcome := do
  let s ← get
  match s.stack.reverse with
  | _ :: body :: _ =>
    if (s.nameOf body).isOneOf ["body"] && !(← templateOpen) then
      noFrameset
      addMissing body tag
  | _ => pure ()
  return .done

/-- A frameset in the place of a body that is still empty. -/
def replaceBody (tag : Tag) : Build Outcome := do
  let s ← get
  match s.stack.reverse with
  | root :: body :: _ =>
    if (s.nameOf body).isOneOf ["body"] && s.framesetOk then
      detach body
      modify fun t => { t with stack := [root] }
      let _ ← insertElement tag
      setMode .inFrameset
  | _ => pure ()
  return .done

/-- Take a token in the body. -/
def inBody (token : Token) : Build Outcome := do
  match token with
  | .char c =>
    if c != '\x00' then
      reopenFormatting
      insertChar c
      if !isAsciiBlank c then noFrameset
    return .done
  | .comment content =>
    insertComment content
    return .done
  | .doctype _ => return .done
  | .startTag tag =>
    if tag.name = "html" then htmlStart tag
    else if ["base", "basefont", "bgsound", "link", "meta", "noframes", "script", "style",
        "template", "title"].contains tag.name then inHead token
    else if tag.name = "body" then secondBody tag
    else if tag.name = "frameset" then replaceBody tag
    else bodyStart tag
  | .endTag name => if name = "template" then inHead token else bodyEnd name
  | .endOfFile =>
    if (← get).templateModes.isEmpty then return .done else templateEndOfFile

/-- Take a token in an element whose text is read in a mode of its own. -/
def inText (token : Token) : Build Outcome := do
  let leave : Build Unit := do
    pop
    modify fun s => { s with mode := s.originalMode }
  match token with
  | .char c =>
    insertChar c
    return .done
  | .endOfFile =>
    leave
    return .again
  | _ =>
    leave
    return .done

/-! ## Tables -/

/-- Take a token by the rules of the body, moving content in front of the table. -/
def fostered (token : Token) : Build Outcome := do
  modify fun s => { s with fostering := true }
  let outcome ← inBody token
  modify fun s => { s with fostering := false }
  return outcome

/-- The names of the groups of rows. -/
def rowGroupNames : List String :=
  ["tbody", "tfoot", "thead"]

/-- Take a token directly in a table. -/
def inTable (token : Token) : Build Outcome := do
  match token with
  | .char _ =>
    if ← currentIs ["table", "tbody", "template", "tfoot", "thead", "tr"] then
      modify fun s =>
        { s with tableText := [], originalMode := s.mode, mode := .inTableText }
      return .again
    else fostered token
  | .comment content =>
    insertComment content
    return .done
  | .doctype _ => return .done
  | .startTag tag =>
    let name := tag.name
    if name = "caption" then
      clearTo ["table", "template", "html"]
      pushMarker
      let _ ← insertElement tag
      setMode .inCaption
      return .done
    else if name = "colgroup" then
      clearTo ["table", "template", "html"]
      let _ ← insertElement tag
      setMode .inColumnGroup
      return .done
    else if name = "col" then
      clearTo ["table", "template", "html"]
      let _ ← insertPlain "colgroup"
      setMode .inColumnGroup
      return .again
    else if rowGroupNames.contains name then
      clearTo ["table", "template", "html"]
      let _ ← insertElement tag
      setMode .inTableBody
      return .done
    else if ["td", "th", "tr"].contains name then
      clearTo ["table", "template", "html"]
      let _ ← insertPlain "tbody"
      setMode .inTableBody
      return .again
    else if name = "table" then
      if ← inScope tableScope ["table"] then
        popUntil ["table"]
        resetMode
        return .again
      else return .done
    else if ["style", "script", "template"].contains name then inHead token
    else if name = "input" &&
        tag.attributes.any (fun a => a.1 = "type" && lowered a.2 = "hidden") then
      insertVoid tag
      return .done
    else if name = "form" then
      if !(← templateOpen) && (← get).form.isNone then
        let form ← insertElement tag
        modify fun s => { s with form := some form }
        pop
      return .done
    else fostered token
  | .endTag name =>
    if name = "table" then
      if ← inScope tableScope ["table"] then
        popUntil ["table"]
        resetMode
      return .done
    else if ["body", "caption", "col", "colgroup", "html", "tbody", "td", "tfoot", "th", "thead",
        "tr"].contains name then return .done
    else if name = "template" then inHead token
    else fostered token
  | .endOfFile => inBody token

/-- Put the gathered text of a table into its place: blanks stay, any other text is moved in front
of the table. -/
def flushTableText : Build Unit := do
  let text := (← get).tableText.reverse
  if text.all isAsciiBlank then
    for c in text do insertChar c
  else
    for c in text do
      let _ ← fostered (.char c)
  modify fun s => { s with tableText := [], mode := s.originalMode }

/-- Take a token while the text of a table is gathered. -/
def inTableText (token : Token) : Build Outcome := do
  match token with
  | .char c =>
    if c != '\x00' then modify fun s => { s with tableText := c :: s.tableText }
    return .done
  | _ =>
    flushTableText
    return .again

/-- The names of the tags that end a caption. -/
def tablePartNames : List String :=
  ["caption", "col", "colgroup", "tbody", "td", "tfoot", "th", "thead", "tr"]

/-- End the open caption, if there is one. -/
def endCaption : Build Bool := do
  if ← inScope tableScope ["caption"] then
    closeImplied []
    popUntil ["caption"]
    clearToMarker
    setMode .inTable
    return true
  else return false

/-- Take a token in a caption. -/
def inCaption (token : Token) : Build Outcome := do
  let leave : Build Outcome := do
    if ← endCaption then return .again else return .done
  match token with
  | .startTag tag => if tablePartNames.contains tag.name then leave else inBody token
  | .endTag name =>
    if name = "caption" then
      let _ ← endCaption
      return .done
    else if name = "table" then leave
    else if ["body", "col", "colgroup", "html", "tbody", "td", "tfoot", "th", "thead",
        "tr"].contains name then return .done
    else inBody token
  | _ => inBody token

/-- Take a token in a group of columns. -/
def inColumnGroup (token : Token) : Build Outcome := do
  let leave : Build Outcome := do
    if ← currentIs ["colgroup"] then
      pop
      setMode .inTable
      return .again
    else return .done
  match token with
  | .char c =>
    if isAsciiBlank c then
      insertChar c
      return .done
    else leave
  | .comment content =>
    insertComment content
    return .done
  | .doctype _ => return .done
  | .startTag tag =>
    if tag.name = "html" then htmlStart tag
    else if tag.name = "col" then
      insertVoid tag
      return .done
    else if tag.name = "template" then inHead token
    else leave
  | .endTag name =>
    if name = "colgroup" then
      if ← currentIs ["colgroup"] then
        pop
        setMode .inTable
      return .done
    else if name = "col" then return .done
    else if name = "template" then inHead token
    else leave
  | .endOfFile => inBody token

/-- End the open group of rows. -/
def endRowGroup : Build Unit := do
  clearTo ["tbody", "tfoot", "thead", "template", "html"]
  pop
  setMode .inTable

/-- Take a token in a group of rows. -/
def inTableBody (token : Token) : Build Outcome := do
  let leave : Build Outcome := do
    if ← inScope tableScope rowGroupNames then
      endRowGroup
      return .again
    else return .done
  match token with
  | .startTag tag =>
    if tag.name = "tr" then
      clearTo ["tbody", "tfoot", "thead", "template", "html"]
      let _ ← insertElement tag
      setMode .inRow
      return .done
    else if tag.name = "th" || tag.name = "td" then
      clearTo ["tbody", "tfoot", "thead", "template", "html"]
      let _ ← insertPlain "tr"
      setMode .inRow
      return .again
    else if ["caption", "col", "colgroup", "tbody", "tfoot", "thead"].contains tag.name then leave
    else inTable token
  | .endTag name =>
    if rowGroupNames.contains name then
      if ← inScope tableScope [name] then endRowGroup
      return .done
    else if name = "table" then leave
    else if ["body", "caption", "col", "colgroup", "html", "td", "th", "tr"].contains name then
      return .done
    else inTable token
  | _ => inTable token

/-- End the open row, if there is one. -/
def endRow : Build Bool := do
  if ← inScope tableScope ["tr"] then
    clearTo ["tr", "template", "html"]
    pop
    setMode .inTableBody
    return true
  else return false

/-- Take a token in a row. -/
def inRow (token : Token) : Build Outcome := do
  let leave : Build Outcome := do
    if ← endRow then return .again else return .done
  match token with
  | .startTag tag =>
    if tag.name = "th" || tag.name = "td" then
      clearTo ["tr", "template", "html"]
      let _ ← insertElement tag
      setMode .inCell
      pushMarker
      return .done
    else if ["caption", "col", "colgroup", "tbody", "tfoot", "thead", "tr"].contains tag.name then
      leave
    else inTable token
  | .endTag name =>
    if name = "tr" then
      let _ ← endRow
      return .done
    else if name = "table" then leave
    else if rowGroupNames.contains name then
      if ← inScope tableScope [name] then leave else return .done
    else if ["body", "caption", "col", "colgroup", "html", "td", "th"].contains name then
      return .done
    else inTable token
  | _ => inTable token

/-- End the open cell. -/
def endCell : Build Unit := do
  closeImplied []
  popUntil ["td", "th"]
  clearToMarker
  setMode .inRow

/-- Take a token in a cell. -/
def inCell (token : Token) : Build Outcome := do
  match token with
  | .startTag tag =>
    if tablePartNames.contains tag.name then
      if ← inScope tableScope ["td", "th"] then
        endCell
        return .again
      else return .done
    else inBody token
  | .endTag name =>
    if name = "td" || name = "th" then
      if ← inScope tableScope [name] then
        closeImplied []
        popUntil [name]
        clearToMarker
        setMode .inRow
      return .done
    else if ["body", "caption", "col", "colgroup", "html"].contains name then return .done
    else if ["table", "tbody", "tfoot", "thead", "tr"].contains name then
      if ← inScope tableScope [name] then
        endCell
        return .again
      else return .done
    else inBody token
  | _ => inBody token

/-! ## Selections, templates and framesets -/

/-- End the open selection. -/
def endSelect : Build Unit := do
  popUntil ["select"]
  resetMode

/-- Take a token in a selection. -/
def inSelect (token : Token) : Build Outcome := do
  match token with
  | .char c =>
    if c != '\x00' then insertChar c
    return .done
  | .comment content =>
    insertComment content
    return .done
  | .doctype _ => return .done
  | .startTag tag =>
    let name := tag.name
    if name = "html" then htmlStart tag
    else if name = "option" then
      if ← currentIs ["option"] then pop
      let _ ← insertElement tag
      return .done
    else if name = "optgroup" || name = "hr" then
      if ← currentIs ["option"] then pop
      if ← currentIs ["optgroup"] then pop
      if name = "hr" then insertVoid tag
      else
        let _ ← insertElement tag
      return .done
    else if name = "select" then
      if ← inScope selectScope ["select"] then endSelect
      return .done
    else if ["input", "keygen", "textarea"].contains name then
      if ← inScope selectScope ["select"] then
        endSelect
        return .again
      else return .done
    else if name = "script" || name = "template" then inHead token
    else return .done
  | .endTag name =>
    if name = "optgroup" then
      let s ← get
      match s.stack with
      | n :: m :: _ =>
        if (s.nameOf n).isOneOf ["option"] && (s.nameOf m).isOneOf ["optgroup"] then pop
      | _ => pure ()
      if ← currentIs ["optgroup"] then pop
      return .done
    else if name = "option" then
      if ← currentIs ["option"] then pop
      return .done
    else if name = "select" then
      if ← inScope selectScope ["select"] then endSelect
      return .done
    else if name = "template" then inHead token
    else return .done
  | .endOfFile => inBody token

/-- Take a token in a selection inside of a table. -/
def inSelectInTable (token : Token) : Build Outcome := do
  let names := ["caption", "table", "tbody", "tfoot", "thead", "tr", "td", "th"]
  match token with
  | .startTag tag =>
    if names.contains tag.name then
      endSelect
      return .again
    else inSelect token
  | .endTag name =>
    if names.contains name then
      if ← inScope tableScope [name] then
        endSelect
        return .again
      else return .done
    else inSelect token
  | _ => inSelect token

/-- Go on in another mode for the content of a template. -/
def templateMode (mode : InsertionMode) : Build Outcome := do
  modify fun s => { s with templateModes := mode :: s.templateModes.drop 1, mode := mode }
  return .again

/-- Take a token in a template. -/
def inTemplate (token : Token) : Build Outcome := do
  match token with
  | .char _ => inBody token
  | .comment _ => inBody token
  | .doctype _ => inBody token
  | .startTag tag =>
    if ["base", "basefont", "bgsound", "link", "meta", "noframes", "script", "style", "template",
        "title"].contains tag.name then inHead token
    else if ["caption", "colgroup", "tbody", "tfoot", "thead"].contains tag.name then
      templateMode .inTable
    else if tag.name = "col" then templateMode .inColumnGroup
    else if tag.name = "tr" then templateMode .inTableBody
    else if tag.name = "td" || tag.name = "th" then templateMode .inRow
    else templateMode .inBody
  | .endTag name => if name = "template" then inHead token else return .done
  | .endOfFile => templateEndOfFile

/-- Take a token after the body. -/
def afterBody (token : Token) : Build Outcome := do
  let back : Build Outcome := do
    setMode .inBody
    return .again
  match token with
  | .char c => if isAsciiBlank c then inBody token else back
  | .comment content =>
    appendComment ((← get).stack.getLastD documentNode) content
    return .done
  | .doctype _ => return .done
  | .startTag tag => if tag.name = "html" then htmlStart tag else back
  | .endTag name =>
    if name = "html" then
      if !(← get).fragment then setMode .afterAfterBody
      return .done
    else back
  | .endOfFile => return .done

/-- Take a token in a frameset. -/
def inFrameset (token : Token) : Build Outcome := do
  match token with
  | .char c =>
    if isAsciiBlank c then insertChar c
    return .done
  | .comment content =>
    insertComment content
    return .done
  | .startTag tag =>
    if tag.name = "html" then htmlStart tag
    else if tag.name = "frameset" then
      let _ ← insertElement tag
      return .done
    else if tag.name = "frame" then
      insertVoid tag
      return .done
    else if tag.name = "noframes" then inHead token
    else return .done
  | .endTag name =>
    if name = "frameset" && 1 < (← get).stack.length then
      pop
      if !(← get).fragment && !(← currentIs ["frameset"]) then setMode .afterFrameset
    return .done
  | _ => return .done

/-- Take a token after the framesets. -/
def afterFrameset (token : Token) : Build Outcome := do
  match token with
  | .char c =>
    if isAsciiBlank c then insertChar c
    return .done
  | .comment content =>
    insertComment content
    return .done
  | .startTag tag =>
    if tag.name = "html" then htmlStart tag
    else if tag.name = "noframes" then inHead token
    else return .done
  | .endTag name =>
    if name = "html" then setMode .afterAfterFrameset
    return .done
  | _ => return .done

/-- Take a token after the end of the document. -/
def afterAfterBody (token : Token) : Build Outcome := do
  let back : Build Outcome := do
    setMode .inBody
    return .again
  match token with
  | .char c => if isAsciiBlank c then inBody token else back
  | .comment content =>
    appendComment documentNode content
    return .done
  | .doctype _ => return .done
  | .startTag tag => if tag.name = "html" then htmlStart tag else back
  | .endTag _ => back
  | .endOfFile => return .done

/-- Take a token after the end of a document with framesets. -/
def afterAfterFrameset (token : Token) : Build Outcome := do
  match token with
  | .char c => if isAsciiBlank c then inBody token else return .done
  | .comment content =>
    appendComment documentNode content
    return .done
  | .startTag tag =>
    if tag.name = "html" then htmlStart tag
    else if tag.name = "noframes" then inHead token
    else return .done
  | _ => return .done

/-! ## Tokens -/

/-- Take a token once by the rules of the current mode. -/
def byMode (token : Token) : Build Outcome := do
  match (← get).mode with
  | .initial => initially token
  | .beforeHtml => beforeHtml token
  | .beforeHead => beforeHead token
  | .inHead => inHead token
  | .inHeadNoscript => inHeadNoscript token
  | .afterHead => afterHead token
  | .inBody => inBody token
  | .text => inText token
  | .inTable => inTable token
  | .inTableText => inTableText token
  | .inCaption => inCaption token
  | .inColumnGroup => inColumnGroup token
  | .inTableBody => inTableBody token
  | .inRow => inRow token
  | .inCell => inCell token
  | .inSelect => inSelect token
  | .inSelectInTable => inSelectInTable token
  | .inTemplate => inTemplate token
  | .afterBody => afterBody token
  | .inFrameset => inFrameset token
  | .afterFrameset => afterFrameset token
  | .afterAfterBody => afterAfterBody token
  | .afterAfterFrameset => afterAfterFrameset token

/-- Take a token once. -/
def takeOnce (token : Token) : Build Outcome := do
  if (← get).isForeignToken token then
    match ← inForeign token with
    | .done => return .done
    | .byMode => byMode token
  else byMode token

/-- Take a token until it is done, at most so many times. -/
def takeSteps (token : Token) : Nat → Build Unit
  | 0 => return
  | fuel + 1 => do
    match ← takeOnce token with
    | .done => return
    | .again => takeSteps token fuel

/-- Take a token. Each further round ends an element or leaves a mode for good, so the open
elements bound the rounds. -/
def takeToken (token : Token) : Build Unit := do
  let s ← get
  let skip := s.skipLineFeed
  modify fun t => { t with skipLineFeed := false }
  if skip && token = .char '\n' then return
  takeSteps token (4 * s.stack.length + 32)

end MarkupTemplate.Html
