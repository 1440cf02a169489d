import MarkupTemplate.Data.Content
import MarkupTemplate.Selector.Position

/-!
# Reading contents

* `Content.ofJson` — the content that a JSON value stands for. Objects with a key that starts with
  an at sign are sets of directives; a key that is no directive is an error in them.
-/

namespace MarkupTemplate

/-- A fault in a directive. -/
def directiveFault (detail : String) : Error :=
  ⟨.directive, detail⟩

/-- The text that stands for a value without parts. -/
def scalarText? : Json → Option String
  | .bool b => some (if b then "true" else "false")
  | .number n => some n.write
  | .string s => some s
  | _ => none

/-- The value of an attribute, nothing for null. -/
def attributeEntry (entry : String × Json) : Except Error (String × Option String) :=
  match entry.2 with
  | .null => .ok (entry.1, none)
  | other =>
    match scalarText? other with
    | some text => .ok (entry.1, some text)
    | none =>
      .error (directiveFault ("@attr value for '" ++ entry.1 ++ "' must be a scalar, got " ++
        other.write))

/-- The attributes that an object gives. -/
def attributeEntries : Json → Except Error (List (String × Option String))
  | .object entries => entries.mapM attributeEntry
  | _ => .error (directiveFault "@attr expects an object of attributes")

/-- The location that a value names. -/
def locationOf : Json → Except Error ImportLocation
  | .string text => ImportLocation.read text
  | other =>
    .error (directiveFault ("@import expects a location string, got " ++ other.write))

/-- What becomes of a node: false removes it, a name renames it, and an empty name unwraps it. -/
def renderControl : Json → Except Error RenderControl
  | .bool b => .ok (if b then .keep else .remove)
  | .string s =>
    if isBlankString s then .ok .unwrap else .ok (.rename (lowered (trimmed s)))
  | other =>
    .error (directiveFault ("@render expects a boolean or a tag name, got " ++ other.write))

/-- What an entry of a set of directives is. -/
inductive DirectiveEntry where
  | params (params : Params)
  | directive (directive : Directive)

/-- The parameters among the entries of a set; of several the last count. -/
def paramsAmong (entries : List DirectiveEntry) : Params :=
  entries.foldl (fun found e => match e with
    | .params p => p
    | .directive _ => found) .empty

/-- The directives among the entries of a set. -/
def directivesAmong (entries : List DirectiveEntry) : List Directive :=
  entries.filterMap fun
    | .directive d => some d
    | .params _ => none

/-- A key that makes an object a set of directives. -/
def isDirectiveKey (key : String) : Bool :=
  key.toList.head? = some '@'

mutual

/-- The content that a value stands for. -/
def Content.ofJson : Json → Except Error Content
  | .null => .ok (.text "")
  | .bool b => .ok (.text (if b then "true" else "false"))
  | .number n => .ok (.text n.write)
  | .string s => .ok (.text s)
  | .array items => return .list (← contentItems items)
  | .object entries =>
    if entries.any fun e => isDirectiveKey e.1 then do
      let found ← directiveEntries entries
      return .directives (paramsAmong found) (directivesAmong found)
    else return .stack (← contentEntries entries)

/-- The contents of the items of an array. -/
def contentItems : List Json → Except Error (List Content)
  | [] => .ok []
  | item :: rest => do
    let content ← Content.ofJson item
    return content :: (← contentItems rest)

/-- The contents of the entries of a stack. -/
def contentEntries : List (String × Json) → Except Error (List (String × Content))
  | [] => .ok []
  | (key, value) :: rest => do
    let content ← Content.ofJson value
    return (key, content) :: (← contentEntries rest)

/-- The entries of a set of directives. -/
def directiveEntries : List (String × Json) → Except Error (List DirectiveEntry)
  | [] => .ok []
  | (key, value) :: rest => do
    let (name, position) := splitPosition key
    let mode := position.getD .replace
    let plain := position.isNone
    let directive {α : Type} (make : α → Directive) (read : Except Error α) :
        Except Error DirectiveEntry :=
      (fun a => .directive (make a)) <$> read
    let entry ←
      if name = "@params" && plain then DirectiveEntry.params <$> Params.ofJson value
      else if name = "@content" then directive (.content mode) (Content.ofJson value)
      else if name = "@children" then directive (.children mode) (Content.ofJson value)
      else if name = "@attr" then directive (.setAttributes mode) (attributeEntries value)
      else if name = "@import" then directive (.fetch mode) (locationOf value)
      else if name = "@render" && plain then directive .control (renderControl value)
      else if name = "@repeat" && plain then directive .repetition (Content.ofJson value)
      else throw (directiveFault ("Unknown key '" ++ key ++ "' in compound directive"))
    return entry :: (← directiveEntries rest)

end

end MarkupTemplate
