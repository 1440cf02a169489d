import MarkupTemplate.Json.Reader
import MarkupTemplate.Repeat.Strategy
import MarkupTemplate.Choices
import MarkupTemplate.Files

/-!
# Settings

How templates are rendered.

* `Settings` — all settings; `Settings.standard` is what holds if nothing is said.
* `Settings.read`, `Settings.load` — settings from JSON, in which every setting may be left out.

A record is an object, or an array that gives its fields in order. In an object unknown fields do
not count, and a known one may be written once.
-/

namespace MarkupTemplate

/-- A span of time. -/
structure Duration where
  seconds : Nat
  nanoseconds : Nat
deriving DecidableEq, Repr

/-- How documents are fetched from addresses. -/
structure FetchSettings where
  timeout : Duration
  userAgent : String
deriving DecidableEq, Repr

/-- How templates are rendered. -/
structure Settings where
  /-- The grammar of selectors without a marker. -/
  grammar : Grammar
  /-- The repeat strategy of lists. -/
  repetition : String
  /-- The repeat strategy of lists right inside of others, if it is another one. -/
  innerRepetition : Option String
  /-- What inserted text is, unless it is told by its looks. -/
  contentType : Option ContentType
  onEmpty : EmptyPolicy
  /-- Whether inserted markup is filled as well. -/
  fillInserted : Bool
  /-- Whether copies of nodes keep the indentation. -/
  keepIndentation : Bool
  /-- Whether a failing directive fails the whole rendering. -/
  strict : Bool
  fetching : FetchSettings
deriving DecidableEq, Repr

/-- Half a minute, and the name of this engine. -/
def FetchSettings.standard : FetchSettings :=
  ⟨⟨30, 0⟩, "html-datastack/0.1.0"⟩

/-- The settings that hold if nothing is said. -/
def Settings.standard : Settings where
  grammar := .css
  repetition := "repeat-last"
  innerRepetition := none
  contentType := none
  onEmpty := .doNothing
  fillInserted := false
  keepIndentation := false
  strict := false
  fetching := .standard

namespace Settings

/-! ## Records -/

/-- The value of a field, if it is there; a field that is there twice is none at all. -/
def field? (name : String) (entries : List (String × Json)) : Option (Option Json) :=
  match entries.filter fun e => e.1 = name with
  | [] => some none
  | [e] => some (some e.2)
  | _ => none

/-- The values of the fields of a record, as far as they are given. -/
def fields? (names : List String) : Json → Option (List (Option Json))
  | .object entries => names.mapM fun name => field? name entries
  | .array items =>
    if items.length ≤ names.length then
      some (items.map some ++ List.replicate (names.length - items.length) none)
    else none
  | _ => none

/-- A field of a record, or its standard value. -/
def fieldOr {α : Type} (standard : α) (read : Json → Option α) (fields : List (Option Json))
    (i : Nat) : Option α :=
  match fields[i]? with
  | some (some value) => read value
  | _ => some standard

/-! ## Values -/

/-- A truth value. -/
def bool? : Json → Option Bool
  | .bool b => some b
  | _ => none

/-- A text. -/
def string? : Json → Option String
  | .string s => some s
  | _ => none

/-- A natural number below a bound. -/
def natBelow? (bound : Nat) : Json → Option Nat
  | .number (.integer n) => if 0 ≤ n && n.toNat < bound then some n.toNat else none
  | _ => none

/-- A value that may be null. -/
def optional? {α : Type} (read : Json → Option α) : Json → Option (Option α)
  | .null => some none
  | value => (read value).map some

/-- One of several choices by its exact name. The name may be the only key of an object, with null
as its value. -/
def choice? {α : Type} (name : α → String) (all : List α) : Json → Option α
  | .string s => all.find? fun a => name a = s
  | .object [(s, .null)] => all.find? fun a => name a = s
  | _ => none

/-- A span of time, whose fields all have to be given and no others. Whole seconds among the
nanoseconds are carried over. -/
def duration? (value : Json) : Option Duration := do
  let known := match value with
    | .object entries => entries.all fun e => e.1 = "secs" || e.1 = "nanos"
    | _ => true
  match ← fields? ["secs", "nanos"] value with
  | [some secs, some nanos] =>
    let secs ← natBelow? (Nat.pow 2 64) secs
    let nanos ← natBelow? (Nat.pow 2 32) nanos
    let seconds := secs + nanos / Nat.pow 10 9
    if known && seconds < Nat.pow 2 64 then some ⟨seconds, nanos % Nat.pow 10 9⟩ else none
  | _ => none

/-- Settings for fetching. -/
def fetching? (value : Json) : Option FetchSettings := do
  let fields ← fields? ["timeout", "user_agent"] value
  return {
    timeout := ← fieldOr FetchSettings.standard.timeout duration? fields 0
    userAgent := ← fieldOr FetchSettings.standard.userAgent string? fields 1 }

/-- All settings. -/
def ofJson? (value : Json) : Option Settings := do
  let fields ← fields? ["selector_grammar", "repeat_fn", "repeat_fn_y", "content_type",
    "on_content_empty", "parse_inserted_data", "allow_html_formatting", "strict", "fetch"] value
  return {
    grammar := ← fieldOr standard.grammar (choice? Grammar.name [.css, .xpath]) fields 0
    repetition := ← fieldOr standard.repetition string? fields 1
    innerRepetition := ← fieldOr standard.innerRepetition (optional? string?) fields 2
    contentType := ← fieldOr standard.contentType
      (optional? (choice? ContentType.name [.markup, .text, .cdata])) fields 3
    onEmpty := ← fieldOr standard.onEmpty (choice? EmptyPolicy.name EmptyPolicy.all) fields 4
    fillInserted := ← fieldOr standard.fillInserted bool? fields 5
    keepIndentation := ← fieldOr standard.keepIndentation bool? fields 6
    strict := ← fieldOr standard.strict bool? fields 7
    fetching := ← fieldOr standard.fetching fetching? fields 8 }

/-- Settings as they are, if their repeat strategies can be read. -/
def checked (s : Settings) : Except Error Settings := do
  discard (RepeatStrategy.read s.repetition)
  match s.innerRepetition with
  | some inner => discard (RepeatStrategy.read inner)
  | none => pure ()
  return s

/-- The settings of a text of JSON. -/
def read (text : String) : Except Error Settings :=
  match (Json.read? text).bind ofJson? with
  | some s => s.checked
  | none => .error ⟨.json, "the text does not hold settings"⟩

/-- The settings in a file. -/
def load (files : Files) (path : String) : Except Error Settings :=
  match files.read path with
  | .ok text => read text
  | .error fault =>
    .error ⟨.file, "Failed to read config file '" ++ path ++ "': " ++ fault.message⟩

end Settings

end MarkupTemplate
