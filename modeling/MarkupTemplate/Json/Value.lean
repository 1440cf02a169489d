import MarkupTemplate.Keyed
import MarkupTemplate.Number.Layout

/-!
# JSON values

Data and settings arrive as JSON.

* `Json` — a value; the entries of an object keep the order in which they were written.
* `Json.merged` — repeated keys resolved: the last value wins, at the place of the first.
* `Json.write` — compact text, as error messages quote it.
-/

namespace MarkupTemplate

/-- A number that was written: whole numbers that fit 64 bits stay exact. -/
inductive JsonNumber where
  | integer (value : Int)
  | double (value : Float)

/-- A JSON value. -/
inductive Json where
  | null
  | bool (value : Bool)
  | number (value : JsonNumber)
  | string (value : String)
  | array (items : List Json)
  | object (entries : List (String × Json))

instance : Inhabited Json := ⟨.null⟩

/-- A number as text: whole numbers as they are, doubles with a point or an exponent. -/
def JsonNumber.write : JsonNumber → String
  | .integer n => toString n
  | .double x => Number.Layout.json.write x

namespace Json

mutual

/-- Repeated keys resolved at every depth: the last value wins, at the place of the first. -/
def merged : Json → Json
  | .array items => .array (mergedItems items)
  | .object entries => .object (Keyed.ofPairs (mergedEntries entries))
  | other => other

/-- The items of an array with repeated keys resolved. -/
def mergedItems : List Json → List Json
  | [] => []
  | item :: rest => merged item :: mergedItems rest

/-- The values of an object with repeated keys inside them resolved. -/
def mergedEntries : List (String × Json) → List (String × Json)
  | [] => []
  | (key, value) :: rest => (key, merged value) :: mergedEntries rest

end

/-- A hexadecimal digit. -/
def hexDigit (n : Nat) : Char :=
  if n < 10 then Char.ofNat ('0'.toNat + n) else Char.ofNat ('a'.toNat + n - 10)

/-- One character inside a quoted string. -/
def escape (c : Char) : List Char :=
  if c = '"' then ['\\', '"']
  else if c = '\\' then ['\\', '\\']
  else if c = '\n' then ['\\', 'n']
  else if c = '\r' then ['\\', 'r']
  else if c = '\t' then ['\\', 't']
  else if c = '\x08' then ['\\', 'b']
  else if c = '\x0c' then ['\\', 'f']
  else if c.toNat < 32 then
    ['\\', 'u', '0', '0', hexDigit (c.toNat / 16), hexDigit (c.toNat % 16)]
  else [c]

/-- A quoted string. -/
def quote (s : String) : String :=
  "\"" ++ String.ofList (s.toList.flatMap escape) ++ "\""

mutual

/-- A value as compact text. -/
def write : Json → String
  | .null => "null"
  | .bool b => if b then "true" else "false"
  | .number n => n.write
  | .string s => quote s
  | .array items => "[" ++ String.intercalate "," (writeItems items) ++ "]"
  | .object entries => "\x7b" ++ String.intercalate "," (writeEntries entries) ++ "\x7d"

/-- The texts of the items of an array. -/
def writeItems : List Json → List String
  | [] => []
  | item :: rest => write item :: writeItems rest

/-- The texts of the entries of an object. -/
def writeEntries : List (String × Json) → List String
  | [] => []
  | (key, value) :: rest => (quote key ++ ":" ++ write value) :: writeEntries rest

end

end Json

end MarkupTemplate
