import MarkupTemplate.Html.NamedReferences
import MarkupTemplate.Text.Classes
import Std.Data.HashMap

/-!
# Character references

The characters that `&name;` and `&#number;` stand for.

* `reference?` — the reference at the front of a text, whose ampersand was read.
* `decodeAttribute` — an attribute value with its references replaced.

Of several names that fit, the longest counts. Some old names may go without a semicolon, but in
an attribute value only where no letter, digit or equals sign follows.
-/

namespace MarkupTemplate.Html

/-- The value of a hexadecimal digit, zero for other characters. -/
def hexValue (c : Char) : Nat :=
  if Text.isDigit c then c.toNat - '0'.toNat
  else if 'a' ≤ c && c ≤ 'f' then c.toNat - 'a'.toNat + 10
  else if 'A' ≤ c && c ≤ 'F' then c.toNat - 'A'.toNat + 10
  else 0

/-- A hexadecimal digit. -/
def isHexDigit (c : Char) : Bool :=
  Text.isDigit c || ('a' ≤ c && c ≤ 'f') || ('A' ≤ c && c ≤ 'F')

/-- The number a run of digits stands for. -/
def numeral (base : Nat) (digits : List Char) : Nat :=
  digits.foldl (fun n c => n * base + hexValue c) 0

/-- One entry of the table of names: the name and what it stands for. -/
def namedEntry? (entry : String) : Option (String × List Char) :=
  match entry.splitOn ":" with
  | [name, codes] =>
    some (name, (codes.splitOn "-").map fun code => Char.ofNat (numeral 16 code.toList))
  | _ => none

/-- The named references by name. -/
def namedReferences : Std.HashMap String (List Char) :=
  Std.HashMap.ofList
    (namedReferenceLines.flatMap fun line => (line.splitOn " ").filterMap namedEntry?)

/-- A letter or digit of ASCII. -/
def isNameChar (c : Char) : Bool :=
  Text.isAsciiAlpha c || Text.isDigit c

/-- The longest name of at most `n` characters at the front of a text. -/
def longestName? (cs : List Char) : Nat → Option (List Char × List Char × List Char)
  | 0 => none
  | n + 1 =>
    let name := cs.take (n + 1)
    match namedReferences[String.ofList name]? with
    | some value => some (name, value, cs.drop (n + 1))
    | none => longestName? cs n

/-- A named reference at the front of a text. -/
def named? (inAttribute : Bool) (cs : List Char) : Option (List Char × List Char) :=
  let run := cs.takeWhile isNameChar
  let reach := run.length + (if (cs.drop run.length).head? = some ';' then 1 else 0)
  match longestName? cs (min reach 40) with
  | none => none
  | some (name, value, rest) =>
    let unclosed := name.getLast? != some ';'
    let joined := match rest.head? with
      | some c => c = '=' || isNameChar c
      | none => false
    if inAttribute && unclosed && joined then none else some (value, rest)

/-- What the code points 128 to 159 stand for in a numeric reference, zero where they stand for
themselves. -/
def controlReplacements : List Nat :=
  [0x20AC, 0, 0x201A, 0x192, 0x201E, 0x2026, 0x2020, 0x2021, 0x2C6, 0x2030, 0x160, 0x2039, 0x152,
   0, 0x17D, 0, 0, 0x2018, 0x2019, 0x201C, 0x201D, 0x2022, 0x2013, 0x2014, 0x2DC, 0x2122, 0x161,
   0x203A, 0x153, 0, 0x17E, 0x178]

/-- The character that stands in for a wrong one. -/
def replacement : Char := '\ufffd'

/-- The character of a numeric reference. -/
def numbered (n : Nat) : Char :=
  if n = 0 || 0x10FFFF < n || (0xD800 ≤ n && n ≤ 0xDFFF) then replacement
  else
    let other := if 128 ≤ n then controlReplacements.getD (n - 128) 0 else 0
    Char.ofNat (if other = 0 then n else other)

/-- A numeric reference at the front of a text whose `&#` was read. -/
def numeric? (cs : List Char) : Option (List Char × List Char) :=
  let hex := cs.head? = some 'x' || cs.head? = some 'X'
  let body := if hex then cs.drop 1 else cs
  let digits := body.takeWhile (if hex then isHexDigit else Text.isDigit)
  if digits.isEmpty then none
  else
    let rest := body.drop digits.length
    let rest := if rest.head? = some ';' then rest.drop 1 else rest
    some ([numbered (numeral (if hex then 16 else 10) digits)], rest)

/-- The reference at the front of a text whose ampersand was read: its characters and the rest. -/
def reference? (inAttribute : Bool) : List Char → Option (List Char × List Char)
  | '#' :: cs => numeric? cs
  | cs => named? inAttribute cs

/-- A text with its references replaced. A reference takes at least one character, so the length
bounds the steps. -/
def decodeSteps (inAttribute : Bool) : Nat → List Char → List Char
  | 0, cs => cs
  | _ + 1, [] => []
  | fuel + 1, c :: cs =>
    if c = '&' then
      match reference? inAttribute cs with
      | some (value, rest) => value ++ decodeSteps inAttribute fuel rest
      | none => c :: decodeSteps inAttribute fuel cs
    else c :: decodeSteps inAttribute fuel cs

/-- An attribute value with its references replaced. -/
def decodeAttribute (cs : List Char) : List Char :=
  decodeSteps true cs.length cs

end MarkupTemplate.Html
