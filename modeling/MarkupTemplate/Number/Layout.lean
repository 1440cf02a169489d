import MarkupTemplate.Number.Shortest

/-!
# Writing numbers

The shortest digits of a double laid out as text. A `Layout` holds the decisions a format makes;
two formats occur.

* `Layout.plain` — always positional, nothing after a whole number: query results.
* `Layout.json` — positional near one, `.0` after a whole number, an exponent elsewhere: data.
-/

namespace MarkupTemplate.Number

/-- The decisions of a number format. -/
structure Layout where
  /-- Whether a number is written without an exponent, by the place of its decimal point: zero when
  the point stands right before the first digit. -/
  positional : Int → Bool
  /-- What follows the digits of a whole number. -/
  wholeMark : String

/-- Numbers in query results never have an exponent, and whole ones no point. -/
def Layout.plain : Layout :=
  ⟨fun _ => true, ""⟩

/-- Numbers in data have a point or an exponent, so that they read back as doubles. -/
def Layout.json : Layout :=
  ⟨fun point => -5 < point && point ≤ 16, ".0"⟩

/-- A run of zeros. -/
def zeros (n : Int) : String :=
  "".pushn '0' n.toNat

/-- An exponent, with its sign and at least two digits. -/
def exponentText (e : Int) : String :=
  let size := e.natAbs
  "e" ++ (if e < 0 then "-" else "+") ++ (if size < 10 then "0" else "") ++ toString size

/-- A positive decimal as text. -/
def Layout.digits (l : Layout) (d : Digits) : String :=
  let text := toString d.digits
  let width : Int := text.length
  let point := width + d.exponent
  if l.positional point then
    if width ≤ point then text ++ zeros (point - width) ++ l.wholeMark
    else if 0 < point then
      String.ofList (text.toList.take point.toNat) ++ "." ++
        String.ofList (text.toList.drop point.toNat)
    else "0." ++ zeros (-point) ++ text
  else
    let rest := String.ofList (text.toList.drop 1)
    String.ofList (text.toList.take 1) ++ (if rest.isEmpty then "" else "." ++ rest) ++
      exponentText (point - 1)

/-- A finite double as text. -/
def Layout.write (l : Layout) (x : Float) : String :=
  let p := Parts.of x
  let sign := if p.negative then "-" else ""
  if p.mantissa = 0 then sign ++ "0" ++ l.wholeMark
  else sign ++ l.digits (shortest p.mantissa p.exponent)

/-- The double nearest to a run of digits with `scale` of them behind the point. -/
def ofDecimal (digits : List Char) (scale : Nat) : Float :=
  let value := digits.foldl (fun n c => 10 * n + (c.toNat - '0'.toNat)) 0
  Float.ofScientific value true scale

end MarkupTemplate.Number
