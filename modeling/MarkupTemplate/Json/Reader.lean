import MarkupTemplate.Json.Value
import MarkupTemplate.Text.Classes

/-!
# Reading JSON

A strict reader: one value, blanks around it, nothing else. Reading fails or succeeds without
further detail, because no message shows one.

* `Json.read?` — the value a text stands for, with the entries of objects as they were written.
* `Json.Reader.doubleOf` — the value of a written number: its leading digits that fit 64 bits, as a
  double, times or divided by a power of ten.

Values nest at most 127 deep.
-/

namespace MarkupTemplate.Json.Reader

/-- A reader takes a value off the front of a text, or fails. -/
abbrev Read (α : Type) := List Char → Option (α × List Char)

/-- A blank between tokens. -/
def isSpace (c : Char) : Bool :=
  c = ' ' || c = '\n' || c = '\t' || c = '\r'

/-- The text after leading blanks. -/
def skip (cs : List Char) : List Char :=
  cs.dropWhile isSpace

/-! ## Numbers -/

/-- The greatest 64-bit word. -/
def maxWord : Nat := Nat.pow 2 64 - 1

/-- The value of a digit. -/
def digit (c : Char) : Nat :=
  c.toNat - '0'.toNat

/-- Whole digits joined to the significand while it fits 64 bits; each further digit only raises
the exponent. -/
def wholeDigits (significand : Nat) : List Char → Nat × Int
  | [] => (significand, 0)
  | c :: cs =>
    if significand * 10 + digit c ≤ maxWord then wholeDigits (significand * 10 + digit c) cs
    else (significand, (c :: cs).length)

/-- Digits behind the point joined to the significand while it fits; the others are dropped. -/
def fractionDigits (significand : Nat) (exponent : Int) : List Char → Nat × Int
  | [] => (significand, exponent)
  | c :: cs =>
    if significand * 10 + digit c ≤ maxWord then
      fractionDigits (significand * 10 + digit c) (exponent - 1) cs
    else (significand, exponent)

/-- A power of ten as a double. -/
def powerOfTen (n : Nat) : Float :=
  Float.ofScientific 1 false n

/-- `x` times ten to the `exponent`, or nothing if that is out of range. Exponents below -308 are
taken off in steps; two of them bring every significand to zero. -/
def scale (x : Float) (exponent : Int) : Nat → Option Float
  | 0 => some x
  | fuel + 1 =>
    if exponent.natAbs ≤ 308 then
      if 0 ≤ exponent then
        let y := x * powerOfTen exponent.natAbs
        if Number.isFinite y then some y else none
      else some (x / powerOfTen exponent.natAbs)
    else if x == 0.0 then some x
    else if 0 ≤ exponent then none
    else scale (x / powerOfTen 308) (exponent + 308) fuel

/-- The greatest exponent that is read as a number; a longer one is out of range or makes zero. -/
def maxExponent : Nat := Nat.pow 2 31 - 1

/-- A written number as a double. -/
def doubleOf (negative : Bool) (whole fraction : List Char) (exponent : Option (Bool × List Char)) :
    Option Float :=
  let (s, e) := wholeDigits 0 whole
  let (s, e) := fractionDigits s e fraction
  let value : Option Float :=
    match exponent with
    | none => scale (Float.ofNat s) e 4
    | some (down, digits) =>
      let size := digits.foldl (fun n c => n * 10 + digit c) 0
      if maxExponent < size then
        if s ≠ 0 && !down then none else some 0.0
      else scale (Float.ofNat s) (if down then e - size else e + size) 4
  value.map fun x => if negative then -x else x

/-- A number without sign. -/
def unsigned (negative : Bool) : Read Json := fun cs =>
  let whole := cs.takeWhile Text.isDigit
  let rest := cs.dropWhile Text.isDigit
  if whole.isEmpty || (whole.head? = some '0' && whole.length ≠ 1) then none
  else
    let pointed := rest.head? = some '.'
    let fraction := if pointed then (rest.drop 1).takeWhile Text.isDigit else []
    let rest := if pointed then (rest.drop 1).dropWhile Text.isDigit else rest
    if pointed && fraction.isEmpty then none
    else
      let raised := rest.head? = some 'e' || rest.head? = some 'E'
      let signed := rest.drop 1
      let down := signed.head? = some '-'
      let digits := if down || signed.head? = some '+' then signed.drop 1 else signed
      let exponent := digits.takeWhile Text.isDigit
      if raised && exponent.isEmpty then none
      else
        let value := whole.foldl (fun n c => n * 10 + digit c) 0
        let exact := !pointed && !raised && value ≤ maxWord &&
          (!negative || (value ≠ 0 && value ≤ Nat.pow 2 63))
        let after := if raised then digits.dropWhile Text.isDigit else rest
        if exact then some (.number (.integer (if negative then -value else value)), after)
        else
          (doubleOf negative whole fraction (if raised then some (down, exponent) else none)).map
            fun x => (.number (.double x), after)

/-! ## Strings -/

/-- The value of a hexadecimal digit. -/
def hexValue? (c : Char) : Option Nat :=
  if Text.isDigit c then some (c.toNat - '0'.toNat)
  else if 'a' ≤ c && c ≤ 'f' then some (c.toNat - 'a'.toNat + 10)
  else if 'A' ≤ c && c ≤ 'F' then some (c.toNat - 'A'.toNat + 10)
  else none

/-- Four hexadecimal digits. -/
def fourHex? (a b c d : Char) : Option Nat := do
  return (((← hexValue? a) * 16 + (← hexValue? b)) * 16 + (← hexValue? c)) * 16 + (← hexValue? d)

/-- The character a one-letter escape stands for. -/
def escaped? (c : Char) : Option Char :=
  if c = '"' || c = '\\' || c = '/' then some c
  else if c = 'b' then some '\x08'
  else if c = 'f' then some '\x0c'
  else if c = 'n' then some '\n'
  else if c = 'r' then some '\r'
  else if c = 't' then some '\t'
  else none

/-- The rest of a string whose opening quote was read. Surrogates have to come in pairs. -/
def stringBody (read : List Char) : Read String
  | [] => none
  | '"' :: rest => some (String.ofList read.reverse, rest)
  | '\\' :: 'u' :: a :: b :: c :: d :: rest =>
    match fourHex? a b c d with
    | none => none
    | some high =>
      if 0xD800 ≤ high && high ≤ 0xDBFF then
        match rest with
        | '\\' :: 'u' :: a' :: b' :: c' :: d' :: rest' =>
          match fourHex? a' b' c' d' with
          | none => none
          | some low =>
            if 0xDC00 ≤ low && low ≤ 0xDFFF then
              let code := 0x10000 + (high - 0xD800) * 0x400 + (low - 0xDC00)
              stringBody (Char.ofNat code :: read) rest'
            else none
        | _ => none
      else if 0xDC00 ≤ high && high ≤ 0xDFFF then none
      else stringBody (Char.ofNat high :: read) rest
  | '\\' :: c :: rest =>
    match escaped? c with
    | none => none
    | some c' => stringBody (c' :: read) rest
  | c :: rest => if c.toNat < 32 || c = '\\' then none else stringBody (c :: read) rest

/-! ## Values -/

mutual

/-- A value, possibly after blanks. The first number bounds the steps, the second the nesting. -/
def value : Nat → Nat → Read Json
  | 0, _, _ => none
  | fuel + 1, depth, cs =>
    match skip cs with
    | 'n' :: 'u' :: 'l' :: 'l' :: rest => some (.null, rest)
    | 't' :: 'r' :: 'u' :: 'e' :: rest => some (.bool true, rest)
    | 'f' :: 'a' :: 'l' :: 's' :: 'e' :: rest => some (.bool false, rest)
    | '"' :: rest => (stringBody [] rest).map fun (s, rest) => (.string s, rest)
    | '-' :: rest => unsigned true rest
    | '[' :: rest =>
      match depth with
      | 0 => none
      | depth + 1 =>
        match skip rest with
        | ']' :: rest => some (.array [], rest)
        | rest => (items fuel depth rest).map fun (xs, rest) => (.array xs, rest)
    | '\x7b' :: rest =>
      match depth with
      | 0 => none
      | depth + 1 =>
        match skip rest with
        | '\x7d' :: rest => some (.object [], rest)
        | rest => (entries fuel depth rest).map fun (es, rest) => (.object es, rest)
    | rest => unsigned false rest

/-- The items of an array up to its closing bracket. -/
def items : Nat → Nat → Read (List Json)
  | 0, _, _ => none
  | fuel + 1, depth, cs =>
    match value fuel depth cs with
    | none => none
    | some (x, rest) =>
      match skip rest with
      | ',' :: rest => (items fuel depth rest).map fun (xs, rest) => (x :: xs, rest)
      | ']' :: rest => some ([x], rest)
      | _ => none

/-- The entries of an object up to its closing brace. -/
def entries : Nat → Nat → Read (List (String × Json))
  | 0, _, _ => none
  | fuel + 1, depth, cs =>
    match skip cs with
    | '"' :: rest =>
      match stringBody [] rest with
      | none => none
      | some (key, rest) =>
        match skip rest with
        | ':' :: rest =>
          match value fuel depth rest with
          | none => none
          | some (x, rest) =>
            match skip rest with
            | ',' :: rest => (entries fuel depth rest).map fun (es, rest) => ((key, x) :: es, rest)
            | '\x7d' :: rest => some ([(key, x)], rest)
            | _ => none
        | _ => none
    | _ => none

end

end MarkupTemplate.Json.Reader

namespace MarkupTemplate

/-- The value a text stands for. Every step of the reader takes a character or opens a value, so
twice the length bounds them. -/
def Json.read? (text : String) : Option Json :=
  let cs := text.toList
  match Json.Reader.value (2 * cs.length + 2) 127 cs with
  | some (v, rest) => if (Json.Reader.skip rest).isEmpty then some v else none
  | none => none

end MarkupTemplate
