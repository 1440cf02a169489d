import MarkupTemplate.Text.Classes

/-!
# Reading machine integers

* `readWord?` — a natural number below `2 ^ 64`, perhaps after a plus sign.
* `readSigned?` — an integer of 64 bits with its sign.
-/

namespace MarkupTemplate.Number

/-- The value of a run of decimal digits. -/
def ofDigits (digits : List Char) : Nat :=
  digits.foldl (fun n c => 10 * n + (c.toNat - '0'.toNat)) 0

/-- The value of a text that consists of digits, at least one. -/
def readDigits? (cs : List Char) : Option Nat :=
  if cs.isEmpty || !cs.all Text.isDigit then none else some (ofDigits cs)

/-- A natural number below `2 ^ 64`, perhaps after a plus sign. -/
def readWord? (cs : List Char) : Option Nat :=
  let digits := match cs with
    | '+' :: rest => rest
    | _ => cs
  (readDigits? digits).filter (· < Nat.pow 2 64)

/-- An integer from `-2 ^ 63` up to and without `2 ^ 63`. -/
def readSigned? : List Char → Option Int
  | '-' :: rest =>
    (readDigits? rest).bind fun n => if n ≤ Nat.pow 2 63 then some (-(n : Int)) else none
  | '+' :: rest => (readDigits? rest).bind fun n => if n < Nat.pow 2 63 then some n else none
  | cs => (readDigits? cs).bind fun n => if n < Nat.pow 2 63 then some n else none

end MarkupTemplate.Number
