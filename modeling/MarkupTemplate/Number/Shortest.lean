import MarkupTemplate.Number.Parts

/-!
# Shortest decimal digits

The fewest decimal digits that read back as a given double, found in exact integer arithmetic.

* `Digits` — a decimal `digits * 10 ^ exponent`.
* `shortest` — for one, two, up to seventeen digits, the two neighbours of the value on that grid
  are tried; the first grid with a neighbour inside the rounding interval wins, and of two
  neighbours the nearer.
-/

namespace MarkupTemplate.Number

/-- The decimal `digits * 10 ^ exponent`. -/
structure Digits where
  digits : Nat
  exponent : Int
deriving DecidableEq, Repr

/-- A positive double as a quotient of two natural numbers. -/
structure Quotient where
  numerator : Nat
  denominator : Nat

/-- `m * 2 ^ q / 10 ^ k` as a quotient. -/
def Quotient.scaled (m : Nat) (q k : Int) : Quotient :=
  ⟨m * Nat.pow 2 q.toNat * Nat.pow 10 (-k).toNat, Nat.pow 2 (-q).toNat * Nat.pow 10 k.toNat⟩

/-- The interval of reals that round to `m * 2 ^ q`, on the grid `10 ^ k`, tested at `c`. The lower
half is shorter when `m` is the least mantissa of its exponent, and the ends belong to it when `m`
is even. -/
def readsBack (m : Nat) (q k : Int) (c : Nat) : Bool :=
  let below := if m = Nat.pow 2 52 && q != -1074 then 1 else 2
  let low := Quotient.scaled (4 * m - below) q k
  let high := Quotient.scaled (4 * m + 2) q k
  if m % 2 = 0 then
    low.numerator ≤ 4 * c * low.denominator && 4 * c * high.denominator ≤ high.numerator
  else
    low.numerator < 4 * c * low.denominator && 4 * c * high.denominator < high.numerator

/-- The point of the grid `10 ^ k` to write for `m * 2 ^ q`, if one reads back. -/
def gridPoint? (m : Nat) (q k : Int) : Option Nat :=
  let v := Quotient.scaled m q k
  let down := v.numerator / v.denominator
  let up := down + 1
  match readsBack m q k down, readsBack m q k up with
  | true, true => some (if 2 * v.numerator ≤ (down + up) * v.denominator then down else up)
  | true, false => some down
  | false, true => some up
  | false, false => none

/-- The least `p` with `m * 2 ^ q < 10 ^ p`, found next to its estimate from the binary width. -/
def decimalWidth (m : Nat) (q : Int) : Int :=
  let guess := ((m.log2 : Int) + q) * 30103 / 100000
  let below (p : Int) : Bool :=
    let v := Quotient.scaled m q p
    v.numerator < v.denominator
  if below guess then guess else if below (guess + 1) then guess + 1 else guess + 2

/-- Trailing zeros moved into the exponent. -/
def Digits.normal : Nat → Digits → Digits
  | 0, d => d
  | fuel + 1, d =>
    if d.digits ≠ 0 && d.digits % 10 = 0 then
      Digits.normal fuel ⟨d.digits / 10, d.exponent + 1⟩
    else d

/-- The first grid with at most `n` further digits that has a point reading back. -/
def searchGrid (m : Nat) (q : Int) (k : Int) : Nat → Digits
  | 0 =>
    let v := Quotient.scaled m q k
    ⟨v.numerator / v.denominator, k⟩
  | n + 1 =>
    match gridPoint? m q k with
    | some c => ⟨c, k⟩
    | none => searchGrid m q (k - 1) n

/-- The shortest decimal that reads back as `m * 2 ^ q`, for a positive `m`. -/
def shortest (m : Nat) (q : Int) : Digits :=
  (searchGrid m q (decimalWidth m q - 1) 17).normal 20

end MarkupTemplate.Number
