/-!
# The parts of a double

Exact integer arithmetic on doubles, for the operations whose result needs no rounding.

* `Parts` — sign, mantissa and exponent of a finite double; `Parts.of` reads them off the bits and
  `Parts.toFloat` puts a representable value back together.
* `floor`, `ceiling` — the neighbouring whole numbers, keeping the sign of a zero.
* `remainder` — the remainder of truncated division, with the sign of the dividend.
-/

namespace MarkupTemplate.Number

/-- A finite double: `mantissa * 2 ^ exponent`, negated if `negative`. -/
structure Parts where
  negative : Bool
  mantissa : Nat
  exponent : Int
deriving DecidableEq, Repr

/-- The parts of a finite double, read off its 64 bits. -/
def Parts.of (x : Float) : Parts :=
  let bits := x.toBits.toNat
  let fraction := bits % Nat.pow 2 52
  let field : Nat := bits / Nat.pow 2 52 % 2048
  let negative : Bool := bits / Nat.pow 2 63 = 1
  if field = 0 then ⟨negative, fraction, -1074⟩
  else ⟨negative, fraction + Nat.pow 2 52, (field : Int) - 1075⟩

/-- The bits of the double with these parts. The value has to be representable: bits of the
mantissa below the last place are dropped. -/
def Parts.toBits (p : Parts) : Nat :=
  let sign := if p.negative then Nat.pow 2 63 else 0
  if p.mantissa = 0 then sign
  else
    let width : Int := p.mantissa.log2
    let top := width + p.exponent
    if top < -1022 then
      sign + (p.mantissa <<< (p.exponent + 1074).toNat) >>> (-(p.exponent + 1074)).toNat
    else
      let fraction := (p.mantissa <<< (52 - width).toNat) >>> (width - 52).toNat
      sign + (top + 1023).toNat * Nat.pow 2 52 + fraction % Nat.pow 2 52

/-- The double with these parts. -/
def Parts.toFloat (p : Parts) : Float :=
  Float.ofBits (UInt64.ofNat p.toBits)

/-- A double that is neither infinite nor NaN. -/
def isFinite (x : Float) : Bool :=
  x.toBits.toNat / Nat.pow 2 52 % 2048 < 2047

/-- The whole number next to a finite double: toward zero, and one further away from zero if
`outward` and something was cut off. -/
def Parts.whole (p : Parts) (outward : Bool) : Parts :=
  if 0 ≤ p.exponent then p
  else
    let unit := Nat.pow 2 (-p.exponent).toNat
    let rest := p.mantissa % unit
    ⟨p.negative, p.mantissa / unit + (if outward && rest != 0 then 1 else 0), 0⟩

/-- The greatest whole number not above `x`. -/
def floor (x : Float) : Float :=
  let p := Parts.of x
  if isFinite x then (p.whole p.negative).toFloat else x

/-- The least whole number not below `x`. -/
def ceiling (x : Float) : Float :=
  let p := Parts.of x
  if isFinite x then (p.whole (!p.negative)).toFloat else x

/-- Not a number. -/
def nan : Float := 0.0 / 0.0

/-- Positive infinity. -/
def infinity : Float := 1.0 / 0.0

/-- `x` less the multiple of `y` that truncated division takes out of it. -/
def remainder (x y : Float) : Float :=
  if x.isNaN || y.isNaN || !isFinite x || y == 0.0 then nan
  else if !isFinite y then x
  else
    let a := Parts.of x
    let b := Parts.of y
    let low := min a.exponent b.exponent
    let dividend := a.mantissa <<< (a.exponent - low).toNat
    let divisor := b.mantissa <<< (b.exponent - low).toNat
    Parts.toFloat ⟨a.negative, dividend % divisor, low⟩

/-- A whole finite double below `2 ^ 63` in size, as an integer. -/
def toInt (x : Float) : Int :=
  let p := (Parts.of x).whole false
  let size : Nat := p.mantissa <<< p.exponent.toNat
  if p.negative then -(size : Int) else size

end MarkupTemplate.Number
