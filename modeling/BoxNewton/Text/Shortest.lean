/-
The shortest decimal text that reads back as the same floating-point number. Of all decimals with a
given number of digits only the two neighbours of the value matter: if one of them reads back, the
nearer one that does is taken, and no fewer digits are enough.
-/
import BoxNewton.Text.Decimal

namespace BoxNewton.Text

/-- The number that reads as `digits * 10 ^ exponent`. -/
def readDecimal (digits : Nat) (exponent : Int) : Float :=
  Float.ofScientific digits (decide (exponent < 0)) exponent.natAbs

/-- A decimal of `count` digits that reads back as `x`, the positive fraction `num / den`. -/
def decimalOf? (x : Float) (num den count : Nat) : Option Decimal :=
  let exponent := decimalExponent num den
  let shift := (count : Int) - 1 - exponent
  let (a, b) := scaled num den shift
  let nearest := roundHalfEven a b
  let other := if nearest = a / b then nearest + 1 else a / b
  let found := [nearest, other].find? fun digits => readDecimal digits (-shift) == x
  found.map fun digits =>
    if digits < power 10 count then ⟨digits, exponent⟩ else ⟨digits / 10, exponent + 1⟩

/-- The shortest decimal that reads back as `x`, the positive fraction `num / den`. Seventeen digits
are always enough. -/
def shortestDecimal (x : Float) (num den : Nat) : Decimal :=
  ((List.range 17).findSome? fun k => decimalOf? x num den (k + 1)).getD (significant 17 num den)

/-- The decimal in positional notation, with at least one digit on either side of the point. -/
def positional (d : Decimal) : String :=
  let digits := toString d.digits
  if d.exponent < 0 then
    "0." ++ "".pushn '0' (d.exponent.natAbs - 1) ++ digits
  else
    let whole := d.exponent.toNat + 1
    if digits.length ≤ whole then digits ++ "".pushn '0' (whole - digits.length) ++ ".0"
    else (digits.take whole).toString ++ "." ++ (digits.drop whole).toString

/-- The shortest text: positional from `10 ^ -4` to below `10 ^ 16`, and otherwise with an exponent. -/
def shortest (x : Float) : String :=
  match Binary.ofFloat x with
  | .notANumber => "nan"
  | .infinite negative => signText negative ++ "inf"
  | .finite negative mantissa exponent =>
    if mantissa = 0 then signText negative ++ "0.0"
    else
      let (num, den) := fractionOf mantissa exponent
      let d := shortestDecimal (if negative then -x else x) num den
      signText negative ++
        (if -4 ≤ d.exponent ∧ d.exponent < 16 then positional d
        else pointed (toString d.digits) ++ exponentText d.exponent)

end BoxNewton.Text
