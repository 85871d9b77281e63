/-
Decimal text of floating-point numbers. A number is read as an exact fraction, so its digits are
those of its binary value, correctly rounded with a half going to the even neighbour.
-/

namespace BoxNewton.Text

/-! ## Exact values -/

def power (base k : Nat) : Nat := Nat.pow base k

/-- What a floating-point number stands for: `mantissa * 2 ^ exponent` with a sign, or nothing. -/
inductive Binary where
  | notANumber
  | infinite (negative : Bool)
  | finite (negative : Bool) (mantissa : Nat) (exponent : Int)

/-- Reads the sign, the exponent and the fraction off the bits. -/
def Binary.ofFloat (x : Float) : Binary :=
  let bits := x.toBits.toNat
  let negative := decide (power 2 63 ≤ bits)
  let biased : Nat := bits / power 2 52 % 2048
  let fraction : Nat := bits % power 2 52
  if biased = 2047 then
    if fraction = 0 then infinite negative else notANumber
  else if biased = 0 then finite negative fraction (-1074)
  else finite negative (fraction + power 2 52) ((biased : Int) - 1075)

/-- The fraction `mantissa * 2 ^ exponent`, by numerator and denominator. -/
def fractionOf (mantissa : Nat) (exponent : Int) : Nat × Nat :=
  (mantissa * power 2 exponent.toNat, power 2 (-exponent).toNat)

/-! ## Rounding -/

/-- The whole number nearest to `num / den`, and the even one of two that are equally near. -/
def roundHalfEven (num den : Nat) : Nat :=
  let q := num / den
  let r := num % den
  if 2 * r < den then q else if den < 2 * r then q + 1 else q + q % 2

def digitCount (k : Nat) : Nat := (Nat.toDigits 10 k).length

/-- The greatest `k` with `10 ^ k ≤ num / den`, for a positive fraction. -/
def decimalExponent (num den : Nat) : Int :=
  if den ≤ num then (digitCount (num / den) : Int) - 1 else -(digitCount ((den - 1) / num) : Int)

/-- The fraction `num / den` times `10 ^ shift`. -/
def scaled (num den : Nat) (shift : Int) : Nat × Nat :=
  (num * power 10 shift.toNat, den * power 10 (-shift).toNat)

/-- Decimal digits with the exponent of the first of them. -/
structure Decimal where
  digits : Nat
  exponent : Int

/-- A positive fraction to `count` significant digits. Rounding up from nines gives one digit more,
and then the last one is dropped. -/
def significant (count num den : Nat) : Decimal :=
  let exponent := decimalExponent num den
  let (a, b) := scaled num den ((count : Int) - 1 - exponent)
  let digits := roundHalfEven a b
  if digits < power 10 count then ⟨digits, exponent⟩ else ⟨digits / 10, exponent + 1⟩

/-! ## Text -/

/-- The text, filled up with blanks on the left to the given width. -/
def padLeft (width : Nat) (s : String) : String := "".pushn ' ' (width - s.length) ++ s

/-- The text of a number with zeros in front, at least as long as the given width. -/
def zeroPadded (width k : Nat) : String :=
  let s := toString k
  "".pushn '0' (width - s.length) ++ s

/-- An exponent with its sign and at least two digits. -/
def exponentText (e : Int) : String :=
  (if e < 0 then "e-" else "e+") ++ zeroPadded 2 e.natAbs

/-- The sign in front of a number. -/
def signText (negative : Bool) : String := if negative then "-" else ""

/-- Digits with a point after the first one. -/
def pointed (digits : String) : String :=
  if digits.length ≤ 1 then digits
  else (digits.take 1).toString ++ "." ++ (digits.drop 1).toString

/-- Scientific notation with so many digits after the point. -/
def scientific (places : Nat) (x : Float) : String :=
  match Binary.ofFloat x with
  | .notANumber => "nan"
  | .infinite negative => signText negative ++ "inf"
  | .finite negative mantissa exponent =>
    let d :=
      if mantissa = 0 then ⟨0, 0⟩
      else
        let (num, den) := fractionOf mantissa exponent
        significant (places + 1) num den
    signText negative ++ pointed (zeroPadded (places + 1) d.digits) ++ exponentText d.exponent

def scientificColumn (width places : Nat) (x : Float) : String :=
  padLeft width (scientific places x)

def intColumn (width : Nat) (k : Int) : String := padLeft width (toString k)

end BoxNewton.Text
