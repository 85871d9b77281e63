/-
The arithmetic of the library. Each algorithm is written once over a `Scalar`, a type with the
operations and comparisons its formulas use and no law about them: floating-point numbers run it,
and exact numbers give it its meaning. A value that compares with nothing (NaN) fails every test,
so each test is written in the sense in which such a failure is the right answer.
-/

namespace BoxNewton

/-- Numbers with the field operations, a square root, an order and decimal literals. -/
class Scalar (α : Type) extends
    Zero α, One α, Neg α, Add α, Sub α, Mul α, Div α, LT α, LE α, OfScientific α where
  sqrt : α → α
  decidableLT : DecidableLT α
  decidableLE : DecidableLE α

/-- Scalars with a greatest value, the bound of an unbounded side. -/
class ExtendedScalar (α : Type) extends Scalar α where
  infinity : α

instance : Scalar Float where
  sqrt := Float.sqrt
  decidableLT := inferInstance
  decidableLE := inferInstance

instance : ExtendedScalar Float where
  infinity := 1.0 / 0.0

variable {α : Type} [Scalar α]

instance instDecidableLT : DecidableLT α := Scalar.decidableLT

instance instDecidableLE : DecidableLE α := Scalar.decidableLE

/-- Equality as the order sees it: no value that compares with nothing coincides with anything. -/
def Coincide (a b : α) : Prop := a ≤ b ∧ b ≤ a

instance (a b : α) : Decidable (Coincide a b) :=
  inferInstanceAs (Decidable (a ≤ b ∧ b ≤ a))

/-- The lesser of two values. If they do not compare, one of them is no number, and their sum,
which is none either, stands for it. -/
def lesser (a b : α) : α :=
  if a ≤ b then a else if b ≤ a then b else a + b

/-- The greater of two values, with the sum where they do not compare. -/
def greater (a b : α) : α :=
  if b ≤ a then a else if a ≤ b then b else a + b

def magnitude (a : α) : α := if a < 0 then -a else a

/-- Strictly between the infinities. -/
def IsFinite {α : Type} [ExtendedScalar α] (a : α) : Prop :=
  -ExtendedScalar.infinity < a ∧ a < ExtendedScalar.infinity

instance {α : Type} [ExtendedScalar α] (a : α) : Decidable (IsFinite a) :=
  inferInstanceAs (Decidable (-ExtendedScalar.infinity < a ∧ a < ExtendedScalar.infinity))

end BoxNewton
