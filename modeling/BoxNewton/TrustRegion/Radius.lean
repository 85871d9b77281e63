/-
The radius of the trust region after a step: it is compared with the length of the step and with
the ratio of the actual to the predicted reduction, and kept within fixed multiples of the old one.
-/
import BoxNewton.Scalar

namespace BoxNewton.TrustRegion

variable {α : Type} [Scalar α]

/-! ## Constants -/

/-- The radius shrinks at most to this fraction of its value unless the step fails. -/
def leastShrink : α := 0.25

/-- A poor step shrinks the radius at least to this fraction of its value. -/
def mostShrink : α := 0.5

/-- The radius grows at most by this factor. -/
def mostGrowth : α := 4.0

/-- A step is accepted if the actual reduction exceeds this fraction of the predicted one. -/
def acceptance : α := 1e-4

/-- Below this fraction of the predicted reduction a step is poor. -/
def poorBelow : α := 0.25

/-- From this fraction of the predicted reduction on a step is very good. -/
def veryGoodFrom : α := 0.75

/-! ## The radius -/

/-- The fraction of the step at which the parabola through the values `f` and `trial` with the
given slope at the start has its minimum: the greatest growth if it opens downwards, and at least
the least shrink. -/
def stepRatio (f trial slope : α) : α :=
  let curvature := trial - f - slope
  if curvature ≤ 0 then mostGrowth
  else greater leastShrink (-0.5 * slope / (if 0 < curvature then curvature else 1))

/-- The new radius after a step of length `length`, `ratio` being its `stepRatio`. -/
def updateRadius {α : Type} [ExtendedScalar α] (radius actual predicted length ratio : α) : α :=
  if actual < acceptance * predicted ∨ Coincide actual (-ExtendedScalar.infinity) then
    lesser (greater ratio leastShrink * length) (mostShrink * radius)
  else if actual < poorBelow * predicted then
    greater (leastShrink * radius) (lesser (ratio * length) (mostShrink * radius))
  else if actual < veryGoodFrom * predicted then
    greater (leastShrink * radius) (lesser (ratio * length) (mostGrowth * radius))
  else
    greater radius (lesser (ratio * length) (mostGrowth * radius))

end BoxNewton.TrustRegion
