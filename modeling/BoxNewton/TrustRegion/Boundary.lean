/-
Where a ray leaves the trust region: the largest non-negative `t` at which `x + t p` is at distance
`radius` from the origin.
-/
import BoxNewton.Vector

namespace BoxNewton.TrustRegion

variable {α : Type} [Scalar α] {n : Nat}

/-- The largest non-negative solution `t` of `‖x + t p‖ = radius`, and 0 if there is none. Of the
two forms of the quadratic formula the one without cancellation is taken: the sum of the square
root with `|p · x|` is either divided into the product of the roots or is itself the root. A double root
ahead of the ray counts as none. -/
def boundaryStep (x p : Vector α n) (radius : α) : α :=
  let px := dot p x
  let pp := dot p p
  let xx := dot x x
  let gap := radius * radius - xx
  let root := Scalar.sqrt (greater (px * px + pp * gap) 0)
  let step :=
    if 0 < px then gap / (px + root)
    else if 0 < root then (root - px) / (if 0 < pp then pp else 1)
    else 0
  greater step 0

end BoxNewton.TrustRegion
