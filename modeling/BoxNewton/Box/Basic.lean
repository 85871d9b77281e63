/-
Boxes, the feasible sets of the library: every coordinate has a lower and an upper bound, each of
which may be infinite. Nothing is asked of the bounds here; a caller who wants `lower ≤ upper`
checks it first.
-/
import BoxNewton.Vector

namespace BoxNewton

/-- The vectors between a lower and an upper bound, coordinate by coordinate. -/
structure Box (α : Type) (n : Nat) where
  lower : Vector α n
  upper : Vector α n

namespace Box

variable {α : Type} {n : Nat}

def unbounded [ExtendedScalar α] : Box α n :=
  ⟨.replicate n (-ExtendedScalar.infinity), .replicate n ExtendedScalar.infinity⟩

variable [Scalar α]

/-- The vector lies between the bounds. -/
def Contains (b : Box α n) (x : Vector α n) : Prop :=
  ∀ i, b.lower.get i ≤ x.get i ∧ x.get i ≤ b.upper.get i

/-- The point of the box nearest to `x`: each coordinate is moved to the bound it violates. -/
def project (b : Box α n) (x : Vector α n) : Vector α n :=
  .ofFn fun i => lesser (greater (x.get i) (b.lower.get i)) (b.upper.get i)

@[simp] theorem get_project (b : Box α n) (x : Vector α n) (i : Fin n) :
    (b.project x).get i = lesser (greater (x.get i) (b.lower.get i)) (b.upper.get i) := by
  simp [project]

/-- The coordinates of `x` strictly between their bounds, which can move either way. -/
def free (b : Box α n) (x : Vector α n) : Mask n :=
  .ofFn fun i => decide (b.lower.get i < x.get i ∧ x.get i < b.upper.get i)

@[simp] theorem get_free (b : Box α n) (x : Vector α n) (i : Fin n) :
    (b.free x).get i = decide (b.lower.get i < x.get i ∧ x.get i < b.upper.get i) := by
  simp [free]

end Box

end BoxNewton
