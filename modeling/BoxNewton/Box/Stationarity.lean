/-
The stationarity measure of a box-constrained problem: the norm of the part of the gradient along
which the point can move within the box. It is zero exactly at the points where no feasible
direction descends to first order.
-/
import BoxNewton.Box.Basic

namespace BoxNewton.Box

variable {α : Type} [Scalar α] {n : Nat}

/-- Whether coordinate `i` of the gradient `g` counts at `x`. A fixed coordinate never does; one on
a bound does if descent leads into the box; one off both bounds always does. -/
def Descends (b : Box α n) (x g : Vector α n) (i : Fin n) : Prop :=
  b.lower.get i < b.upper.get i ∧
    (¬ Coincide (x.get i) (b.lower.get i) ∧ ¬ Coincide (x.get i) (b.upper.get i) ∨
      Coincide (x.get i) (b.lower.get i) ∧ g.get i < 0 ∨
      Coincide (x.get i) (b.upper.get i) ∧ 0 < g.get i)

instance (b : Box α n) (x g : Vector α n) (i : Fin n) : Decidable (b.Descends x g i) := by
  unfold Descends; infer_instance

/-- The part of the gradient that counts at `x`. -/
def projectedGradient (b : Box α n) (x g : Vector α n) : Vector α n :=
  .ofFn fun i => if b.Descends x g i then g.get i else 0

@[simp] theorem get_projectedGradient (b : Box α n) (x g : Vector α n) (i : Fin n) :
    (b.projectedGradient x g).get i = if b.Descends x g i then g.get i else 0 := by
  simp [projectedGradient]

def stationarity (b : Box α n) (x g : Vector α n) : α := norm (b.projectedGradient x g)

end BoxNewton.Box
