/-
Conjugate gradients in a trust region. For a quadratic model with Hessian `A` and gradient `g` and
a triangular matrix `L`, the iteration minimizes the model over `‖Lᵀ s‖ ≤ radius` in the variables
`w = Lᵀ s`. It stops where it leaves the region or meets a direction of non-positive curvature, in
both cases on the boundary, or where one of the two residuals is small enough.
-/
import BoxNewton.Loop
import BoxNewton.Matrix
import BoxNewton.Model
import BoxNewton.TrustRegion.Boundary

namespace BoxNewton.ConjugateGradient

/-- Why the iteration stopped, or that it has not. -/
inductive Status where
  | running
  /-- The residual in the given variables is within its tolerance. -/
  | converged
  /-- The residual in the scaled variables is within its tolerance. -/
  | convergedScaled
  /-- A direction of non-positive curvature was followed to the boundary. -/
  | negativeCurvature
  /-- A step would have passed the boundary and was cut there. -/
  | boundary
  | iterationLimit
  deriving DecidableEq

def Status.code : Status → Nat
  | running => 0
  | converged => 1
  | convergedScaled => 2
  | negativeCurvature => 3
  | boundary => 4
  | iterationLimit => 5

variable {α : Type} {n : Nat}

/-- A change of variables, known through the solutions of the two triangular systems. -/
structure Preconditioner (α : Type) (n : Nat) where
  solve : Operator α n
  solveTransposed : Operator α n

def Preconditioner.identity : Preconditioner α n := ⟨id, id⟩

/-- The change of variables by the lower triangle of a matrix. -/
def Preconditioner.lower [Scalar α] (L : SquareMatrix α n) : Preconditioner α n :=
  ⟨L.solveLower, L.solveTransposed⟩

/-- What is minimized, where, and how accurately: the residuals are compared with `tolerance` in
the given variables and with `scaledTolerance` in the scaled ones. -/
structure Problem (α : Type) (n : Nat) where
  model : Model α n
  preconditioner : Preconditioner α n
  radius : α
  tolerance : α
  scaledTolerance : α

/-- The iterate and direction in the scaled variables, with the residuals in both. -/
structure State (α : Type) (n : Nat) where
  iterate : Vector α n
  residual : Vector α n
  scaledResidual : Vector α n
  direction : Vector α n
  /-- The square of the norm of the scaled residual. -/
  energy : α
  status : Status

/-- The last iterate, in the scaled variables. -/
structure Result (α : Type) (n : Nat) where
  iterate : Vector α n
  iterations : Nat
  status : Status

namespace Problem

variable [Scalar α]

/-- The iteration starts at zero, along steepest descent. A zero gradient is a solution already. -/
def start (p : Problem α n) : State α n :=
  let residual := -p.model.gradient
  let scaled := p.preconditioner.solve residual
  let energy := dot scaled scaled
  { iterate := 0
    residual := residual
    scaledResidual := scaled
    direction := scaled
    energy := energy
    status := if Coincide energy 0 then .converged else .running }

/-- One iteration, which costs one product with the Hessian. -/
def advance (p : Problem α n) (s : State α n) : State α n :=
  let image := p.model.hessian (p.preconditioner.solveTransposed s.direction)
  let scaledImage := p.preconditioner.solve image
  let curvature := dot s.direction scaledImage
  let step := if 0 < curvature then s.energy / curvature else 0
  let boundary := TrustRegion.boundaryStep s.iterate s.direction p.radius
  let residual := s.residual - step * image
  let scaled := s.scaledResidual - step * scaledImage
  let energy := dot scaled scaled
  let leaves := curvature ≤ 0 ∨ boundary ≤ step
  { iterate :=
      if leaves then s.iterate + boundary * s.direction else s.iterate + step * s.direction
    residual := residual
    scaledResidual := scaled
    direction := scaled + energy / (if 0 < s.energy then s.energy else 1) * s.direction
    energy := energy
    status :=
      if leaves then if curvature ≤ 0 then .negativeCurvature else .boundary
      else if norm residual ≤ p.tolerance then .converged
      else if Scalar.sqrt energy ≤ p.scaledTolerance then .convergedScaled
      else .running }

def continues (s : State α n) : Bool := s.status == .running

/-- The whole iteration. A limit below zero allows no iteration, as zero does. -/
def run (p : Problem α n) (maxIterations : Int) : Run (State α n) :=
  advanceWhile continues p.advance maxIterations.toNat p.start

def solve (p : Problem α n) (maxIterations : Int) : Result α n :=
  let r := p.run maxIterations
  { iterate := r.state.iterate
    iterations := r.steps
    status := if r.state.status = .running then .iterationLimit else r.state.status }

end Problem

end BoxNewton.ConjugateGradient
