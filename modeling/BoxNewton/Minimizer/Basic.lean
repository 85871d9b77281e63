/-
The minimizer: a problem, a box and options, with the state that one iteration hands to the next.
-/
import BoxNewton.Box.Stationarity
import BoxNewton.Problem.Basic
import BoxNewton.Subproblem.Basic

namespace BoxNewton

/-- What a caller can choose. A limit below zero allows nothing, as zero does. -/
structure Options (α : Type) where
  /-- The projected gradient is small relative to the gradient at the start. -/
  relativeTolerance : α
  /-- The projected gradient is small on its own. -/
  absoluteTolerance : α
  /-- The reductions are small relative to the objective. -/
  relativeReduction : α
  /-- The reductions are small on their own. -/
  absoluteReduction : α
  /-- Below this value the objective counts as unbounded. -/
  floor : α
  /-- The rule of the searches for a step. -/
  rule : SearchRule α
  /-- The factor by which the gradient on a face has to shrink. -/
  faceTolerance : α
  maxSteps : Int
  /-- Conjugate gradient iterations for a face, by default as many as there are coordinates. -/
  maxIterations : Option Int
  /-- How much is reported: nothing, a summary from 1, and every step from 2. -/
  verbosity : Int

/-- The options where a caller chooses nothing. -/
def Options.default {α : Type} [Scalar α] : Options α where
  relativeTolerance := 1e-5
  absoluteTolerance := 0
  relativeReduction := 1e-12
  absoluteReduction := 1e-12
  floor := -1e32
  rule := .default
  faceTolerance := 0.1
  maxSteps := 100
  maxIterations := none
  verbosity := 1

/-- What the stopping tests look at. The reductions are infinite before the first step. -/
structure Progress (α : Type) (n : Nat) where
  point : Vector α n
  value : α
  gradient : Vector α n
  stepCount : Int
  actualReduction : α
  predictedReduction : α
  /-- The norm of the gradient at the starting point. -/
  initialNorm : α

/-- The state after a number of steps. The value, the gradient and the auxiliary output belong to
the projection of the point, which the first step puts in its place. -/
structure State (α : Type) (n : Nat) (β : Type) extends Progress α n where
  auxiliary : β
  radius : α
  /-- The length of the last Cauchy step, from which the next is looked for. -/
  cauchyLength : α
  accepted : Bool
  acceptedSteps : Int
  /-- Conjugate gradient iterations of the last step. -/
  iterations : Nat
  totalIterations : Nat
  evaluations : Nat
  gradients : Nat
  products : Nat

/-- Where points may lie, and when to stop. -/
structure Setting (α : Type) (n : Nat) where
  box : Box α n
  options : Options α

namespace Setting

variable {α : Type} [Scalar α] {n : Nat}

/-- The norm of the projected gradient at the projection of the point. -/
def stationarity (m : Setting α n) (p : Progress α n) : α :=
  m.box.stationarity (m.box.project p.point) p.gradient

/-- The value of `stationarity` that counts as zero. -/
def stopTolerance (m : Setting α n) (p : Progress α n) : α :=
  greater m.options.absoluteTolerance (m.options.relativeTolerance * p.initialNorm)

end Setting

/-- A problem in a setting. -/
structure Minimizer (α : Type) (n : Nat) (β : Type) extends Setting α n where
  problem : Problem α n β

namespace Minimizer

variable {α : Type} [ExtendedScalar α] {n : Nat} {β : Type}

/-- The state at the starting point `y`. The radius is the norm of the gradient, and 1 where the
gradient vanishes. -/
def start (m : Minimizer α n β) (y : Vector α n) : State α n β :=
  let x := m.box.project y
  let gradient := m.problem.gradient x
  let gradientNorm := norm gradient
  { point := y
    value := m.problem.value x
    gradient := gradient
    stepCount := 0
    actualReduction := ExtendedScalar.infinity
    predictedReduction := ExtendedScalar.infinity
    initialNorm := gradientNorm
    auxiliary := m.problem.auxiliary x
    radius := if 0 < gradientNorm then gradientNorm else 1
    cauchyLength := 1
    accepted := true
    acceptedSteps := 0
    iterations := 0
    totalIterations := 0
    evaluations := 1
    gradients := 1
    products := 0 }

end Minimizer

end BoxNewton
