/-
One iteration: a Cauchy step on the quadratic model, refined over the faces of the box, is compared
with what the objective does. The step is accepted if the actual reduction is a fair part of the
predicted one; otherwise the point, its value, gradient and auxiliary output stay, and only the
trust region shrinks.
-/
import BoxNewton.Loop
import BoxNewton.Minimizer.Exit
import BoxNewton.Subproblem.Cauchy
import BoxNewton.Subproblem.Faces
import BoxNewton.TrustRegion.Radius

namespace BoxNewton.Minimizer

variable {α : Type} [ExtendedScalar α] {n : Nat} {β : Type}

/-! ## The parts of a step -/

/-- The subproblem at a state: the model has the gradient that the state holds and the Hessian at
its projected point. -/
def subproblem (m : Minimizer α n β) (s : State α n β) : Subproblem α n :=
  let x := m.box.project s.point
  { model := ⟨s.gradient, m.problem.product x⟩
    box := m.box
    base := x
    radius := s.radius
    rule := m.options.rule }

/-- The limits on every face. -/
def faceLimits (m : Minimizer α n β) : FaceLimits α :=
  ⟨m.options.faceTolerance, m.options.maxIterations.getD n⟩

/-- The Cauchy step, looked for from the last one. -/
def cauchyStep (m : Minimizer α n β) (s : State α n β) : CauchyStep α n :=
  (m.subproblem s).cauchyStep s.cauchyLength

/-- A Cauchy step refined over the faces. -/
def refinedStep (m : Minimizer α n β) (s : State α n β) (c : CauchyStep α n) : FaceStep α n :=
  (m.subproblem s).minimizeFaces m.faceLimits c.step

/-! ## The step -/

/-- The reduction from `value` to `trial`, infinitely bad where the trial is not finite. -/
def actualReduction (value trial : α) : α :=
  if IsFinite trial then value - trial else -ExtendedScalar.infinity

/-- The reduction is large enough for the step to be accepted. -/
def Acceptable (actual predicted : α) : Prop := TrustRegion.acceptance * predicted < actual

instance (actual predicted : α) : Decidable (Acceptable actual predicted) :=
  inferInstanceAs (Decidable (_ < _))

/-- The radius that an update starts from. Until a step succeeds it is at most the length of the
step made. -/
def radiusBefore (s : State α n β) (length : α) : α :=
  if s.acceptedSteps = 0 then lesser s.radius length else s.radius

/-- One iteration. -/
def advance (m : Minimizer α n β) (s : State α n β) : State α n β :=
  let sub := m.subproblem s
  let cauchy := m.cauchyStep s
  let refined := m.refinedStep s cauchy
  let slope := sub.model.slope refined.step
  let predicted := -sub.model.value refined.step
  let trial := m.problem.value refined.point
  let actual := actualReduction s.value trial
  let length := norm refined.step
  let ratio :=
    TrustRegion.stepRatio s.value (if IsFinite trial then trial else ExtendedScalar.infinity) slope
  let accepted := decide (Acceptable actual predicted)
  { point := if accepted then refined.point else sub.base
    value := if accepted then trial else s.value
    gradient := if accepted then m.problem.gradient refined.point else s.gradient
    stepCount := s.stepCount + 1
    actualReduction := actual
    predictedReduction := predicted
    initialNorm := s.initialNorm
    auxiliary := if accepted then m.problem.auxiliary refined.point else s.auxiliary
    radius := TrustRegion.updateRadius (radiusBefore s length) actual predicted length ratio
    cauchyLength := cauchy.length
    accepted := accepted
    acceptedSteps := if accepted then s.acceptedSteps + 1 else s.acceptedSteps
    iterations := refined.iterations
    totalIterations := s.totalIterations + refined.iterations
    evaluations := s.evaluations + 1
    gradients := if accepted then s.gradients + 1 else s.gradients
    products := s.products + cauchy.products + refined.products + 1 }

/-- The minimizer has no reason to stop. -/
def continues (m : Minimizer α n β) (s : State α n β) : Bool :=
  m.status s.toProgress == .running

/-- At most `k` iterations, as long as there is no reason to stop. -/
def runFrom (m : Minimizer α n β) (k : Nat) (s : State α n β) : Run (State α n β) :=
  advanceWhile m.continues m.advance k s

end BoxNewton.Minimizer
