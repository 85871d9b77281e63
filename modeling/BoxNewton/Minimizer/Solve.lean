/-
A whole solve: from a starting point, iterations are made until the stopping tests or the budget
end them, and the last state is read out. The tests look at the state after an iteration and at the
point before it.
-/
import BoxNewton.Minimizer.Step

namespace BoxNewton.Minimizer

variable {α : Type} [ExtendedScalar α] {n : Nat} {β : Type}

/-! ## Reading a state out -/

/-- A state read out at its projected point. -/
structure Summary (α : Type) (n : Nat) (β : Type) where
  point : Vector α n
  status : ExitStatus
  stationarity : α
  stopTolerance : α
  auxiliary : β
  state : State α n β

/-- Reads a state out, with a given auxiliary output. -/
def summarize (m : Minimizer α n β) (s : State α n β) (auxiliary : β) : Summary α n β where
  point := m.box.project s.point
  status := m.status s.toProgress
  stationarity := m.stationarity s.toProgress
  stopTolerance := m.stopTolerance s.toProgress
  auxiliary := auxiliary
  state := s

/-! ## The outer loop -/

/-- The state reached, the auxiliary output that goes with it, and whether to stop. -/
structure Pending (α : Type) (n : Nat) (β : Type) where
  state : State α n β
  auxiliary : β
  verdict : Verdict

/-- The stopping tests, overruled where the point is not finite. -/
def check (m : Minimizer α n β) (p : Progress α n) : Verdict :=
  let v := m.verdict p
  if allFinite p.point then v else { v with outcome := .notFinite }

/-- The loop goes on unless it is done or something went wrong. -/
def Pending.continues (p : Pending α n β) : Bool :=
  !p.verdict.done && p.verdict.outcome == .successful

/-- The first state of the loop, with nothing yet in the place of the auxiliary output. -/
def enter (m : Minimizer α n β) (x : Vector α n) : Pending α n β :=
  let s := m.start x
  ⟨s, m.problem.blank, m.check s.toProgress⟩

def proceed (m : Minimizer α n β) (p : Pending α n β) : Pending α n β :=
  let next := m.advance p.state
  ⟨next, next.auxiliary, m.check { next.toProgress with point := p.state.point }⟩

/-- The loop from the projection of `x`. -/
def solveRun (m : Minimizer α n β) (x : Vector α n) : Run (Pending α n β) :=
  advanceWhile Pending.continues m.proceed m.options.maxSteps.toNat (m.enter (m.box.project x))

/-- The states of the loop, the first one included. -/
def solveStates (m : Minimizer α n β) (x : Vector α n) : List (State α n β) :=
  let first := m.enter (m.box.project x)
  first.state ::
    (visited Pending.continues m.proceed m.options.maxSteps.toNat first).map (·.state)

/-- What a solve returns. -/
structure Solution (α : Type) (n : Nat) (β : Type) extends Summary α n β where
  outcome : Outcome

/-- Minimizes from the starting point `x`. A loop that ends for no reason of its own has used up
its steps. -/
def solve (m : Minimizer α n β) (x : Vector α n) : Solution α n β :=
  let last := (m.solveRun x).state
  let summary := m.summarize last.state last.auxiliary
  { summary with
    status := if summary.status = .running then .stepLimit else summary.status
    outcome := if last.continues then .stepLimit else last.verdict.outcome }

end BoxNewton.Minimizer
