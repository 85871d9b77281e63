/-
The stopping tests. They are made in a fixed order and the first that holds gives the reason, so a
state that is not finite is reported as such only where no other reason applies.
-/
import BoxNewton.Minimizer.Basic

namespace BoxNewton

/-- Why the minimizer stops, or that it does not. -/
inductive ExitStatus where
  | running
  | optimal
  | stepLimit
  | unbounded
  | absoluteReduction
  | relativeReduction
  | notFinite
  deriving DecidableEq

namespace ExitStatus

/-- The statuses in the order of their codes. -/
def all : List ExitStatus :=
  [running, optimal, stepLimit, unbounded, absoluteReduction, relativeReduction, notFinite]

def code : ExitStatus → Nat
  | running => 0
  | optimal => 1
  | stepLimit => 2
  | unbounded => 3
  | absoluteReduction => 4
  | relativeReduction => 5
  | notFinite => 6

def message : ExitStatus → String
  | running => "Running"
  | optimal => "Optimal solution found"
  | stepLimit => "Too many iterations"
  | unbounded => "Unbounded below"
  | absoluteReduction => "Absolute function tolerance"
  | relativeReduction => "Relative function tolerance"
  | notFinite => "Unknown exit"

/-- The status at a position of the table of codes. Negative positions count from its end. -/
def at? (position : Int) : Option ExitStatus :=
  if 0 ≤ position then all[position.toNat]?
  else if -(all.length : Int) ≤ position then all[(all.length + position).toNat]?
  else none

/-- A number counts as a success unless it is the code of a failure or of no exit at all. -/
def isSuccessCode (code : Int) : Bool := !decide (code = 0 ∨ code = 2 ∨ code = 6)

def isSuccess (s : ExitStatus) : Bool := isSuccessCode s.code

end ExitStatus

/-- The outcome of a whole solve. -/
inductive Outcome where
  | successful
  | stepLimit
  | divergence
  | notFinite
  deriving DecidableEq

def Outcome.name : Outcome → String
  | successful => "successful"
  | stepLimit => "nonlinear_max_steps_reached"
  | divergence => "nonlinear_divergence"
  | notFinite => "nonfinite"

def ExitStatus.outcome : ExitStatus → Outcome
  | stepLimit => .stepLimit
  | unbounded | notFinite => .divergence
  | running | optimal | absoluteReduction | relativeReduction => .successful

/-- Whether to stop, and with which outcome. -/
structure Verdict where
  done : Bool
  outcome : Outcome

namespace Setting

variable {α : Type} [ExtendedScalar α] {n : Nat}

/-- The actual and the predicted reduction are both at most `bound`. -/
def ReducesWithin (p : Progress α n) (bound : α) : Prop :=
  magnitude p.actualReduction ≤ bound ∧ p.predictedReduction ≤ bound

instance (p : Progress α n) (bound : α) : Decidable (ReducesWithin p bound) :=
  inferInstanceAs (Decidable (_ ∧ _))

def status (m : Setting α n) (p : Progress α n) : ExitStatus :=
  let o := m.options
  if m.stationarity p ≤ m.stopTolerance p then .optimal
  else if p.value < o.floor then .unbounded
  else if ReducesWithin p o.absoluteReduction then .absoluteReduction
  else if ReducesWithin p (o.relativeReduction * magnitude p.value) then .relativeReduction
  else if o.maxSteps ≤ p.stepCount then .stepLimit
  else if ¬ IsFinite p.value ∨ allFinite p.gradient = false then .notFinite
  else .running

/-- What the first reason to stop comes to. -/
def verdict (m : Setting α n) (p : Progress α n) : Verdict :=
  let s := m.status p
  ⟨s != .running, s.outcome⟩

end Setting

end BoxNewton
