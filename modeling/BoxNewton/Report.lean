/-
The report of a solve: a line for every iteration, under column heads that are repeated now and
then, with a header before and a summary after them.
-/
import BoxNewton.Minimizer.Solve
import BoxNewton.Text.Decimal

namespace BoxNewton.Report

open Text

/-! ## Iterations -/

/-- What is reported of one iteration. -/
structure Iteration where
  number : Int
  value : Float
  stationarity : Float
  iterations : Int
  predicted : Float
  radius : Float
  accepted : Bool

/-- The column heads are repeated before every iteration whose number is a multiple of this. -/
def headInterval : Int := 20

/-- Columns of a line, two blanks apart. -/
def columns (cells : List String) : String := "  ".intercalate cells

/-- The column heads. -/
def heads : String :=
  columns [padLeft 5 "iter", padLeft 13 "f(x)", padLeft 13 "|Pg(x)|", padLeft 5 "cg",
    padLeft 9 "preRed", padLeft 9 "radius", padLeft 3 ""]

/-- The line of an iteration, which ends in a mark if the step was rejected. -/
def Iteration.line (i : Iteration) : String :=
  columns [intColumn 5 i.number, scientificColumn 13 6 i.value,
    scientificColumn 13 6 i.stationarity, intColumn 5 i.iterations,
    scientificColumn 9 2 i.predicted, scientificColumn 9 2 i.radius,
    padLeft 3 (if i.accepted then "" else "rej")]

/-- The line of an iteration, after the column heads where they are due. -/
def Iteration.lines (i : Iteration) : List String :=
  if i.number % headInterval = 0 then [heads, i.line] else [i.line]

/-! ## Header and summary -/

/-- The lines before the first iteration. -/
def header (n : Int) (o : Options Float) : List String :=
  ["bcflash: n = " ++ toString n,
    "  rtol = " ++ scientificColumn 8 1 o.relativeTolerance ++
      "  atol = " ++ scientificColumn 8 1 o.absoluteTolerance ++
      "  max_steps = " ++ toString o.maxSteps ++
      "  cg_rtol = " ++ scientificColumn 8 1 o.faceTolerance,
    "  fatol = " ++ scientificColumn 8 1 o.absoluteReduction ++
      "  frtol = " ++ scientificColumn 8 1 o.relativeReduction ++
      "  f_min = " ++ scientificColumn 8 1 o.floor ++
      "  mu0 = " ++ scientificColumn 8 1 o.rule.decrease]

/-- What is reported of a whole solve. -/
structure Summary where
  message : String
  success : Bool
  value : Float
  stationarity : Float
  stopTolerance : Float
  stepCount : Int
  acceptedSteps : Int
  iterations : Int
  evaluations : Int
  gradients : Int
  products : Int

/-- The time a solve took, in milliseconds, and a mark where it was not measured. -/
def timeText : Option Nat → String
  | none => "#"
  | some ms => toString (ms / 1000) ++ "." ++ zeroPadded 3 (ms % 1000) ++ "s"

/-- The lines after the last iteration. -/
def Summary.lines (s : Summary) (milliseconds : Option Nat) : List String :=
  ["EXIT bcflash: " ++ s.message ++ " (success = " ++ (if s.success then "True" else "False") ++ ")",
    "  f(x) = " ++ scientificColumn 15 8 s.value ++
      "  ||Pg|| = " ++ scientificColumn 8 1 s.stationarity ++
      "  stop tolerance = " ++ scientificColumn 8 1 s.stopTolerance,
    "  iterations = " ++ toString s.stepCount ++
      "  accepted = " ++ toString s.acceptedSteps ++
      "  cg iterations = " ++ toString s.iterations,
    "  f evals = " ++ toString s.evaluations ++
      "  g evals = " ++ toString s.gradients ++
      "  Hv products = " ++ toString s.products ++
      "  time = " ++ timeText milliseconds]

/-! ## Reports of states and solutions -/

variable {n : Nat} {β : Type}

/-- The report of the iteration that led to a state. -/
def iterationOf (m : Minimizer Float n β) (s : State Float n β) : Iteration where
  number := s.stepCount
  value := s.value
  stationarity := m.stationarity s.toProgress
  iterations := s.iterations
  predicted := s.predictedReduction
  radius := s.radius
  accepted := s.accepted

/-- The lines of a sequence of states, where every step is to be reported. -/
def iterationLines (m : Minimizer Float n β) (states : List (State Float n β)) : List String :=
  if 2 ≤ m.options.verbosity then states.flatMap fun s => (iterationOf m s).lines else []

/-- The summary of a solution. -/
def summaryOf (s : Minimizer.Solution Float n β) : Summary where
  message := s.status.message
  success := s.status.isSuccess
  value := s.state.value
  stationarity := s.stationarity
  stopTolerance := s.stopTolerance
  stepCount := s.state.stepCount
  acceptedSteps := s.state.acceptedSteps
  iterations := s.state.totalIterations
  evaluations := s.state.evaluations
  gradients := s.state.gradients
  products := s.state.products

/-- All lines of a solve from `x`. -/
def solveLines (m : Minimizer Float n β) (x : Vector Float n) (milliseconds : Option Nat) :
    List String :=
  (if 2 ≤ m.options.verbosity then header n m.options else []) ++
    iterationLines m (m.solveStates x) ++
    (if 1 ≤ m.options.verbosity then (summaryOf (m.solve x)).lines milliseconds else [])

end BoxNewton.Report
