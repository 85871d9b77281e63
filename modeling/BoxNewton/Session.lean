/-
Sessions: one minimizer taken through a list of operations, with an answer to each. Between the
iterations a caller may look at the state and overwrite parts of it, which are then used as given.
-/
import BoxNewton.Fault
import BoxNewton.Minimizer.Solve

namespace BoxNewton.Session

/-- A part of the state to be overwritten. -/
inductive Edit (n : Nat) where
  | point (x : Vector Float n)
  | gradient (g : Vector Float n)
  | value (f : Float)
  | radius (r : Float)
  | cauchyLength (t : Float)
  | actualReduction (a : Float)
  | predictedReduction (p : Float)
  | acceptedSteps (k : Int)
  | stepCount (k : Int)

/-- What a session can be asked for. -/
inductive Operation (n : Nat) where
  | step
  | terminate
  /-- At most so many iterations, as long as there is no reason to stop. -/
  | run (k : Int)
  | overwrite (edits : List (Edit n))
  | summarize

/-- Whether to stop, with the reason and the stationarity measure. -/
structure Assessment where
  verdict : Verdict
  status : ExitStatus
  stationarity : Float

/-- The answer to an operation. -/
inductive Answer (n : Nat) (β : Type) where
  | state (s : State Float n β)
  | assessment (a : Assessment)
  | run (steps : List (State Float n β)) (final : Assessment)
  | summary (s : Minimizer.Summary Float n β)

variable {n : Nat} {β : Type}

/-- The state with one part overwritten. -/
def Edit.apply (s : State Float n β) : Edit n → State Float n β
  | point x => { s with point := x }
  | gradient g => { s with gradient := g }
  | value f => { s with value := f }
  | radius r => { s with radius := r }
  | cauchyLength t => { s with cauchyLength := t }
  | actualReduction a => { s with actualReduction := a }
  | predictedReduction p => { s with predictedReduction := p }
  | acceptedSteps k => { s with acceptedSteps := k }
  | stepCount k => { s with stepCount := k }

/-- The stopping tests at a state. -/
def assess (m : Setting Float n) (p : Progress Float n) : Assessment :=
  ⟨m.verdict p, m.status p, m.stationarity p⟩

/-- What an operation leads to: the next state, the answer, and the states that iterations made. -/
structure Effect (n : Nat) (β : Type) where
  state : State Float n β
  answer : Answer n β
  made : List (State Float n β)

/-- Carries out one operation, with some limits left open. The stopping tests need the limit on
iterations. -/
def perform (m : Minimizer Float n β) (missing : List Limit) (s : State Float n β) :
    Operation n → Except Fault (Effect n β)
  | .step => do
    requireMovable missing n
    let next := m.advance s
    return ⟨next, .state next, [next]⟩
  | .terminate => do
    requireLimit missing .steps
    return ⟨s, .assessment (assess m.toSetting s.toProgress), []⟩
  | .run k => do
    requireLimit missing .steps
    if 0 < k ∧ m.continues s = true then requireMovable missing n
    let steps := visited m.continues m.advance k.toNat s
    let last := steps.getLastD s
    return ⟨last, .run steps (assess m.toSetting last.toProgress), steps⟩
  | .overwrite edits =>
    let next := edits.foldl Edit.apply s
    .ok ⟨next, .state next, []⟩
  | .summarize => do
    requireLimit missing .steps
    return ⟨s, .summary (m.summarize s s.auxiliary), []⟩

/-- The answers to a list of operations, with the states that iterations made. -/
def performAll (m : Minimizer Float n β) (missing : List Limit) (s : State Float n β) :
    List (Operation n) → Except Fault (List (Answer n β) × List (State Float n β))
  | [] => .ok ([], [])
  | op :: rest => do
    let e ← perform m missing s op
    let (answers, made) ← performAll m missing e.state rest
    return (e.answer :: answers, e.made ++ made)

end BoxNewton.Session
