/-
Settings as a caller gives them, and the checks they go through. The checks are made in a fixed
order, and the first that fails is reported.
-/
import BoxNewton.Fault
import BoxNewton.Minimizer.Basic

namespace BoxNewton

/-- What a caller gives in the place of a callback. -/
inductive Given where
  | nothing
  | function
  /-- Something that cannot be called. -/
  | other
  deriving DecidableEq

/-- Options, callbacks and bounds before they are checked. -/
structure Settings where
  options : Options Float
  /-- The limits that are left open, whatever the options have in their place. -/
  missing : List Limit
  /-- Some option was given by a name that is none. -/
  unknown : Bool
  gradient : Given
  product : Given
  bounds : Option Tensor

/-- A box of any number of coordinates. -/
abbrev AnyBox := (n : Nat) × Box Float n

/-- Options and bounds that passed the checks. -/
structure Configuration where
  options : Options Float
  missing : List Limit
  bounds : Option AnyBox

/-- The coordinates whose lower bound exceeds the upper one. -/
def Box.crossed {n : Nat} (b : Box Float n) : List Nat :=
  (List.finRange n).filterMap fun i => if b.upper.get i < b.lower.get i then some i.val else none

/-- Reads a box off pairs of bounds, none of which may be crossed. -/
def Tensor.box (t : Tensor) : Except Fault AnyBox :=
  match t.shape with
  | [n, 2] => do
    let pairs ← orFault (.boundsShape t.shape) (t.rows? n 2)
    let b : Box Float n := ⟨pairs.map (·[0]), pairs.map (·[1])⟩
    if b.crossed = [] then return ⟨n, b⟩ else throw (.crossedBounds b.crossed)
  | _ => .error (.boundsShape t.shape)

namespace Settings

/-- The checks on callbacks, options and bounds. -/
def check (s : Settings) : Except Fault Configuration := do
  if s.unknown then throw .unknownOption
  if s.gradient = .other then throw .gradientNotCallable
  if s.product = .other then throw .productNotCallable
  unless 0 < s.options.rule.decrease ∧ s.options.rule.decrease < 1 do
    throw (.decreaseOutOfRange s.options.rule.decrease)
  if s.options.maxIterations.any (· < 1) then throw .iterationsNotPositive
  match s.bounds with
  | none => return ⟨s.options, s.missing, none⟩
  | some t => return ⟨s.options, s.missing, some (← t.box)⟩

/-- The checks on a starting point and on the number of bounds, which come before all others. -/
def checkStart (s : Settings) (start : Tensor) : Except Fault ((n : Nat) × Vector Float n) :=
  match start.shape with
  | [n] => do
    let x ← orFault (.startShape start.shape) (start.vector? n)
    if let some t := s.bounds then
      unless t.shape.length = 2 ∧ t.shape.head? = some n do throw (.boundsCount n t.shape)
    return ⟨n, x⟩
  | _ => .error (.startShape start.shape)

end Settings

namespace Configuration

def maxSteps? (c : Configuration) : Option Int :=
  if .steps ∈ c.missing then none else some c.options.maxSteps

def maxTrials? (c : Configuration) : Option Int :=
  if .trials ∈ c.missing then none else some c.options.rule.maxTrials

/-- The setting of points with `n` coordinates. Where no bounds are given there are none. -/
def setting (c : Configuration) (n : Nat) : Except Fault (Setting Float n) :=
  match c.bounds with
  | none => .ok ⟨.unbounded, c.options⟩
  | some ⟨m, b⟩ => if h : m = n then .ok ⟨h ▸ b, c.options⟩ else .error .lengthMismatch

end Configuration

end BoxNewton
