/-
The Cauchy step: a step on the projected path of steepest descent that stays in the trust region
and decreases the model enough. Its length is looked for from the last one used, downwards by
factors of ten if that is too long, and otherwise upwards while it pays.
-/
import BoxNewton.Loop
import BoxNewton.Subproblem.Basic

namespace BoxNewton

/-- The step found, its length on the path, and the products with the Hessian it took. -/
structure CauchyStep (α : Type) (n : Nat) where
  length : α
  step : Vector α n
  products : Nat

/-- The length last tried, the length to be used, and whether the search goes on. -/
structure CauchySearch (α : Type) where
  length : α
  best : α
  searching : Bool

namespace Subproblem

variable {α : Type} [Scalar α] {n : Nat}

/-- The step of length `t` on the projected path of steepest descent. -/
def cauchyTrial (p : Subproblem α n) (t : α) : Trial α n := p.trial p.model.gradient (-t)

/-- The trial stays in the trust region. -/
def Within (p : Subproblem α n) (t : Trial α n) : Prop := norm t.step ≤ p.radius

instance (p : Subproblem α n) (t : Trial α n) : Decidable (p.Within t) :=
  inferInstanceAs (Decidable (_ ≤ _))

/-- The first length is too long: its step reaches the boundary or decreases the model too little. -/
def Overlong (p : Subproblem α n) (t : Trial α n) : Prop :=
  p.radius ≤ norm t.step ∨ p.rule.Refuses t

instance (p : Subproblem α n) (t : Trial α n) : Decidable (p.Overlong t) :=
  inferInstanceAs (Decidable (_ ∨ _))

/-- Tries a tenth of the length. The length is used whether or not it passes, and the search ends
with the first that does. -/
def shorten (p : Subproblem α n) (s : CauchySearch α) : CauchySearch α :=
  let length := 0.1 * s.length
  let trial := p.cauchyTrial length
  { length := length
    best := length
    searching := !decide (p.Within trial ∧ p.rule.AcceptsStrictly trial) }

/-- Tries ten times the length. The longest that passes is used, and the search ends where the path
leaves the trust region. -/
def lengthen (p : Subproblem α n) (s : CauchySearch α) : CauchySearch α :=
  let length := 10.0 * s.length
  let trial := p.cauchyTrial length
  { length := length
    best := if p.Within trial ∧ p.rule.Accepts trial then length else s.best
    searching := decide (p.Within trial) }

/-- The last breakpoint of the path. Beyond it the path does not move. -/
def cauchyEnd (p : Subproblem α n) : α := (p.box.breakpoints p.base (-p.model.gradient)).last

def shortenWhile (p : Subproblem α n) (length : α) : Run (CauchySearch α) :=
  advanceWhile (·.searching) p.shorten p.rule.maxTrials.toNat ⟨length, length, true⟩

def lengthenWhile (p : Subproblem α n) (length : α) : Run (CauchySearch α) :=
  advanceWhile (fun s => s.searching && decide (s.length ≤ p.cauchyEnd)) p.lengthen
    p.rule.maxTrials.toNat ⟨length, length, true⟩

def cauchySearch (p : Subproblem α n) (length : α) : Run (CauchySearch α) :=
  if p.Overlong (p.cauchyTrial length) then p.shortenWhile length else p.lengthenWhile length

/-- The Cauchy step, looked for from a given first length. The first trial costs a product with
the Hessian, and each further one another. -/
def cauchyStep (p : Subproblem α n) (length : α) : CauchyStep α n :=
  let r := p.cauchySearch length
  { length := r.state.best
    step := p.box.displacement p.base p.model.gradient (-r.state.best)
    products := r.steps + 1 }

end Subproblem

end BoxNewton
