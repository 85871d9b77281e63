/-
Problems as the minimizer sees them: an objective with an auxiliary output, its gradient, and the
products of its Hessian with vectors. An objective brings derivatives of its own; a caller may put
others in their place, and nothing is asked of those.
-/
import BoxNewton.Vector

namespace BoxNewton

/-- A gradient with its directional derivatives: `product x v` is the derivative of `gradient` at
`x` along `v`. -/
structure Derivatives (α : Type) (n : Nat) where
  gradient : Vector α n → Vector α n
  product : Vector α n → Operator α n

/-- A function with an auxiliary output and its exact derivatives. -/
structure Objective (α : Type) (n : Nat) (β : Type) where
  value : Vector α n → α
  auxiliary : Vector α n → β
  derivatives : Derivatives α n

/-- Derivatives that a caller puts in the place of the exact ones. -/
structure Callbacks (α : Type) (n : Nat) where
  gradient : Option (Derivatives α n)
  product : Option (Vector α n → Operator α n)

/-- The functions that the minimizer calls. Before the first step there is no auxiliary output, and
`blank` stands for it. -/
structure Problem (α : Type) (n : Nat) (β : Type) where
  value : Vector α n → α
  auxiliary : Vector α n → β
  blank : β
  gradient : Vector α n → Vector α n
  product : Vector α n → Operator α n

/-- The problem of an objective under the given callbacks. A product that is not given is the
derivative of the gradient in use, and so of the callback if that is one. -/
def Objective.problem {α : Type} {n : Nat} {β : Type} (f : Objective α n β)
    (c : Callbacks α n) (blank : β) : Problem α n β :=
  let inUse := c.gradient.getD f.derivatives
  { value := f.value
    auxiliary := f.auxiliary
    blank := blank
    gradient := inUse.gradient
    product := c.product.getD inUse.product }

namespace Derivatives

variable {α : Type} {n : Nat}

/-- The derivatives of a multiple of the function. -/
def scale [Mul α] (d : Derivatives α n) (factor : α) : Derivatives α n where
  gradient x := factor * d.gradient x
  product x v := factor * d.product x v

end Derivatives

end BoxNewton
