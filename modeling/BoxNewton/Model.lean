/-
Quadratic models of a function around a point: `s ↦ ½ s · A s + g · s`, where `A` is known only
through its products with vectors.
-/
import BoxNewton.Vector

namespace BoxNewton

/-- A quadratic model: the gradient `g` and the Hessian `A` at the point it is made for. -/
structure Model (α : Type) (n : Nat) where
  gradient : Vector α n
  hessian : Operator α n

namespace Model

variable {α : Type} [Scalar α] {n : Nat}

/-- The change that the gradient alone predicts for the step `s`. -/
def slope (m : Model α n) (s : Vector α n) : α := dot m.gradient s

/-- The change that the model predicts for the step `s`. -/
def value (m : Model α n) (s : Vector α n) : α := 0.5 * dot s (m.hessian s) + m.slope s

end Model

end BoxNewton
