/-
Quadratic programs: `½ x · Q x + c · x` over a box. The matrix need not be symmetric. The exact
derivatives are then those of its symmetric part, while the program's own callbacks use the matrix
as it is given.
-/
import BoxNewton.Box.Basic
import BoxNewton.Matrix
import BoxNewton.Problem.Basic

namespace BoxNewton

/-- A quadratic function with a box. -/
structure QuadraticProgram (α : Type) (n : Nat) where
  matrix : SquareMatrix α n
  linear : Vector α n
  box : Box α n

namespace QuadraticProgram

variable {α : Type} [Scalar α] {n : Nat}

/-- The value `½ x · Q x + c · x`. -/
def value (q : QuadraticProgram α n) (x : Vector α n) : α :=
  0.5 * dot x (q.matrix.apply x) + dot q.linear x

/-- The gradient `Q x + c` and the products `Q v`, which are derivatives of `value` where the matrix
is symmetric. -/
def derivatives (q : QuadraticProgram α n) : Derivatives α n where
  gradient x := q.matrix.apply x + q.linear
  product _ v := q.matrix.apply v

/-- The program with the symmetric part of its matrix, which has the same values. -/
def symmetrize (q : QuadraticProgram α n) : QuadraticProgram α n :=
  { q with matrix := q.matrix.symmetricPart }

/-- The objective, which has no auxiliary output. -/
def objective (q : QuadraticProgram α n) : Objective α n Unit where
  value := q.value
  auxiliary _ := ()
  derivatives := q.symmetrize.derivatives

/-- The problem whose gradient and products are the program's own. -/
def problem (q : QuadraticProgram α n) : Problem α n Unit :=
  q.objective.problem ⟨some q.derivatives, some q.derivatives.product⟩ ()

end QuadraticProgram

end BoxNewton
