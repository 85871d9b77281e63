/-
Quadratic programs read off tensors. The linear term fixes the number of coordinates, and the
matrix is looked at before the bounds.
-/
import BoxNewton.Fault
import BoxNewton.Problem.Quadratic

namespace BoxNewton

/-- One side of a box, infinite where it is not given. -/
def sideOf (n : Nat) (infinite : Float) : Option Tensor → Except Fault (Vector Float n)
  | none => .ok (.replicate n infinite)
  | some t => orFault (.sideShape n) (t.vector? n)

/-- The program with the given matrix, linear term and sides. -/
def QuadraticProgram.ofTensors (Q c : Tensor) (lower upper : Option Tensor) :
    Except Fault ((n : Nat) × QuadraticProgram Float n) :=
  match c.shape with
  | [] => .error .outOfRange
  | n :: _ => do
    let matrix ← orFault (.matrixShape n Q.shape) (Q.square? n)
    let lower ← sideOf n (-ExtendedScalar.infinity) lower
    let upper ← sideOf n ExtendedScalar.infinity upper
    let linear ← orFault .lengthMismatch (c.vector? n)
    return ⟨n, ⟨matrix, linear, ⟨lower, upper⟩⟩⟩

end BoxNewton
