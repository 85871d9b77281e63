/-
Nested arrays of numbers, as they come in from outside: a shape and the entries in the order of the
last index first. Whether they are the vectors and matrices an operation needs is found out here.
-/
import BoxNewton.Matrix

namespace BoxNewton

/-- The lengths of the nested levels, from the outermost on. A number alone has none. -/
abbrev Shape := List Nat

/-- The shape in words: lengths in round brackets, with a comma after a single one. -/
def Shape.text : Shape → String
  | [] => "()"
  | [k] => "(" ++ toString k ++ ",)"
  | ks => "(" ++ ", ".intercalate (ks.map toString) ++ ")"

/-- A nested array of numbers. -/
structure Tensor where
  shape : Shape
  entries : Array Float

namespace Tensor

/-- The tensor as a vector of length `n`. -/
def vector? (t : Tensor) (n : Nat) : Option (Vector Float n) :=
  if h : t.shape = [n] ∧ t.entries.size = n then some ⟨t.entries, h.2⟩ else none

/-- The tensor as `m` rows of length `n`. -/
def rows? (t : Tensor) (m n : Nat) : Option (Vector (Vector Float n) m) :=
  if h : t.shape = [m, n] ∧ t.entries.size = m * n then
    some <| .ofFn fun i => .ofFn fun j =>
      have : i.val * n + j.val < t.entries.size := by
        have hi : (i.val + 1) * n ≤ m * n := Nat.mul_le_mul_right n i.isLt
        have hj := j.isLt
        rw [Nat.add_mul] at hi
        omega
      t.entries[i.val * n + j.val]
  else none

def square? (t : Tensor) (n : Nat) : Option (SquareMatrix Float n) := t.rows? n n

end Tensor

end BoxNewton
