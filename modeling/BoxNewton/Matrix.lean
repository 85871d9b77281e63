/-
Square matrices by rows: products, the symmetric part, and the solution of triangular systems.
The two substitutions read only the lower triangle of their matrix.
-/
import BoxNewton.Vector

namespace BoxNewton

/-- A square matrix, held by rows. -/
abbrev SquareMatrix (α : Type) (n : Nat) := Vector (Vector α n) n

namespace SquareMatrix

variable {α : Type} {n : Nat}

def entry (A : SquareMatrix α n) (i j : Fin n) : α := (A.get i).get j

def ofEntries (f : Fin n → Fin n → α) : SquareMatrix α n := .ofFn fun i => .ofFn (f i)

@[simp] theorem entry_ofEntries (f : Fin n → Fin n → α) (i j : Fin n) :
    (ofEntries f).entry i j = f i j := by
  simp [entry, ofEntries]

def apply [Scalar α] (A : SquareMatrix α n) : Operator α n := fun v => A.map (dot · v)

@[simp] theorem get_apply [Scalar α] (A : SquareMatrix α n) (v : Vector α n) (i : Fin n) :
    (A.apply v).get i = dot (A.get i) v := by
  simp [apply]

/-- The mean of the matrix and its transpose. -/
def symmetricPart [Scalar α] (A : SquareMatrix α n) : SquareMatrix α n :=
  ofEntries fun i j => 0.5 * (A.entry i j + A.entry j i)

/-! ## Triangular systems -/

/-- The first `k` entries of the solution `y` of `L y = b`, each from those before it. -/
def leadingSolution [Scalar α] (L : SquareMatrix α n) (b : Vector α n) :
    (k : Nat) → k ≤ n → Vector α k
  | 0, _ => #v[]
  | k + 1, h =>
    let y := leadingSolution L b k (Nat.le_of_succ_le h)
    let row : Vector α k := .ofFn fun j => L.entry ⟨k, h⟩ (j.castLE (Nat.le_of_succ_le h))
    y.push ((b.get ⟨k, h⟩ - dot row y) / L.entry ⟨k, h⟩ ⟨k, h⟩)

/-- The solution of `L y = b`, where the matrix stands for its lower triangle `L`. -/
def solveLower [Scalar α] (L : SquareMatrix α n) : Operator α n :=
  fun b => leadingSolution L b n (Nat.le_refl n)

/-- The transpose across the other diagonal. It takes the lower triangle to itself, and a system
in it reads as one in the transpose with unknowns and equations in reverse order. -/
def antitranspose (L : SquareMatrix α n) : SquareMatrix α n :=
  ofEntries fun i j => L.entry j.rev i.rev

/-- The solution of `Lᵀ y = b`, where the matrix stands for its lower triangle `L`. -/
def solveTransposed [Scalar α] (L : SquareMatrix α n) : Operator α n :=
  fun b => (solveLower L.antitranspose b.reverse).reverse

end SquareMatrix

end BoxNewton
