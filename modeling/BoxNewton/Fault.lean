/-
What can be wrong with a request, and how it is said.
-/
import BoxNewton.Tensor
import BoxNewton.Text.Shortest

namespace BoxNewton

/-- The limits that a caller may leave open, as long as nothing is compared with them. -/
inductive Limit where
  | steps
  | trials
  deriving DecidableEq

/-- The causes of a refusal. -/
inductive Fault where
  /-- The arguments are not vectors of one length. -/
  | lengthMismatch
  /-- The breakpoints of a path without coordinates. -/
  | noCoordinates
  /-- A position beyond the end of a table or of a shape. -/
  | outOfRange
  /-- An option by a name that is none. -/
  | unknownOption
  /-- An option without the number that it stands for. -/
  | missingNumber
  /-- A limit that was left open and is needed. -/
  | missingLimit (limit : Limit)
  | gradientNotCallable
  | productNotCallable
  | decreaseOutOfRange (value : Float)
  | iterationsNotPositive
  /-- The starting point is not a vector. -/
  | startShape (shape : Shape)
  /-- The bounds are not pairs. -/
  | boundsShape (shape : Shape)
  /-- The bounds are not as many as the coordinates of the starting point. -/
  | boundsCount (n : Nat) (shape : Shape)
  | crossedBounds (indices : List Nat)
  | matrixShape (n : Nat) (shape : Shape)
  | sideShape (n : Nat)

/-- The wording of a fault. Faults of the caller's types have none. -/
def Fault.message? : Fault → Option String
  | lengthMismatch | unknownOption | missingNumber | missingLimit _ => none
  | noCoordinates => some "zero-size array to reduction operation min which has no identity"
  | outOfRange => some "tuple index out of range"
  | gradientNotCallable => some "obj_grad_fn must be callable as obj_grad_fn(x, args)"
  | productNotCallable => some "obj_hvp_fn must be callable as obj_hvp_fn(x, v, args)"
  | decreaseOutOfRange value => some ("mu0 must lie in (0, 1), got " ++ Text.shortest value)
  | iterationsNotPositive => some "max_cg_iter must be a positive integer"
  | startShape shape => some ("x0 must be a 1-D array, got shape " ++ shape.text)
  | boundsShape shape => some ("bounds must have shape (n, 2), got " ++ shape.text)
  | boundsCount n shape =>
    some ("bounds must have shape (" ++ toString n ++ ", 2), got " ++ shape.text)
  | crossedBounds indices =>
    some ("lower bound exceeds upper bound at indices [" ++
      ", ".intercalate (indices.map toString) ++ "]")
  | matrixShape n shape =>
    some ("Q must have shape " ++ Shape.text [n, n] ++ ", got " ++ shape.text)
  | sideShape n => some ("lower and upper must have shape " ++ Shape.text [n])

/-- The value, or a fault in its absence. -/
def orFault {γ : Type} (fault : Fault) : Option γ → Except Fault γ
  | some a => .ok a
  | none => .error fault

/-- Vectors of one length, from tensors of which the first fixes it. -/
def Tensor.commonLength {k : Nat} (ts : Vector Tensor (k + 1)) :
    Except Fault ((n : Nat) × Vector (Vector Float n) (k + 1)) :=
  match ts[0].shape with
  | [n] => do
    let vs ← ts.mapM fun t => orFault .lengthMismatch (t.vector? n)
    return ⟨n, vs⟩
  | _ => .error .lengthMismatch

/-- What is compared with a limit needs one that was not left open. -/
def requireLimit (missing : List Limit) (limit : Limit) : Except Fault Unit :=
  if limit ∈ missing then .error (.missingLimit limit) else .ok ()

/-- Paths have breakpoints only where there are coordinates. -/
def requireCoordinates (n : Nat) : Except Fault Unit :=
  if n = 0 then .error .noCoordinates else .ok ()

/-- An iteration needs a limit on its searches, and a coordinate to move. -/
def requireMovable (missing : List Limit) (n : Nat) : Except Fault Unit := do
  requireLimit missing .trials
  requireCoordinates n

end BoxNewton
