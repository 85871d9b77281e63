/-
The projected search: a step on the projected path along a direction in which the model decreases.
The length is halved from 1 until the model decreases enough, or until no breakpoint is left before
it; in that case the step is extended to the first breakpoint, where the path is still straight and
one more coordinate reaches its bound.
-/
import BoxNewton.Loop
import BoxNewton.Subproblem.Basic

namespace BoxNewton

/-- The point reached, the step to it, its length on the path, and the products with the Hessian
it took. -/
structure ProjectedStep (α : Type) (n : Nat) where
  point : Vector α n
  step : Vector α n
  length : α
  products : Nat

/-- The length to be tried next, or that the last one was taken. -/
structure ProjectedSearch (α : Type) where
  length : α
  searching : Bool

namespace BoxedModel

variable {α : Type} [Scalar α] {n : Nat}

/-- Tries the length, and halves it if the model does not decrease enough. -/
def halve (q : BoxedModel α n) (r : SearchRule α) (w : Vector α n) (s : ProjectedSearch α) :
    ProjectedSearch α :=
  if r.Accepts (q.trial w s.length) then { s with searching := false }
  else { length := 0.5 * s.length, searching := true }

def firstBreakpoint (q : BoxedModel α n) (w : Vector α n) : α :=
  (q.box.breakpoints q.base w).first

/-- The search goes on while no length was taken and a breakpoint lies before the next one. -/
def keepsHalving (q : BoxedModel α n) (w : Vector α n) (s : ProjectedSearch α) : Bool :=
  s.searching && decide (q.firstBreakpoint w < s.length)

def projectedSearch (q : BoxedModel α n) (r : SearchRule α) (w : Vector α n) :
    Run (ProjectedSearch α) :=
  advanceWhile (q.keepsHalving w) (q.halve r w) r.maxTrials.toNat ⟨1, true⟩

/-- The step that the search along `w` ends with. Each trial costs a product with the Hessian. -/
def projectedStep (q : BoxedModel α n) (r : SearchRule α) (w : Vector α n) : ProjectedStep α n :=
  let run := q.projectedSearch r w
  let found := run.state.length
  let first := q.firstBreakpoint w
  let length := if found < 1 ∧ found < first then first else found
  { point := q.box.project (q.base + length * w)
    step := q.box.displacement q.base w length
    length := length
    products := run.steps }

end BoxedModel

end BoxNewton
