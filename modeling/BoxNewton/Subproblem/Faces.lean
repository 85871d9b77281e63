/-
Minimization over faces. The free coordinates of a point span a face of the box; on it a direction
is found by conjugate gradients and followed by a projected search, which leads to the next face.
The iteration ends where the model gradient on the face is small, where the trust region was hit, or
where the conjugate gradient iterations are used up. As every face has fewer free coordinates than
the last, there are at most as many faces as coordinates.
-/
import BoxNewton.ConjugateGradient
import BoxNewton.Subproblem.ProjectedSearch

namespace BoxNewton

/-- Why the minimization over faces stopped, or that it has not. -/
inductive FaceStatus where
  | running
  | converged
  /-- The boundary of the trust region was reached. -/
  | trustRegion
  | iterationLimit
  deriving DecidableEq

def FaceStatus.code : FaceStatus → Nat
  | running => 0
  | converged => 1
  | trustRegion => 2
  | iterationLimit => 3

/-- A point on its way over the faces: the step to it from the base point, the image of that step
under the Hessian, and the iterations and products used so far. -/
structure FacePoint (α : Type) (n : Nat) where
  point : Vector α n
  step : Vector α n
  image : Vector α n
  iterations : Nat
  products : Nat
  status : FaceStatus

/-- How accurately the model is minimized: the gradient on a face has to shrink by the factor
`tolerance`, with so many conjugate gradient iterations for every face. -/
structure FaceLimits (α : Type) where
  tolerance : α
  maxIterations : Int

/-- The last point of the minimization over faces. -/
structure FaceStep (α : Type) (n : Nat) where
  point : Vector α n
  step : Vector α n
  iterations : Nat
  products : Nat
  status : FaceStatus

namespace Subproblem

variable {α : Type} [Scalar α] {n : Nat}

def free (p : Subproblem α n) (f : FacePoint α n) : Mask n := p.box.free f.point

/-- The model around the point, confined to its face. -/
def faceModel (p : Subproblem α n) (f : FacePoint α n) : BoxedModel α n where
  model :=
    { gradient := (p.free f).restrict (p.model.gradient + f.image)
      hessian := (p.free f).confine p.model.hessian }
  box := p.box
  base := f.point

/-- The accuracy asked for on the face: a fraction of the norm that the gradient at the base point
has there. -/
def faceTolerance (p : Subproblem α n) (l : FaceLimits α) (f : FacePoint α n) : α :=
  l.tolerance * norm ((p.free f).restrict p.model.gradient)

/-- The minimizer of the model on the face within the trust region. -/
def faceDirection (p : Subproblem α n) (l : FaceLimits α) (f : FacePoint α n) :
    ConjugateGradient.Result α n :=
  let problem : ConjugateGradient.Problem α n :=
    { model := (p.faceModel f).model
      preconditioner := .identity
      radius := p.radius
      tolerance := p.faceTolerance l f
      scaledTolerance := 0 }
  problem.solve l.maxIterations

/-- The step in the direction `w` along the box. -/
def faceSearch (p : Subproblem α n) (f : FacePoint α n) (w : Vector α n) : ProjectedStep α n :=
  (p.faceModel f).projectedStep p.rule w

/-- Moves on from a face that has free coordinates. Only those coordinates move. -/
def leaveFace (p : Subproblem α n) (l : FaceLimits α) (f : FacePoint α n) : FacePoint α n :=
  let free := p.free f
  let direction := p.faceDirection l f
  let search := p.faceSearch f direction.iterate
  let step := free.select (f.step + search.step) f.step
  let image := p.model.hessian step
  let iterations := f.iterations + direction.iterations
  { point := free.select search.point f.point
    step := step
    image := image
    iterations := iterations
    products := f.products + direction.iterations + search.products + 1
    status :=
      if norm (free.restrict (p.model.gradient + image)) ≤ p.faceTolerance l f then .converged
      else if direction.status = .negativeCurvature ∨ direction.status = .boundary then .trustRegion
      else if l.maxIterations < (iterations : Int) then .iterationLimit
      else .running }

theorem status_leaveFace (p : Subproblem α n) (l : FaceLimits α) (f : FacePoint α n) :
    (p.leaveFace l f).status =
      if norm ((p.free f).restrict (p.model.gradient + (p.leaveFace l f).image)) ≤ p.faceTolerance l f then .converged
      else if (p.faceDirection l f).status = .negativeCurvature ∨ (p.faceDirection l f).status = .boundary then
        .trustRegion
      else if l.maxIterations < ((p.leaveFace l f).iterations : Int) then .iterationLimit
      else .running := rfl

/-- One face. Where no coordinate is free, the face is a point and its problem is solved. -/
def advanceFace (p : Subproblem α n) (l : FaceLimits α) (f : FacePoint α n) : FacePoint α n :=
  if (p.free f).nonempty then p.leaveFace l f else { f with status := .converged }

/-- The first face is that of the point which the step `s` from the base point leads to. -/
def firstFace (p : Subproblem α n) (s : Vector α n) : FacePoint α n where
  point := p.box.project (p.base + s)
  step := s
  image := p.model.hessian s
  iterations := 0
  products := 1
  status := .running

def faceRun (p : Subproblem α n) (l : FaceLimits α) (s : Vector α n) : Run (FacePoint α n) :=
  advanceWhile (fun f => f.status == .running) (p.advanceFace l) n (p.firstFace s)

/-- The step that refines the step `s`. With all faces used up the problem is solved if no
coordinate is left free. -/
def minimizeFaces (p : Subproblem α n) (l : FaceLimits α) (s : Vector α n) : FaceStep α n :=
  let f := (p.faceRun l s).state
  { point := f.point
    step := f.step
    iterations := f.iterations
    products := f.products
    status :=
      if f.status = .running then if (p.free f).nonempty then .iterationLimit else .converged
      else f.status }

theorem status_minimizeFaces (p : Subproblem α n) (l : FaceLimits α) (s : Vector α n) :
    (p.minimizeFaces l s).status =
      if (p.faceRun l s).state.status = .running then
        if (p.free (p.faceRun l s).state).nonempty then .iterationLimit else .converged
      else (p.faceRun l s).state.status := rfl

end Subproblem

end BoxNewton
