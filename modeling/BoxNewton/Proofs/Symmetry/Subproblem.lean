/-
Subproblems under motions. When model, box and base point move together, both searches try the same
lengths and see the same changes there, conjugate gradients make the same iterations, and every face
leads to the next as before: the points found are moved and the steps to them turned, while lengths,
counts and reasons to stop stay.
-/
import BoxNewton.Proofs.Loop
import BoxNewton.Proofs.Symmetry.Box
import BoxNewton.Subproblem.Cauchy
import BoxNewton.Subproblem.Faces

namespace BoxNewton.Motion

variable {n : ℕ} (τ : Motion n)

/-! ## Conjugate gradients -/

/-- The change of variables that acts on turned vectors. -/
noncomputable def preconditioner (c : ConjugateGradient.Preconditioner Exact n) :
    ConjugateGradient.Preconditioner Exact n :=
  ⟨τ.operator c.solve, τ.operator c.solveTransposed⟩

theorem preconditioner_identity : τ.preconditioner .identity = .identity := by
  have h : τ.operator id = id := funext τ.vector_vectorBack
  exact congrArg₂ ConjugateGradient.Preconditioner.mk h h

noncomputable def directionProblem (p : ConjugateGradient.Problem Exact n) : ConjugateGradient.Problem Exact n :=
  { p with model := τ.model p.model, preconditioner := τ.preconditioner p.preconditioner }

noncomputable def directionState (s : ConjugateGradient.State Exact n) : ConjugateGradient.State Exact n :=
  { s with
    iterate := τ.vector s.iterate
    residual := τ.vector s.residual
    scaledResidual := τ.vector s.scaledResidual
    direction := τ.vector s.direction }

noncomputable def directionResult (r : ConjugateGradient.Result Exact n) : ConjugateGradient.Result Exact n :=
  { r with iterate := τ.vector r.iterate }

section Direction

variable (p : ConjugateGradient.Problem Exact n)

theorem start_directionProblem : (τ.directionProblem p).start = τ.directionState p.start := by
  simp only [ConjugateGradient.Problem.start, directionProblem, directionState, model, preconditioner,
    ← vector_neg, operator_vector, dot_vector, vector_zero]

theorem boundaryStep_vector (x d : Vector Exact n) (radius : Exact) :
    TrustRegion.boundaryStep (τ.vector x) (τ.vector d) radius = TrustRegion.boundaryStep x d radius := by
  simp only [TrustRegion.boundaryStep, dot_vector]

theorem advance_directionProblem (s : ConjugateGradient.State Exact n) :
    (τ.directionProblem p).advance (τ.directionState s) = τ.directionState (p.advance s) := by
  simp only [ConjugateGradient.Problem.advance, directionProblem, directionState, model, preconditioner,
    operator_vector, dot_vector, boundaryStep_vector, norm_vector, ← vector_hmul, ← vector_add, ← vector_sub,
    apply_ite τ.vector]
  rfl

theorem solve_directionProblem (k : ℤ) : (τ.directionProblem p).solve k = τ.directionResult (p.solve k) := by
  have hrun : (τ.directionProblem p).run k = ⟨τ.directionState (p.run k).state, (p.run k).steps⟩ := by
    unfold ConjugateGradient.Problem.run
    rw [start_directionProblem]
    exact advanceWhile_map (fun _ => rfl) (τ.advance_directionProblem p) _ _
  unfold ConjugateGradient.Problem.solve
  rw [hrun]; rfl

end Direction

/-! ## Trials -/

/-- The boxed model that says of the moved points what `q` says of the points. -/
noncomputable def boxedModel (q : BoxedModel Exact n) : BoxedModel Exact n where
  model := τ.model q.model
  box := τ.box q.box
  base := τ.point q.base

/-- The trial with its step turned. What it predicts stays, and so does what a rule says of it. -/
noncomputable def trial (t : Trial Exact n) : Trial Exact n := { t with step := τ.vector t.step }

noncomputable def projectedStep (s : ProjectedStep Exact n) : ProjectedStep Exact n :=
  { s with point := τ.point s.point, step := τ.vector s.step }

section Searches

variable {q : BoxedModel Exact n} (hq : ∀ i, ¬ q.box.upper.get i < q.box.lower.get i)

include hq

theorem trial_boxedModel (w : Vector Exact n) (t : Exact) :
    (τ.boxedModel q).trial (τ.vector w) t = τ.trial (q.trial w t) := by
  have hs : (τ.boxedModel q).box.displacement (τ.boxedModel q).base (τ.vector w) t =
      τ.vector (q.box.displacement q.base w t) := τ.displacement_box hq q.base w t
  unfold BoxedModel.trial
  rw [hs]
  exact congrArg₂ (Trial.mk _) (τ.value_model q.model _) (τ.slope_model q.model _)

/-! ## The projected search -/

theorem projectedSearch_boxedModel (r : SearchRule Exact) (w : Vector Exact n) :
    (τ.boxedModel q).projectedSearch r (τ.vector w) = q.projectedSearch r w := by
  have hkeeps : (τ.boxedModel q).keepsHalving (τ.vector w) = q.keepsHalving w := by
    funext s
    have hfirst : (τ.boxedModel q).firstBreakpoint (τ.vector w) = q.firstBreakpoint w :=
      congrArg (·.first) (τ.breakpoints_box q.base w)
    unfold BoxedModel.keepsHalving
    rw [hfirst]
  have hhalve : (τ.boxedModel q).halve r (τ.vector w) = q.halve r w := by
    funext s
    unfold BoxedModel.halve
    rw [τ.trial_boxedModel hq]; rfl
  unfold BoxedModel.projectedSearch
  rw [hkeeps, hhalve]

theorem projectedStep_boxedModel (r : SearchRule Exact) (w : Vector Exact n) :
    (τ.boxedModel q).projectedStep r (τ.vector w) = τ.projectedStep (q.projectedStep r w) := by
  have hfirst : (τ.boxedModel q).firstBreakpoint (τ.vector w) = q.firstBreakpoint w :=
    congrArg (·.first) (τ.breakpoints_box q.base w)
  unfold BoxedModel.projectedStep
  rw [τ.projectedSearch_boxedModel hq, hfirst]
  simp only [boxedModel, ← vector_hmul, ← point_add, τ.project_box hq, τ.displacement_box hq]
  rfl

end Searches

/-! ## The Cauchy step -/

noncomputable def subproblem (p : Subproblem Exact n) : Subproblem Exact n where
  toBoxedModel := τ.boxedModel p.toBoxedModel
  radius := p.radius
  rule := p.rule

noncomputable def cauchyStep (c : CauchyStep Exact n) : CauchyStep Exact n := { c with step := τ.vector c.step }

section Subproblem

variable {p : Subproblem Exact n} (hp : ∀ i, ¬ p.box.upper.get i < p.box.lower.get i)

theorem within_trial (t : Trial Exact n) : (τ.subproblem p).Within (τ.trial t) ↔ p.Within t := by
  show norm (τ.vector t.step) ≤ p.radius ↔ _
  rw [norm_vector]; rfl

theorem overlong_trial (t : Trial Exact n) : (τ.subproblem p).Overlong (τ.trial t) ↔ p.Overlong t := by
  show p.radius ≤ norm (τ.vector t.step) ∨ p.rule.Refuses t ↔ _
  rw [norm_vector]; rfl

theorem cauchyEnd_subproblem : (τ.subproblem p).cauchyEnd = p.cauchyEnd := by
  show ((τ.box p.box).breakpoints (τ.point p.base) (-τ.vector p.model.gradient)).last = _
  rw [← vector_neg, breakpoints_box]; rfl

include hp

theorem cauchyTrial_subproblem (t : Exact) : (τ.subproblem p).cauchyTrial t = τ.trial (p.cauchyTrial t) :=
  τ.trial_boxedModel hp p.model.gradient (-t)

theorem cauchySearch_subproblem (length : Exact) : (τ.subproblem p).cauchySearch length = p.cauchySearch length := by
  have hshorten : (τ.subproblem p).shorten = p.shorten := by
    funext s
    simp only [Subproblem.shorten, τ.cauchyTrial_subproblem hp, within_trial]
    rfl
  have hlengthen : (τ.subproblem p).lengthen = p.lengthen := by
    funext s
    simp only [Subproblem.lengthen, τ.cauchyTrial_subproblem hp, within_trial]
    rfl
  simp only [Subproblem.cauchySearch, Subproblem.shortenWhile, Subproblem.lengthenWhile, hshorten, hlengthen,
    cauchyEnd_subproblem, τ.cauchyTrial_subproblem hp, overlong_trial]
  rfl

theorem cauchyStep_subproblem (length : Exact) :
    (τ.subproblem p).cauchyStep length = τ.cauchyStep (p.cauchyStep length) := by
  unfold Subproblem.cauchyStep
  rw [τ.cauchySearch_subproblem hp]
  exact congrArg (CauchyStep.mk _ · _) (τ.displacement_box hp p.base p.model.gradient _)

end Subproblem

/-! ## Faces -/

noncomputable def facePoint (f : FacePoint Exact n) : FacePoint Exact n :=
  { f with point := τ.point f.point, step := τ.vector f.step, image := τ.vector f.image }

noncomputable def faceStep (f : FaceStep Exact n) : FaceStep Exact n :=
  { f with point := τ.point f.point, step := τ.vector f.step }

section Faces

variable {p : Subproblem Exact n} (hp : ∀ i, ¬ p.box.upper.get i < p.box.lower.get i) (l : FaceLimits Exact)
  (f : FacePoint Exact n)

theorem free_subproblem : (τ.subproblem p).free (τ.facePoint f) = τ.mask (p.free f) := τ.free_box f.point

theorem faceModel_subproblem : (τ.subproblem p).faceModel (τ.facePoint f) = τ.boxedModel (p.faceModel f) := by
  unfold Subproblem.faceModel
  rw [free_subproblem]
  simp only [subproblem, boxedModel, model, facePoint, ← vector_add, restrict_vector, confine_operator]

theorem faceTolerance_subproblem : (τ.subproblem p).faceTolerance l (τ.facePoint f) = p.faceTolerance l f := by
  unfold Subproblem.faceTolerance
  rw [free_subproblem]
  simp only [subproblem, boxedModel, model, restrict_vector, norm_vector]

theorem faceDirection_subproblem :
    (τ.subproblem p).faceDirection l (τ.facePoint f) = τ.directionResult (p.faceDirection l f) := by
  unfold Subproblem.faceDirection
  rw [faceModel_subproblem, faceTolerance_subproblem, ← solve_directionProblem]
  unfold directionProblem
  rw [preconditioner_identity]; rfl

include hp

theorem leaveFace_subproblem : (τ.subproblem p).leaveFace l (τ.facePoint f) = τ.facePoint (p.leaveFace l f) := by
  have hsearch : ∀ w, (τ.subproblem p).faceSearch (τ.facePoint f) (τ.vector w) =
      τ.projectedStep (p.faceSearch f w) := fun w => by
    unfold Subproblem.faceSearch
    rw [faceModel_subproblem]
    exact τ.projectedStep_boxedModel (q := p.faceModel f) hp p.rule w
  unfold Subproblem.leaveFace
  simp only [free_subproblem, faceDirection_subproblem, faceTolerance_subproblem, directionResult, hsearch]
  simp only [facePoint, projectedStep, subproblem, boxedModel, model, ← vector_add,
    operator_vector, select_vector, select_point, restrict_vector, norm_vector]
  rfl

theorem advanceFace_subproblem :
    (τ.subproblem p).advanceFace l (τ.facePoint f) = τ.facePoint (p.advanceFace l f) := by
  unfold Subproblem.advanceFace
  rw [free_subproblem, nonempty_mask, τ.leaveFace_subproblem hp]
  split <;> rfl

theorem firstFace_subproblem (s : Vector Exact n) :
    (τ.subproblem p).firstFace (τ.vector s) = τ.facePoint (p.firstFace s) := by
  simp only [Subproblem.firstFace, subproblem, boxedModel, model, facePoint, operator_vector, ← point_add,
    τ.project_box hp]

theorem faceRun_subproblem (s : Vector Exact n) : (τ.subproblem p).faceRun l (τ.vector s) =
    ⟨τ.facePoint (p.faceRun l s).state, (p.faceRun l s).steps⟩ := by
  unfold Subproblem.faceRun
  rw [τ.firstFace_subproblem hp]
  exact advanceWhile_map (fun _ => rfl) (fun f => τ.advanceFace_subproblem hp l f) _ _

theorem minimizeFaces_subproblem (s : Vector Exact n) :
    (τ.subproblem p).minimizeFaces l (τ.vector s) = τ.faceStep (p.minimizeFaces l s) := by
  unfold Subproblem.minimizeFaces
  rw [τ.faceRun_subproblem hp]
  simp only [free_subproblem, nonempty_mask]
  rfl

end Faces

end BoxNewton.Motion
