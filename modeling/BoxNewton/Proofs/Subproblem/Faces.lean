/-
Minimization over faces on real data. A face is left for a point of the box that a real step leads to
(`Reached`), whatever the Hessian is. Where its search ends (`Searched`) is a step that was accepted, or one
that is straight in the free coordinates, unless the limit on trials stopped the search.
-/
import BoxNewton.Proofs.ConjugateGradient.Exact
import BoxNewton.Proofs.Loop
import BoxNewton.Proofs.Real.Model
import BoxNewton.Proofs.Subproblem.Basic
import BoxNewton.Proofs.Subproblem.ProjectedSearch
import BoxNewton.Subproblem.Faces

namespace BoxNewton

variable {n : ℕ}

namespace Subproblem

variable {p : Subproblem Exact n} {l : FaceLimits Exact} {M : Model ℝ n} {f : FacePoint Exact n}
  {s : Vector ℝ n}

/-! ## One face -/

/-- The point lies in the box, and a real step leads to it. -/
structure Reached (p : Subproblem Exact n) (M : Model ℝ n) (f : FacePoint Exact n) (s : Vector ℝ n) : Prop where
  step_eq : f.step = s
  image_eq : f.image = M.hessian s
  point_eq : f.point = p.base + (s : Vector Exact n)
  contains : p.box.Contains f.point

theorem Reached.setStatus (h : Reached p M f s) (status : FaceStatus) : Reached p M { f with status := status } s :=
  ⟨h.1, h.2, h.3, h.4⟩

theorem reached_firstFace (h : p.Extends M) (hs : p.box.Contains (p.base + (s : Vector Exact n))) :
    Reached p M (p.firstFace s) s := by
  have hpoint : (p.firstFace s).point = p.base + (s : Vector Exact n) := Box.project_of_contains hs
  exact ⟨rfl, h.model.hessian s, hpoint, hpoint ▸ hs⟩

theorem Reached.faceModel (h : p.Extends M) (hf : Reached p M f s) :
    (p.faceModel f).Extends (M.face (p.free f) s) where
  model := by
    refine ⟨?_, h.model.hessian.confine _⟩
    show (p.free f).restrict (p.model.gradient + f.image) = _
    rw [h.model.gradient, hf.image_eq, ← Exact.coe_add_vector, ← Exact.coe_restrict]; rfl
  base := hf.contains

/-- The problem whose solution gives the direction of a face. -/
noncomputable def directionProblem (p : Subproblem Exact n) (l : FaceLimits Exact) (f : FacePoint Exact n) :
    ConjugateGradient.Problem Exact n where
  model := (p.faceModel f).model
  preconditioner := .identity
  radius := p.radius
  tolerance := p.faceTolerance l f
  scaledTolerance := 0

/-- That problem over the reals, up to its tolerances. -/
noncomputable def faceProblem (M : Model ℝ n) (m : Mask n) (s : Vector ℝ n) (ρ : ℝ) :
    ConjugateGradient.Problem ℝ n where
  model := M.face m s
  preconditioner := .identity
  radius := ρ
  tolerance := 0
  scaledTolerance := 0

theorem Reached.faceProblem (h : p.Extends M) (hf : Reached p M f s) {ρ : ℝ} (hρ : p.radius = ρ) :
    (p.directionProblem l f).Extends (faceProblem M (p.free f) s ρ) :=
  ⟨(hf.faceModel h).model, fun _ => rfl, fun _ => rfl, hρ⟩

theorem Reached.exists_direction (h : p.Extends M) (hf : Reached p M f s) {ρ : ℝ} (hρ : p.radius = ρ)
    (l : FaceLimits Exact) : ∃ w : Vector ℝ n, (p.faceDirection l f).iterate = w :=
  (hf.faceProblem h hρ).exists_iterate l.maxIterations

theorem Reached.exists_descending {A : Vector ℝ n →ₗ[ℝ] Vector ℝ n} (hA : IsSymmetric A)
    (hM : ∀ v, M.hessian v = A v) (h : p.Extends M) (hf : Reached p M f s) {ρ : ℝ} (hρ : p.radius = ρ)
    (l : FaceLimits Exact) :
    ∃ w : Vector ℝ n, (p.faceDirection l f).iterate = w ∧
      ConjugateGradient.Descending ((p.free f).confineLinear A) (-(M.face (p.free f) s).gradient) w :=
  (hf.faceProblem h hρ).exists_descending (Mask.isSymmetric_confineLinear _ hA) (Model.hessian_face hM _ s)
    l.maxIterations

/-- Leaving a face with free coordinates moves only these, by what the search of the face moves them. -/
theorem Reached.leaveFace (h : p.Extends M) (hf : Reached p M f s) {d : Vector ℝ n}
    (hstep : (p.faceSearch f (p.faceDirection l f).iterate).step = d)
    (hpoint : (p.faceSearch f (p.faceDirection l f).iterate).point = f.point + (d : Vector Exact n))
    (hd : p.box.Contains (f.point + (d : Vector Exact n))) :
    Reached p M (p.leaveFace l f) (s + (p.free f).restrict d) := by
  have hs : (p.leaveFace l f).step = (s + (p.free f).restrict d : Vector ℝ n) := by
    show (p.free f).select (f.step + (p.faceSearch f (p.faceDirection l f).iterate).step) f.step = _
    rw [hstep, hf.step_eq, ← Mask.select_add_self, Exact.coe_select, Exact.coe_add_vector]
  have hp : (p.leaveFace l f).point = (p.free f).select (f.point + (d : Vector Exact n)) f.point := by
    rw [← hpoint]; rfl
  refine ⟨hs, ?_, ?_, ?_⟩
  · show p.model.hessian (p.leaveFace l f).step = _
    rw [hs, h.model.hessian]
  · rw [hp, hf.point_eq, ← Mask.select_add_self]
    refine ext_get fun i => ?_
    simp only [Mask.get_select, get_add, Exact.get_coe]
    split
    · exact Exact.add_coe_add _ _ _
    · rfl
  · rw [hp]
    intro i
    rw [Mask.get_select]
    split
    · exact hd i
    · exact hf.contains i

/-- The free coordinates move along the box in the direction of the face. -/
theorem Reached.leaveFace_of_stepped (h : p.Extends M) (hf : Reached p M f s) {w : Vector ℝ n} {ℓ : ℝ}
    (hw : (p.faceDirection l f).iterate = w) (hℓ : BoxedModel.Stepped (p.faceModel f) p.rule w ℓ) :
    Reached p M (p.leaveFace l f) (s + (p.free f).restrict (p.box.shift f.point w ℓ)) := by
  have hstep := hℓ.step_eq hf.contains
  have hpoint := hℓ.point_eq hf.contains
  rw [← hw] at hstep hpoint
  exact hf.leaveFace h hstep hpoint (Box.contains_add_shift hf.contains _ _)

/-- Where the search of a face ends. An accepted step passes the test, and another is straight in the
free coordinates, unless the limit on trials stopped the search. -/
structure Searched (p : Subproblem Exact n) (l : FaceLimits Exact) (M : Model ℝ n) (f : FacePoint Exact n)
    (s w d : Vector ℝ n) (ℓ : ℝ) : Prop where
  nonneg : 0 ≤ ℓ
  le_one : ℓ ≤ 1
  step_eq : (p.faceSearch f (p.faceDirection l f).iterate).step = d
  leaveFace : Reached p M (p.leaveFace l f) (s + (p.free f).restrict d)
  accepted : ∀ μ : ℝ, p.rule.decrease = μ → (p.faceModel f).Accepted p.rule (p.faceDirection l f).iterate →
    (M.face (p.free f) s).value d ≤ μ * (M.face (p.free f) s).slope d
  straight : (p.faceModel f).Uncapped p.rule (p.faceDirection l f).iterate →
    (p.faceModel f).Accepted p.rule (p.faceDirection l f).iterate ∨
      (p.free f).restrict d = (p.free f).restrict (ℓ • w)

theorem Reached.exists_searched (h : p.Extends M) (hf : Reached p M f s) {w : Vector ℝ n}
    (hw : (p.faceDirection l f).iterate = w) : ∃ d ℓ, Searched p l M f s w d ℓ := by
  obtain ⟨ℓ, hℓ⟩ := BoxedModel.exists_stepped (p.faceModel f) p.rule w
  have hstep := hℓ.step_eq hf.contains
  rw [← hw] at hstep
  refine ⟨_, ℓ, hℓ.pos.le, hℓ.le_one, hstep, hf.leaveFace_of_stepped h hw hℓ, fun μ hμ ha => ?_, fun hu => ?_⟩
  · have := hℓ.accepted (hw ▸ ha)
    rw [(hf.faceModel h).trial] at this
    exact (SearchRule.accepts_iff hμ).1 this
  · rw [hw] at hu ⊢
    refine (hℓ.straight hu).imp_right fun hle => ext_get fun i => ?_
    rw [Mask.get_restrict, Mask.get_restrict]
    split
    · rw [get_smul]
      exact Box.shift_of_le_first hf.contains hℓ.pos.le hle ‹_›
    · rfl

theorem Reached.advanceFace (h : p.Extends M) (hf : Reached p M f s) {ρ : ℝ} (hρ : p.radius = ρ)
    (l : FaceLimits Exact) : ∃ s', Reached p M (p.advanceFace l f) s' := by
  unfold Subproblem.advanceFace
  split
  · obtain ⟨w, hw⟩ := hf.exists_direction h hρ l
    obtain ⟨d, ℓ, hd⟩ := hf.exists_searched h hw
    exact ⟨_, hd.leaveFace⟩
  · exact ⟨s, hf.setStatus .converged⟩

/-- A face with free coordinates is left by a search that its limit on trials did not stop. -/
def FaceUncapped (p : Subproblem Exact n) (l : FaceLimits Exact) (f : FacePoint Exact n) : Prop :=
  (p.free f).nonempty = true → (p.faceModel f).Uncapped p.rule (p.faceDirection l f).iterate

/-! ## All faces -/

/-- The face that `k` faces lead to. -/
noncomputable def faceAt (p : Subproblem Exact n) (l : FaceLimits Exact) (s : Vector Exact n) (k : ℕ) :
    FacePoint Exact n :=
  (p.advanceFace l)^[k] (p.firstFace s)

/-- No limit on trials stopped a search of the run. -/
def FacesUncapped (p : Subproblem Exact n) (l : FaceLimits Exact) (s : Vector Exact n) : Prop :=
  ∀ k < (p.faceRun l s).steps, p.FaceUncapped l (p.faceAt l s k)

theorem faceAt_succ (l : FaceLimits Exact) (s : Vector Exact n) (k : ℕ) :
    p.faceAt l s (k + 1) = p.advanceFace l (p.faceAt l s k) :=
  Function.iterate_succ_apply' ..

theorem state_faceRun (l : FaceLimits Exact) (s : Vector Exact n) :
    (p.faceRun l s).state = p.faceAt l s (p.faceRun l s).steps :=
  state_advanceWhile ..

/-- Where no coordinate is free at first, the step stays what it is. -/
theorem step_minimizeFaces_of_not_free {s : Vector Exact n} (hfree : (p.free (p.firstFace s)).nonempty = false)
    (l : FaceLimits Exact) : (p.minimizeFaces l s).step = s := by
  have hkeep : ∀ f : FacePoint Exact n, f.step = s ∧ (p.free f).nonempty = false → (f.status == .running) = true →
      (p.advanceFace l f).step = s ∧ (p.free (p.advanceFace l f)).nonempty = false := fun f hf _ => by
    rw [Subproblem.advanceFace, if_neg (Bool.not_eq_true _ ▸ hf.2)]
    exact hf
  exact (advanceWhile_induction hkeep n ⟨rfl, hfree⟩).1

variable (h : p.Extends M) (hs : p.box.Contains (p.base + (s : Vector Exact n))) {ρ μ : ℝ} (hρ : p.radius = ρ)

include h hs hρ in
theorem exists_reached_faceAt (l : FaceLimits Exact) (k : ℕ) : ∃ s', Reached p M (p.faceAt l s k) s' := by
  induction k with
  | zero => exact ⟨s, reached_firstFace h hs⟩
  | succ k ih =>
    obtain ⟨s', hs'⟩ := ih
    rw [faceAt_succ]
    exact hs'.advanceFace h hρ l

include h hs hρ in
/-- The refined step is real, and the refined point lies in the box where the step leads. -/
theorem exists_minimizeFaces (l : FaceLimits Exact) :
    ∃ s' : Vector ℝ n, (p.minimizeFaces l s).step = s' ∧
      (p.minimizeFaces l s).point = p.base + (s' : Vector Exact n) ∧ p.box.Contains (p.minimizeFaces l s).point := by
  obtain ⟨s', hs'⟩ := exists_reached_faceAt h hs hρ l (p.faceRun l s).steps
  rw [← state_faceRun] at hs'
  exact ⟨s', hs'.step_eq, hs'.point_eq, hs'.contains⟩

include h hs hρ in
theorem facesUncapped_unbounded (hb : p.box = .unbounded) {x : Vector ℝ n} (hx : p.base = x)
    (hμ : p.rule.decrease = μ) (htrials : 0 < p.rule.maxTrials) (l : FaceLimits Exact) : p.FacesUncapped l s := by
  intro k _ _
  obtain ⟨t, ht⟩ := exists_reached_faceAt h hs hρ l k
  obtain ⟨w, hw⟩ := ht.exists_direction h hρ l
  rw [hw]
  refine BoxedModel.uncapped_of_contains (ht.faceModel h) (x := x + t) ?_ hμ htrials (hb ▸ Box.contains_unbounded _)
  show (p.faceAt l s k).point = _
  rw [ht.point_eq, hx, Exact.coe_add_vector]

end Subproblem

end BoxNewton
