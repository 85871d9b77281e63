/-
Every face that the minimization moves on from fixes a coordinate, for any symmetric Hessian. Conjugate gradients
have as many iterations as they need, so a search that follows them in full solves the problem of its face; any
other search takes a free coordinate to its bound (`Reached.exists_fixed`). So with as many faces as coordinates
the minimization is cut off only where nothing is left to move.
-/
import BoxNewton.Proofs.ConjugateGradient.Termination
import BoxNewton.Proofs.Subproblem.Representation

namespace BoxNewton

variable {n : ℕ}

namespace Subproblem

variable {p : Subproblem Exact n} {l : FaceLimits Exact} {M : Model ℝ n} {f : FacePoint Exact n} {s : Vector ℝ n}

/-! ## One face -/

section Face

variable {A : Vector ℝ n →ₗ[ℝ] Vector ℝ n} (hM : ∀ v, M.hessian v = A v) {ρ : ℝ}

include hM in
/-- The gradient that conjugate gradients see is the gradient of the model after the step. -/
theorem gradientAt_faceProblem (m : Mask n) (s : Vector ℝ n) (ρ : ℝ) (w : Vector ℝ n) :
    (faceProblem M m s ρ).gradientAt w = m.restrict (M.gradient + M.hessian (s + m.restrict w)) := by
  show m.restrict (M.gradient + M.hessian s) + m.restrict (M.hessian (m.restrict w)) = _
  rw [← Mask.restrict_add, hM, hM, hM, map_add, add_assoc]

theorem faceTolerance_eq (h : p.Extends M) {τ : ℝ} (hτ : l.tolerance = τ) :
    p.faceTolerance l f = (τ * norm ((p.free f).restrict M.gradient) : ℝ) := by
  rw [faceTolerance, hτ, h.model.gradient, ← Exact.coe_restrict, ← Exact.coe_norm, Exact.coe_mul]

theorem Reached.norm_gradient (h : p.Extends M) (hf : Reached p M f s) (m : Mask n) :
    norm (m.restrict (p.model.gradient + f.image)) = (norm (m.restrict (M.gradient + M.hessian s)) : ℝ) := by
  rw [h.model.gradient, hf.image_eq, ← Exact.coe_add_vector, ← Exact.coe_restrict, ← Exact.coe_norm]

variable (h : p.Extends M) (hf : Reached p M f s) (hρ : p.radius = ρ)

include h hf hρ in
/-- The direction of a face moves free coordinates only. -/
theorem Reached.get_direction {w : Vector ℝ n} (hw : (p.faceDirection l f).iterate = w) {i : Fin n}
    (hi : w.get i ≠ 0) : (p.free f).get i = true := by
  have hr : (Subproblem.faceProblem M (p.free f) s ρ).descent ∈ (p.free f).subspace :=
    Submodule.neg_mem _ (Mask.restrict_mem_subspace _ _)
  obtain ⟨w', hw', hmem⟩ := (hf.faceProblem (l := l) h hρ).exists_iterate_mem hr
    (fun v _ => Mask.restrict_mem_subspace _ _) l.maxIterations
  obtain rfl : w' = w := Exact.vector_injective (hw'.symm.trans hw)
  by_contra hno
  exact hi (hmem i (Bool.not_eq_true _ ▸ hno))

variable (hA : IsSymmetric A) (h0 : 0 ≤ ρ) {τ : ℝ} (hτ : l.tolerance = τ) (hτ0 : 0 ≤ τ) (hl : n ≤ l.maxIterations)

include hA hM h hf hρ hτ hτ0 hl in
/-- Conjugate gradients that end within the trust region have made the gradient on the face small. -/
theorem Reached.gradientAt_le {w : Vector ℝ n}
    (hw : ConjugateGradient.Truthful (p.directionProblem l f) (Subproblem.faceProblem M (p.free f) s ρ)
      l.maxIterations w)
    (hin : ¬ ((p.faceDirection l f).status = .negativeCurvature ∨ (p.faceDirection l f).status = .boundary)) :
    ((norm ((Subproblem.faceProblem M (p.free f) s ρ).gradientAt w) : ℝ) : Exact) ≤ p.faceTolerance l f := by
  have htol : ∀ {v : Vector ℝ n}, norm v ≤ 0 → ((norm v : ℝ) : Exact) ≤ p.faceTolerance l f := fun hv => by
    rw [faceTolerance_eq h hτ]
    exact Exact.coe_le.2 (hv.trans (mul_nonneg hτ0 (norm_nonneg _)))
  cases hst : (p.faceDirection l f).status with
  | running => exact absurd hst hw.ended
  | negativeCurvature => exact absurd (.inl hst) hin
  | boundary => exact absurd (.inr hst) hin
  | iterationLimit =>
    refine absurd (hw.iterationLimit hst).1 ((hf.faceProblem h hρ).terminates ?_ (Model.hessian_face hM _ s) ?_ hl).2
    · exact Mask.isSymmetric_confineLinear _ hA
    · exact Exact.coe_le.2 le_rfl
  | converged =>
    rcases hw.converged hst with hzero | hle
    · exact htol (by rw [hzero, norm_zero])
    · exact hle
  | convergedScaled => exact htol (Exact.coe_le.1 (hw.convergedScaled hst).2)

include hA hM h hf hρ h0 hτ hτ0 hl in
/-- A face that the minimization moves on from takes a free coordinate to its bound. -/
theorem Reached.exists_fixed (hrun : (p.advanceFace l f).status = .running) :
    ∃ i, (p.free f).get i = true ∧ (p.free (p.advanceFace l f)).get i = false := by
  unfold Subproblem.advanceFace at hrun ⊢
  split
  · rw [if_pos ‹_›, status_leaveFace] at hrun
    obtain ⟨w, hw⟩ := hf.exists_truthful hM h hρ h0 l
    obtain ⟨ℓ, hℓ⟩ := BoxedModel.exists_stepped (p.faceModel f) p.rule w
    have hleave := hf.leaveFace_of_stepped h hw.iterate_eq hℓ
    rcases hℓ.full_or_fixed hf.contains with hfull | ⟨i, hwi, hi⟩
    · -- the full step leaves the gradient that conjugate gradients ended with
      have hstep : (p.free f).restrict (p.box.shift f.point w ℓ) = (p.free f).restrict w :=
        Mask.restrict_eq_restrict hfull
      have hgrad := hf.gradientAt_le hM h hρ hA hτ hτ0 hl hw
      rw [gradientAt_faceProblem hM, ← hstep, ← hleave.norm_gradient h] at hgrad
      split_ifs at hrun with hsmall hout
      exact absurd (hgrad hout) hsmall
    · -- the coordinate at its bound was free, as the direction moves no other
      have hfree := hf.get_direction h hρ hw.iterate_eq hwi
      have hpoint : (p.leaveFace l f).point.get i = ((p.faceModel f).projectedStep p.rule w).point.get i := by
        show ((p.free f).select (p.faceSearch f (p.faceDirection l f).iterate).point f.point).get i = _
        rw [Mask.get_select, if_pos hfree, show (p.faceDirection l f).iterate = w from hw.iterate_eq]; rfl
      refine ⟨i, hfree, ?_⟩
      rw [Box.get_free] at hi
      rw [Subproblem.free, Box.get_free, hpoint]
      exact hi
  · rw [if_neg ‹_›] at hrun
    cases hrun

include hM h hf hρ h0 in
/-- A face whose free coordinates have room around them is left by a search that its limit on trials does not
stop. -/
theorem Reached.faceUncapped_of_room {x : Vector ℝ n} (hx : f.point = x) {μ : ℝ} (hμ : p.rule.decrease = μ)
    (htrials : 0 < p.rule.maxTrials) (hroom : ∀ i, (p.free f).get i = true → ∀ t : ℝ,
      |t| ≤ (1 / 2) ^ p.rule.maxTrials.toNat * ρ →
        p.box.lower.get i ≤ ((x.get i + t : ℝ) : Exact) ∧ ((x.get i + t : ℝ) : Exact) ≤ p.box.upper.get i) :
    p.FaceUncapped l f := by
  intro _
  obtain ⟨w, hw⟩ := hf.exists_truthful hM h hρ h0 l
  rw [show (p.faceDirection l f).iterate = w from hw.iterate_eq]
  refine BoxedModel.uncapped_of_contains (hf.faceModel h) hx hμ htrials fun i => ?_
  rw [Exact.get_coe, get_add, get_smul]
  by_cases hi : w.get i = 0
  · -- a coordinate that the direction does not move is where it was
    rw [hi, mul_zero, add_zero, ← Exact.get_coe, ← hx]
    exact hf.contains i
  · refine hroom i (hf.get_direction h hρ hw.iterate_eq hi) _ ?_
    rw [abs_mul, abs_of_pos (by positivity)]
    exact mul_le_mul_of_nonneg_left ((abs_get_le_norm w i).trans hw.within) (by positivity)

end Face

theorem limit_advanceFace (hlimit : (p.advanceFace l f).status = .iterationLimit) :
    l.maxIterations < ((p.advanceFace l f).iterations : Int) := by
  unfold Subproblem.advanceFace at hlimit ⊢
  split
  · rw [if_pos ‹_›, status_leaveFace] at hlimit
    split_ifs at hlimit with _ _ hused
    exact hused
  · rw [if_neg ‹_›] at hlimit
    cases hlimit

/-! ## All faces -/

section Run

variable {A : Vector ℝ n →ₗ[ℝ] Vector ℝ n} (hM : ∀ v, M.hessian v = A v) (hA : IsSymmetric A) (h : p.Extends M)
  (hs : p.box.Contains (p.base + (s : Vector Exact n))) {ρ : ℝ} (hρ : p.radius = ρ) (h0 : 0 ≤ ρ) {τ : ℝ}
  (hτ : l.tolerance = τ) (hτ0 : 0 ≤ τ) (hl : n ≤ l.maxIterations)

include hM hA h hs hρ h0 hτ hτ0 hl

theorem support_free_ssubset {k : ℕ} (hrun : (p.faceAt l s (k + 1)).status = .running) :
    (p.free (p.faceAt l s (k + 1))).support ⊂ (p.free (p.faceAt l s k)).support := by
  obtain ⟨t, ht⟩ := exists_reached_faceAt h hs hρ l k
  obtain ⟨d, hd, -, hfree⟩ := ht.exists_move hM h hρ h0 l
  rw [faceAt_succ] at hrun ⊢
  obtain ⟨i, hi, hi'⟩ := ht.exists_fixed hM h hρ hA h0 hτ hτ0 hl hrun
  have hsub : (p.free (p.advanceFace l (p.faceAt l s k))).support ⊆ (p.free (p.faceAt l s k)).support := fun j hj =>
    Mask.mem_support.2 (ht.free_of_free hd hfree (Mask.mem_support.1 hj))
  exact (Finset.ssubset_iff_of_subset hsub).2 ⟨i, Mask.mem_support.2 hi, by simp [hi']⟩

/-- Every face that was moved on from has taken one of the coordinates. -/
theorem card_support_free_add_le {k : ℕ} (hrun : ∀ j ≤ k, (p.faceAt l s j).status = .running) :
    (p.free (p.faceAt l s k)).support.card + k ≤ (p.free (p.firstFace s)).support.card := by
  induction k with
  | zero => exact le_rfl
  | succ k ih =>
    have hlt := Finset.card_lt_card (support_free_ssubset hM hA h hs hρ h0 hτ hτ0 hl (hrun (k + 1) le_rfl))
    have hle := ih fun j hj => hrun j (Nat.le_succ_of_le hj)
    omega

/-- When all faces are used up, no coordinate is left free. -/
theorem not_free_of_running (hrun : (p.faceRun l s).state.status = .running) (i : Fin n) :
    (p.free (p.faceRun l s).state).get i = false := by
  have hsteps : n ≤ (p.faceRun l s).steps := by
    by_contra hlt
    have hstop := test_advanceWhile_of_lt (not_le.1 hlt)
    rw [show (advanceWhile _ (p.advanceFace l) n (p.firstFace s)).state.status = .running from hrun] at hstop
    cases hstop
  have hcount := card_support_free_add_le hM hA h hs hρ h0 hτ hτ0 hl (k := (p.faceRun l s).steps) fun j hj => by
    rcases hj.eq_or_lt with rfl | hlt
    · rw [← state_faceRun, hrun]
    · exact status_faceAt_of_lt hlt
  rw [← state_faceRun] at hcount
  have hall := card_finset_fin_le (p.free (p.firstFace s)).support
  have hempty : (p.free (p.faceRun l s).state).support = ∅ := Finset.card_eq_zero.1 (by omega)
  by_contra hi
  have hmem := Mask.mem_support.2 (Bool.not_eq_false _ ▸ hi)
  rw [hempty] at hmem
  exact Finset.notMem_empty _ hmem

/-- If at most one coordinate is free at first, the first face is the only one to be searched. -/
theorem facesUncapped_of_card_le_one (hcard : (p.free (p.firstFace s)).support.card ≤ 1)
    (hfirst : p.FaceUncapped l (p.firstFace s)) : p.FacesUncapped l s := by
  intro k hk
  cases k with
  | zero => exact hfirst
  | succ k =>
    intro hfree
    obtain ⟨i, hi⟩ := (Mask.nonempty_iff _).1 hfree
    have hpos := Finset.card_pos.2 ⟨i, Mask.mem_support.2 hi⟩
    have hcount := card_support_free_add_le hM hA h hs hρ h0 hτ hτ0 hl (k := k + 1)
      fun j hj => status_faceAt_of_lt (hj.trans_lt hk)
    omega

/-- If one coordinate is free at first, and has room around it, the limit on trials stops no search. -/
theorem facesUncapped_of_room {x : Vector ℝ n} (hx : (p.firstFace s).point = x) {i : Fin n}
    (hfree : ∀ j, (p.free (p.firstFace s)).get j = true ↔ j = i) {μ : ℝ} (hμ : p.rule.decrease = μ)
    (htrials : 0 < p.rule.maxTrials) (hroom : ∀ t : ℝ, |t| ≤ (1 / 2) ^ p.rule.maxTrials.toNat * ρ →
      p.box.lower.get i ≤ ((x.get i + t : ℝ) : Exact) ∧ ((x.get i + t : ℝ) : Exact) ≤ p.box.upper.get i) :
    p.FacesUncapped l s := by
  have hsupport : (p.free (p.firstFace s)).support = {i} := by
    ext j
    rw [Mask.mem_support, Finset.mem_singleton, hfree]
  refine facesUncapped_of_card_le_one hM hA h hs hρ h0 hτ hτ0 hl (by rw [hsupport, Finset.card_singleton]) ?_
  refine (reached_firstFace h hs).faceUncapped_of_room hM h hρ h0 hx hμ htrials fun j hj t ht => ?_
  rw [(hfree j).1 hj]
  exact hroom t ht

end Run

/-- For a symmetric Hessian, definite or not, and as many conjugate gradient iterations as coordinates: a face moves
none of the coordinates that were not free, and one that the minimization moves on from fixes at least one more. So
the limit on faces is met only with nothing left free, and the limit on iterations is reported only where more were
made. -/
theorem faceRun_narrows {p : Subproblem Exact n} {A : Vector ℝ n →ₗ[ℝ] Vector ℝ n} (hA : IsSymmetric A)
    {g s : Vector ℝ n} {ρ τ : ℝ} (hg : p.model.gradient = g) (hH : Extends p.model.hessian A)
    (hx : p.box.Contains p.base) (hs : p.box.Contains (p.base + (s : Vector Exact n))) (hρ : p.radius = ρ) (h0 : 0 ≤ ρ)
    {l : FaceLimits Exact} (hτ : l.tolerance = τ) (hτ0 : 0 ≤ τ) (hl : n ≤ l.maxIterations) :
    (∀ k < (p.faceRun l s).steps,
      (∀ i, (p.free (p.faceAt l s k)).get i = false →
        (p.faceAt l s (k + 1)).point.get i = (p.faceAt l s k).point.get i ∧
          (p.faceAt l s (k + 1)).step.get i = (p.faceAt l s k).step.get i) ∧
      ((p.faceAt l s (k + 1)).status = .running →
        (p.free (p.faceAt l s (k + 1))).support ⊂ (p.free (p.faceAt l s k)).support)) ∧
    ((p.faceRun l s).state.status = .running → ∀ i, (p.free (p.faceRun l s).state).get i = false) ∧
    ((p.minimizeFaces l s).status = .iterationLimit →
      l.maxIterations < ((p.minimizeFaces l s).iterations : Int)) := by
  have h : p.Extends ⟨g, A⟩ := ⟨⟨hg, hH⟩, hx⟩
  have hended := not_free_of_running (fun _ => rfl) hA h hs hρ h0 hτ hτ0 hl
  refine ⟨fun k _ => ⟨fun i hi => ?_, ?_⟩, hended, fun hlimit => ?_⟩
  · obtain ⟨t, ht⟩ := exists_reached_faceAt h hs hρ l k
    obtain ⟨d, hd, -, hfree⟩ := ht.exists_move (A := A) (fun _ => rfl) h hρ h0 l
    rw [faceAt_succ]
    exact ⟨ht.get_point_eq hd (hfree i hi), ht.get_step_eq hd (hfree i hi)⟩
  · exact support_free_ssubset (fun _ => rfl) hA h hs hρ h0 hτ hτ0 hl
  · rw [status_minimizeFaces] at hlimit
    split_ifs at hlimit with hrun hfree
    · obtain ⟨i, hi⟩ := (Mask.nonempty_iff _).1 hfree
      rw [hended hrun i] at hi
      cases hi
    · obtain ⟨k, -, hlast⟩ := exists_last_face hrun
      show l.maxIterations < ((p.faceRun l s).state.iterations : Int)
      rw [hlast] at hlimit ⊢
      exact limit_advanceFace hlimit

/-- An indefinite Hessian over a square. -/
theorem faceRun_narrows_indefinite :
    let Q : SquareMatrix ℝ 2 := #v[#v[1, 2], #v[2, -1]]
    let p := overSquare Q
    let l : FaceLimits Exact := ⟨0.1, 2⟩
    let s : Vector ℝ 2 := #v[0, 0.5]
    (IsSymmetric Q.linear ∧ p.box.Contains p.base ∧ p.box.Contains (p.base + (s : Vector Exact 2))) ∧
    (∀ k < (p.faceRun l s).steps,
      (∀ i, (p.free (p.faceAt l s k)).get i = false →
        (p.faceAt l s (k + 1)).point.get i = (p.faceAt l s k).point.get i ∧
          (p.faceAt l s (k + 1)).step.get i = (p.faceAt l s k).step.get i) ∧
      ((p.faceAt l s (k + 1)).status = .running →
        (p.free (p.faceAt l s (k + 1))).support ⊂ (p.free (p.faceAt l s k)).support)) ∧
    ((p.faceRun l s).state.status = .running → ∀ i, (p.free (p.faceRun l s).state).get i = false) ∧
    ((p.minimizeFaces l s).status = .iterationLimit → 2 < ((p.minimizeFaces l s).iterations : Int)) := by
  intro Q p l s
  have hA : IsSymmetric Q.linear := SquareMatrix.isSymmetric_linear
    (Fin.forall_fin_two.2 ⟨Fin.forall_fin_two.2 ⟨rfl, rfl⟩, Fin.forall_fin_two.2 ⟨rfl, rfl⟩⟩)
  obtain ⟨hx, hs⟩ := contains_overSquare Q
  have hτ : l.tolerance = (0.1 : ℝ) := rfl
  exact ⟨⟨hA, hx, hs⟩, faceRun_narrows hA rfl (extends_matrix Q) hx hs rfl zero_le_one hτ (by norm_num) le_rfl⟩

end Subproblem

end BoxNewton
