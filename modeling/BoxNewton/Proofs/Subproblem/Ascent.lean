/-
The model from face to face, for symmetric Hessians. The models of the faces fit together
(`Model.value_add_restrict`), so a face raises the model exactly where its projected search accepts a step
that goes uphill (`AcceptsAscent`): the test compares the model with a fraction of the slope, and a clipped
direction may have a positive one. Without negative curvature no such step passes the test.
-/
import BoxNewton.Proofs.Subproblem.FreeCoordinates
import BoxNewton.Proofs.Subproblem.SmallRadius

namespace BoxNewton.Subproblem

variable {n : ℕ} {p : Subproblem Exact n} {l : FaceLimits Exact} {M : Model ℝ n} {f : FacePoint Exact n}
  {s : Vector ℝ n}

/-! ## One face -/

/-- The search of the face accepts a step along which both the model of the face and its slope are
positive. -/
def AcceptsAscent (p : Subproblem Exact n) (l : FaceLimits Exact) (f : FacePoint Exact n) : Prop :=
  let search := p.faceSearch f (p.faceDirection l f).iterate
  (p.free f).nonempty = true ∧ (p.faceModel f).Accepted p.rule (p.faceDirection l f).iterate ∧
    0 < (p.faceModel f).model.slope search.step ∧ 0 < (p.faceModel f).model.value search.step

section Descent

variable {A : Vector ℝ n →ₗ[ℝ] Vector ℝ n} {ρ μ : ℝ} (hA : IsSymmetric A) (hM : ∀ v, M.hessian v = A v)
  (h : p.Extends M) (hf : Reached p M f s) (hρ : p.radius = ρ) (hμ : p.rule.decrease = μ)

include hA hM h hf hρ hμ in
/-- A face raises the model exactly where its search accepts an ascent. -/
theorem Reached.value_advanceFace (hpos : 0 < μ) (hu : p.FaceUncapped l f) :
    ∃ s', Reached p M (p.advanceFace l f) s' ∧ (M.value s' ≤ M.value s ↔ ¬ p.AcceptsAscent l f) := by
  by_cases hfree : (p.free f).nonempty = true
  · obtain ⟨w, hw, hdesc⟩ := hf.exists_descending hA hM h hρ l
    obtain ⟨d, ℓ, hd⟩ := hf.exists_searched (l := l) h hw
    have hmodel := (hf.faceModel h).model
    refine ⟨_, (if_pos hfree : p.advanceFace l f = _) ▸ hd.leaveFace, ?_⟩
    -- what the model gains is what the model of the face is at the step
    rw [Model.value_add_restrict hA hM, add_le_iff_nonpos_right]
    simp only [AcceptsAscent, hd.step_eq, hmodel.slope, hmodel.value, Exact.coe_pos]
    refine ⟨fun hle ha => absurd ha.2.2.2 (not_lt.2 hle), fun hno => not_lt.1 fun hlt => ?_⟩
    rcases hd.straight (hu hfree) with ha | hs
    · have hle := hd.accepted μ hμ ha
      exact hno ⟨hfree, ha, by nlinarith, hlt⟩
    · -- before the first breakpoint the step is on the ray along which the model descends
      have hval : (M.face (p.free f) s).value d = (M.face (p.free f) s).value (ℓ • w) := by
        rw [Model.value_face, Model.value_face, hs]
      rw [hval, Model.value_face_smul hM] at hlt
      exact absurd (hdesc.value_nonpos hd.nonneg hd.le_one) (not_le.2 hlt)
  · refine ⟨s, ?_, iff_of_true le_rfl fun ha => hfree ha.1⟩
    rw [Subproblem.advanceFace, if_neg hfree]
    exact hf.setStatus .converged

include hM h hf hρ hμ in
/-- Without negative curvature the model lies above its slope, so no ascent passes the test. -/
theorem Reached.not_acceptsAscent (hpos : IsPositive A) (hlt : μ < 1) : ¬ p.AcceptsAscent l f := by
  rintro ⟨-, ha, hslope, -⟩
  obtain ⟨w, hw⟩ := hf.exists_direction h hρ l
  obtain ⟨d, ℓ, hd⟩ := hf.exists_searched (l := l) h hw
  rw [hd.step_eq, (hf.faceModel h).model.slope, Exact.coe_pos] at hslope
  have hle := hd.accepted μ hμ ha
  have hcurv : 0 ≤ dot d ((M.face (p.free f) s).hessian d) := by
    show 0 ≤ dot d ((p.free f).restrict (M.hessian ((p.free f).restrict d)))
    rw [hM, Mask.dot_restrict]
    exact hpos _
  have hval : (M.face (p.free f) s).value d =
      dot d ((M.face (p.free f) s).hessian d) / 2 + (M.face (p.free f) s).slope d := Model.value_eq _ _
  nlinarith

end Descent

/-! ## All faces -/

variable (h : p.Extends M) (hs : p.box.Contains (p.base + (s : Vector Exact n))) {ρ μ : ℝ} (hρ : p.radius = ρ)

/-- The model at the step to a face. -/
noncomputable def valueAt (p : Subproblem Exact n) (l : FaceLimits Exact) (s : Vector Exact n) (k : ℕ) : Exact :=
  p.model.value (p.faceAt l s k).step

include h hs hρ in
theorem valueAt_ne_nan (l : FaceLimits Exact) (k : ℕ) : p.valueAt l s k ≠ .nan := by
  obtain ⟨t, ht⟩ := exists_reached_faceAt h hs hρ l k
  rw [valueAt, ht.step_eq, h.model.value]
  exact Exact.coe_ne_nan _

include h hs hρ in
theorem valueAt_le_of_forall {k : ℕ} (hle : ∀ i < k, p.valueAt l s (i + 1) ≤ p.valueAt l s i) :
    p.valueAt l s k ≤ p.valueAt l s 0 := by
  induction k with
  | zero => exact Exact.le_refl_of_ne (valueAt_ne_nan h hs hρ l 0)
  | succ k ih => exact Exact.le_trans (hle k k.lt_succ_self) (ih fun i hi => hle i (Nat.lt_succ_of_lt hi))

theorem value_minimizeFaces (l : FaceLimits Exact) (s : Vector Exact n) :
    p.model.value (p.minimizeFaces l s).step = p.valueAt l s (p.faceRun l s).steps := by
  rw [valueAt, ← state_faceRun]; rfl

variable {A : Vector ℝ n →ₗ[ℝ] Vector ℝ n} (hA : IsSymmetric A) (hM : ∀ v, M.hessian v = A v)
  (hμ : p.rule.decrease = μ)

include hA hM h hs hρ hμ in
theorem valueAt_succ_le_iff (hpos : 0 < μ) {k : ℕ} (hu : p.FaceUncapped l (p.faceAt l s k)) :
    p.valueAt l s (k + 1) ≤ p.valueAt l s k ↔ ¬ p.AcceptsAscent l (p.faceAt l s k) := by
  obtain ⟨t, ht⟩ := exists_reached_faceAt h hs hρ l k
  obtain ⟨t', ht', hle⟩ := ht.value_advanceFace hA hM h hρ hμ hpos hu
  rw [← hle, valueAt, valueAt, faceAt_succ, ht.step_eq, ht'.step_eq, h.model.value, h.model.value, Exact.coe_le]

include hA hM h hs hρ hμ in
theorem value_minimizeFaces_le (hcurv : IsPositive A) (hpos : 0 < μ) (hlt : μ < 1) (hu : p.FacesUncapped l s) :
    p.model.value (p.minimizeFaces l s).step ≤ p.model.value s := by
  rw [value_minimizeFaces]
  refine valueAt_le_of_forall h hs hρ fun k hk => (valueAt_succ_le_iff h hs hρ hA hM hμ hpos (hu k hk)).2 ?_
  obtain ⟨t, ht⟩ := exists_reached_faceAt h hs hρ l k
  exact ht.not_acceptsAscent hM h hρ hμ hcurv hlt

/-- From one face to the next the model increases exactly where the search of the face accepts an
ascent. A refinement without such a face predicts no more than the step it starts from. The Hessian
may be indefinite. -/
theorem value_faces_le_iff {p : Subproblem Exact n} {A : Vector ℝ n →ₗ[ℝ] Vector ℝ n} (hA : IsSymmetric A)
    {g s : Vector ℝ n} {ρ μ : ℝ} (hg : p.model.gradient = g) (hH : Extends p.model.hessian A)
    (hx : p.box.Contains p.base) (hs : p.box.Contains (p.base + (s : Vector Exact n))) (hρ : p.radius = ρ)
    (hμ : p.rule.decrease = μ) (hpos : 0 < μ) (l : FaceLimits Exact) (hu : p.FacesUncapped l s) :
    (∀ k < (p.faceRun l s).steps,
      (p.model.value (p.faceAt l s (k + 1)).step ≤ p.model.value (p.faceAt l s k).step ↔
        ¬ p.AcceptsAscent l (p.faceAt l s k))) ∧
    ((∀ k < (p.faceRun l s).steps, ¬ p.AcceptsAscent l (p.faceAt l s k)) →
      p.model.value (p.minimizeFaces l s).step ≤ p.model.value s) := by
  have h : p.Extends ⟨g, A⟩ := ⟨⟨hg, hH⟩, hx⟩
  have hstep : ∀ k < (p.faceRun l s).steps, _ :=
    fun k hk => valueAt_succ_le_iff h hs hρ hA (fun _ => rfl) hμ hpos (hu k hk)
  refine ⟨hstep, fun hno => ?_⟩
  rw [value_minimizeFaces]
  exact valueAt_le_of_forall h hs hρ fun k hk => (hstep k hk).2 (hno k hk)

/-- A Hessian with negative curvature along the second axis. -/
noncomputable def edgeHessian : SquareMatrix ℝ 2 := #v[#v[1, 2], #v[2, -1]]

/-- The square, with a trust region that reaches beyond it. -/
noncomputable def edgeOfSquare : Subproblem Exact 2 := { overSquare edgeHessian with radius := (3 : ℝ) }

section Edge

theorem extends_edgeOfSquare : edgeOfSquare.Extends ⟨#v[-1, 1], edgeHessian.linear⟩ :=
  ⟨⟨rfl, extends_matrix _⟩, (contains_overSquare _).1⟩

theorem isSymmetric_edgeHessian : IsSymmetric edgeHessian.linear := SquareMatrix.isSymmetric_linear
  (Fin.forall_fin_two.2 ⟨Fin.forall_fin_two.2 ⟨rfl, rfl⟩, Fin.forall_fin_two.2 ⟨rfl, rfl⟩⟩)

theorem bounds_edgeOfSquare (i : Fin 2) :
    edgeOfSquare.box.lower.get i = (-1 : ℝ) ∧ edgeOfSquare.box.upper.get i = (1 : ℝ) :=
  ⟨(Exact.get_coe _ i).trans (by fin_cases i <;> rfl), (Exact.get_coe _ i).trans (by fin_cases i <;> rfl)⟩

theorem base_add_edge : edgeOfSquare.base + ((#v[1, 0] : Vector ℝ 2) : Vector Exact 2) = (#v[1, 0] : Vector ℝ 2) := by
  show ((0 : Vector ℝ 2) : Vector Exact 2) + _ = _
  rw [← Exact.coe_add_vector, zero_add]

theorem contains_edge : edgeOfSquare.box.Contains (edgeOfSquare.base + ((#v[1, 0] : Vector ℝ 2) : Vector Exact 2)) := by
  rw [base_add_edge]
  refine Box.contains_coe_iff.2 (Fin.forall_fin_two.2 ⟨⟨?_, ?_⟩, ?_, ?_⟩)
  · exact (by norm_num : (-1 : ℝ) ≤ 1)
  · exact le_refl (1 : ℝ)
  · exact (by norm_num : (-1 : ℝ) ≤ 0)
  · exact zero_le_one' ℝ

theorem point_edge : (edgeOfSquare.firstFace (#v[1, 0] : Vector ℝ 2)).point = (#v[1, 0] : Vector ℝ 2) :=
  (Box.project_of_contains contains_edge).trans base_add_edge

/-- The first coordinate stands at its bound. -/
theorem free_edge (i : Fin 2) :
    (edgeOfSquare.free (edgeOfSquare.firstFace (#v[1, 0] : Vector ℝ 2))).get i = true ↔ i = 1 := by
  rw [Subproblem.free, point_edge, Box.get_free, decide_eq_true_eq, (bounds_edgeOfSquare i).1,
    (bounds_edgeOfSquare i).2, Exact.get_coe, Exact.coe_lt, Exact.coe_lt]
  revert i
  refine Fin.forall_fin_two.2 ⟨iff_of_false (fun hlt => ?_) Fin.zero_ne_one, iff_of_true ⟨?_, ?_⟩ rfl⟩
  · exact lt_irrefl (1 : ℝ) hlt.2
  · exact (by norm_num : (-1 : ℝ) < 0)
  · exact zero_lt_one' ℝ

theorem gradient_edge :
    (Model.face ⟨#v[-1, 1], edgeHessian.linear⟩ (edgeOfSquare.free (edgeOfSquare.firstFace (#v[1, 0] : Vector ℝ 2)))
      #v[1, 0]).gradient = #v[0, 3] := by
  refine ext_get (Fin.forall_fin_two.2 ⟨?_, ?_⟩)
  · refine (Mask.get_restrict _ _ _).trans (if_neg fun h => ?_)
    exact absurd ((free_edge 0).1 h) Fin.zero_ne_one
  · refine ((Mask.get_restrict _ _ _).trans (if_pos ((free_edge 1).2 rfl))).trans ?_
    rw [get_add, SquareMatrix.get_linear_two]
    show (1 + (2 * 1 + -1 * 0) : ℝ) = 3
    norm_num

theorem leaves_edge : LeavesAtOnce ⟨#v[-1, 1], edgeHessian.linear⟩
    (edgeOfSquare.free (edgeOfSquare.firstFace (#v[1, 0] : Vector ℝ 2))) #v[1, 0] 3 where
  radius_pos := by norm_num
  gradient_ne h0 := by
    rw [gradient_edge] at h0
    exact absurd (congrArg (·.get 1) h0) (by norm_num : (3 : ℝ) ≠ 0)
  leaves := by
    -- the curvature along the edge is negative
    set m := edgeOfSquare.free (edgeOfSquare.firstFace (#v[1, 0] : Vector ℝ 2))
    set d := (faceProblem ⟨#v[-1, 1], edgeHessian.linear⟩ m #v[1, 0] 3).descent
    have hfixed : (m.restrict d).get 0 = 0 :=
      (Mask.get_restrict _ _ _).trans (if_neg fun h => absurd ((free_edge 0).1 h) Fin.zero_ne_one)
    refine .inl ?_
    show dot d (m.restrict (edgeHessian.linear (m.restrict d))) ≤ 0
    rw [m.dot_restrict, SquareMatrix.dot_linear_two, hfixed]
    show (1 : ℝ) * 0 ^ 2 + (2 + 2) * (0 * (m.restrict d).get 1) + -1 * (m.restrict d).get 1 ^ 2 ≤ 0
    linarith [sq_nonneg ((m.restrict d).get 1)]

/-- So the direction of the first face ends on the boundary of the trust region, out of the square. -/
theorem direction_edge {l : FaceLimits Exact} (hl : 0 < l.maxIterations) :
    (edgeOfSquare.faceDirection l (edgeOfSquare.firstFace (#v[1, 0] : Vector ℝ 2))).iterate =
      (#v[0, -3] : Vector ℝ 2) := by
  have hnorm : norm (#v[0, 3] : Vector ℝ 2) = 3 := by
    rw [norm, dot_eq_sum, Fin.sum_univ_two, sqrt_real]
    show Real.sqrt (0 * 0 + 3 * 3) = 3
    rw [zero_mul, zero_add, Real.sqrt_mul_self (by norm_num)]
  rcases (reached_firstFace extends_edgeOfSquare contains_edge).direction_of_leaves extends_edgeOfSquare rfl
    leaves_edge l with ⟨hno, -⟩ | ⟨hw, -⟩
  · exact absurd hl (not_lt.2 hno)
  · rw [hw, faceDescent, gradient_edge, hnorm, div_self (by norm_num), one_smul]
    exact congrArg _ (ext_get (Fin.forall_fin_two.2 ⟨(get_neg _ _).trans neg_zero, get_neg _ _⟩))

end Edge

/-- From the middle of an edge of the square, with a first direction that leads out of it. -/
theorem value_faces_le_iff_edge :
    let p := edgeOfSquare
    let l : FaceLimits Exact := ⟨0.1, 2⟩
    let s : Vector ℝ 2 := #v[1, 0]
    (p.box.Contains (p.base + (s : Vector Exact 2)) ∧ (p.free (p.firstFace s)).support = {1} ∧
      ¬ p.box.Contains ((p.firstFace s).point + (p.faceDirection l (p.firstFace s)).iterate) ∧
      p.FacesUncapped l s) ∧
    (∀ k < (p.faceRun l s).steps,
      (p.model.value (p.faceAt l s (k + 1)).step ≤ p.model.value (p.faceAt l s k).step ↔
        ¬ p.AcceptsAscent l (p.faceAt l s k))) ∧
    ((∀ k < (p.faceRun l s).steps, ¬ p.AcceptsAscent l (p.faceAt l s k)) →
      p.model.value (p.minimizeFaces l s).step ≤ p.model.value s) := by
  intro p l s
  have hsupport : (p.free (p.firstFace s)).support = {1} := by
    ext i
    rw [Mask.mem_support, Finset.mem_singleton, free_edge]
  have hout : ¬ p.box.Contains ((p.firstFace s).point + (p.faceDirection l (p.firstFace s)).iterate) := fun hin => by
    have hlow := (hin 1).1
    rw [direction_edge (by decide), point_edge, ← Exact.coe_add_vector, Exact.get_coe, (bounds_edgeOfSquare 1).1,
      Exact.coe_le, get_add] at hlow
    exact hlow.not_gt (show (0 + -3 : ℝ) < -1 by norm_num)
  have hu : p.FacesUncapped l s := by
    refine facesUncapped_of_room (fun _ => rfl) isSymmetric_edgeHessian extends_edgeOfSquare contains_edge rfl
      (show (0 : ℝ) ≤ 3 by norm_num) (show l.tolerance = (0.1 : ℝ) from rfl) (by norm_num) le_rfl point_edge free_edge
      (μ := 0.01) rfl (by decide) fun t ht => ?_
    obtain ⟨hl, hu⟩ := abs_le.1 (ht.trans (show (1 / 2 : ℝ) ^ 50 * 3 ≤ 1 by norm_num))
    rw [(bounds_edgeOfSquare 1).1, (bounds_edgeOfSquare 1).2, show s.get 1 + t = t from zero_add t, Exact.coe_le,
      Exact.coe_le]
    exact ⟨hl, hu⟩
  exact ⟨⟨contains_edge, hsupport, hout, hu⟩, value_faces_le_iff isSymmetric_edgeHessian rfl
    extends_edgeOfSquare.model.hessian extends_edgeOfSquare.base contains_edge rfl
    (show p.rule.decrease = (0.01 : ℝ) from rfl) (by norm_num) l hu⟩

end BoxNewton.Subproblem
