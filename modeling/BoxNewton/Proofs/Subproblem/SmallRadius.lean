/-
Steps in a trust region that is small against the room around the base point (`Box.Margin`) and against
the curvature. The Cauchy step is then a ray along the part of the gradient that counts, however it was
found, and on the first face conjugate gradients end on the boundary after one iteration, close to the
same direction. So the refined step falls at a rate that does not depend on the radius (`Steep`).
-/
import BoxNewton.Proofs.Subproblem.Cauchy
import BoxNewton.Proofs.Subproblem.Faces

namespace BoxNewton

variable {n : ℕ}

namespace Subproblem

variable {p : Subproblem Exact n} {l : FaceLimits Exact} {M : Model ℝ n} {f : FacePoint Exact n}
  {s : Vector ℝ n} {ρ : ℝ}

/-! ## Faces left at the boundary -/

/-- Steepest descent on the face as far as the radius. -/
noncomputable def faceDescent (M : Model ℝ n) (m : Mask n) (s : Vector ℝ n) (ρ : ℝ) : Vector ℝ n :=
  (ρ / norm (M.face m s).gradient) • -(M.face m s).gradient

/-- What the part `ℓ` of that way moves the free coordinates of the point `y` by. -/
noncomputable def faceMove (b : Box Exact n) (M : Model ℝ n) (y : Vector Exact n) (s : Vector ℝ n) (ρ ℓ : ℝ) :
    Vector ℝ n :=
  (b.free y).restrict (b.shift y (faceDescent M (b.free y) s ρ) ℓ)

/-- The conjugate gradients on a face leave the trust region in their first iteration. -/
structure LeavesAtOnce (M : Model ℝ n) (m : Mask n) (s : Vector ℝ n) (ρ : ℝ) : Prop where
  radius_pos : 0 < ρ
  gradient_ne : (M.face m s).gradient ≠ 0
  leaves : (faceProblem M m s ρ).Leaves (faceProblem M m s ρ).start

theorem LeavesAtOnce.norm_faceDescent {m : Mask n} (h : LeavesAtOnce M m s ρ) : norm (faceDescent M m s ρ) = ρ := by
  have hpos := norm_pos_of_ne_zero h.gradient_ne
  rw [faceDescent, norm_smul, norm_neg, abs_of_pos (div_pos h.radius_pos hpos), div_mul_cancel₀ _ hpos.ne']

theorem Reached.direction_of_leaves (h : p.Extends M) (hf : Reached p M f s) (hρ : p.radius = ρ)
    (hl : LeavesAtOnce M (p.free f) s ρ) (l : FaceLimits Exact) :
    l.maxIterations ≤ 0 ∧ (p.faceDirection l f).iterate = (0 : Vector ℝ n) ∨
      (p.faceDirection l f).iterate = (faceDescent M (p.free f) s ρ : Vector Exact n) ∧
        ((p.faceDirection l f).status = .negativeCurvature ∨ (p.faceDirection l f).status = .boundary) := by
  have hne : (Subproblem.faceProblem M (p.free f) s ρ).descent ≠ 0 := neg_ne_zero.2 hl.gradient_ne
  have hnorm : norm (Subproblem.faceProblem M (p.free f) s ρ).descent = norm (M.face (p.free f) s).gradient :=
    norm_neg _
  have hsolve := (hf.faceProblem (l := l) h hρ).solve_of_leaves hne hl.radius_pos hl.leaves l.maxIterations
  rw [hnorm] at hsolve
  exact hsolve

/-- Leaving a face moves the free coordinates by a part of the way along its direction. -/
theorem Reached.exists_shift (h : p.Extends M) (hf : Reached p M f s) {w : Vector ℝ n}
    (hw : (p.faceDirection l f).iterate = w) :
    ∃ ℓ : ℝ, 0 ≤ ℓ ∧ ℓ ≤ 1 ∧
      Reached p M (p.leaveFace l f) (s + (p.free f).restrict (p.box.shift f.point w ℓ)) := by
  obtain ⟨ℓ, hℓ⟩ := BoxedModel.exists_stepped (p.faceModel f) p.rule w
  exact ⟨ℓ, hℓ.pos.le, hℓ.le_one, hf.leaveFace_of_stepped h hw hℓ⟩

/-- Such a face is left along steepest descent and is the last, unless no iteration is allowed: then the
step stays what it was. -/
theorem Reached.advanceFace_of_leaves (h : p.Extends M) (hf : Reached p M f s) (hρ : p.radius = ρ)
    (hl : LeavesAtOnce M (p.free f) s ρ) (l : FaceLimits Exact) :
    Reached p M (p.advanceFace l f) s ∨ (p.advanceFace l f).status ≠ .running ∧
      ∃ ℓ : ℝ, 0 ≤ ℓ ∧ ℓ ≤ 1 ∧ Reached p M (p.advanceFace l f) (s + faceMove p.box M f.point s ρ ℓ) := by
  unfold Subproblem.advanceFace
  split
  · rcases hf.direction_of_leaves h hρ hl l with ⟨-, hw⟩ | ⟨hw, hstatus⟩
    · obtain ⟨ℓ, -, -, hleave⟩ := hf.exists_shift h hw
      rw [Box.shift_zero hf.contains, Mask.restrict_zero, add_zero] at hleave
      exact .inl hleave
    · obtain ⟨ℓ, h0, h1, hleave⟩ := hf.exists_shift h hw
      refine .inr ⟨?_, ℓ, h0, h1, hleave⟩
      simp only [Subproblem.leaveFace, if_pos hstatus]
      split <;> simp
  · exact .inl (hf.setStatus .converged)

/-- If the first face is left at once, the refinement keeps the step or moves on once. -/
theorem minimizeFaces_of_leaves (h : p.Extends M) (hs : p.box.Contains (p.base + (s : Vector Exact n)))
    (hρ : p.radius = ρ) (hl : LeavesAtOnce M (p.box.free (p.base + (s : Vector Exact n))) s ρ)
    (l : FaceLimits Exact) :
    (p.minimizeFaces l s).step = s ∨ ∃ ℓ : ℝ, 0 ≤ ℓ ∧ ℓ ≤ 1 ∧
      (p.minimizeFaces l s).step = (s + faceMove p.box M (p.base + (s : Vector Exact n)) s ρ ℓ : Vector ℝ n) := by
  -- the loop goes on only where the step was kept
  have hrun := advanceWhile_induction (P := fun f => Reached p M f s ∨ f.status ≠ .running ∧
      ∃ ℓ : ℝ, 0 ≤ ℓ ∧ ℓ ≤ 1 ∧ Reached p M f (s + faceMove p.box M (p.base + (s : Vector Exact n)) s ρ ℓ))
    (fun f hf (hrunning : (f.status == .running) = true) => (?_ : _ ∨ (p.advanceFace l f).status ≠ .running ∧ _)) n
    (.inl (reached_firstFace h hs))
  · rcases hrun with hf | ⟨-, ℓ, h0, h1, hf⟩
    · exact .inl hf.step_eq
    · exact .inr ⟨ℓ, h0, h1, hf.step_eq⟩
  · rcases hf with hf | ⟨hstop, -⟩
    · rw [← hf.point_eq] at hl ⊢
      exact hf.advanceFace_of_leaves h hρ hl l
    · exact absurd (by simpa using hrunning) hstop

/-! ## Steep steps -/

/-- The step has at most the length `r` and falls along `g` at least at the rate `c`. -/
structure Steep (g : Vector ℝ n) (c r : ℝ) (z : Vector ℝ n) : Prop where
  length : norm z ≤ r
  rate : c * norm z ≤ -dot g z

section Steep

variable {g z z' : Vector ℝ n} {c c' r r' : ℝ}

theorem Steep.mono (h : Steep g c r z) (hc : c' ≤ c) (hr : r ≤ r') : Steep g c' r' z where
  length := h.length.trans hr
  rate := (mul_le_mul_of_nonneg_right hc (norm_nonneg z)).trans h.rate

theorem Steep.slope_nonpos (h : Steep g c r z) (hc : 0 ≤ c) : dot g z ≤ 0 :=
  neg_nonneg.1 ((mul_nonneg hc (norm_nonneg z)).trans h.rate)

theorem Steep.add (h : Steep g c r z) (h' : Steep g c r' z') (hc : 0 ≤ c) : Steep g c (r + r') (z + z') where
  length := (norm_add_le z z').trans (add_le_add h.length h'.length)
  rate := by
    rw [dot_add_right, neg_add]
    calc c * norm (z + z') ≤ c * (norm z + norm z') := mul_le_mul_of_nonneg_left (norm_add_le z z') hc
      _ = c * norm z + c * norm z' := mul_add _ _ _
      _ ≤ -dot g z + -dot g z' := add_le_add h.rate h'.rate

end Steep

/-! ## Small radii -/

/-- Around the point `x` the radius `ρ` is at most half of the margin `κ`, and so is what the gradient of
the model changes by within the radius. -/
structure SmallRadius (b : Box Exact n) (x : Vector ℝ n) (M : Model ℝ n) (κ L ρ : ℝ) : Prop where
  contains : b.Contains x
  counts : b.effective x M.gradient ≠ 0
  margin : b.Margin x M.gradient κ
  pos : 0 < ρ
  room : 2 * ρ ≤ κ
  growth : ∀ v, norm (M.hessian v) ≤ L * norm v
  growth_nonneg : 0 ≤ L
  change : 2 * (L * ρ) ≤ κ

/-- A step `s` of the length `t` down the path of steepest descent keeps to such a radius. -/
structure SmallStep (b : Box Exact n) (x : Vector ℝ n) (M : Model ℝ n) (κ L ρ t : ℝ) (s : Vector ℝ n) : Prop
    extends SmallRadius b x M κ L ρ where
  length_pos : 0 < t
  step_eq : s = b.descend x M.gradient t
  within : norm s ≤ ρ

namespace SmallStep

variable {b : Box Exact n} {x : Vector ℝ n} {κ L t ℓ : ℝ} (h : SmallStep b x M κ L ρ t s)

include h

theorem le_norm : κ ≤ norm (b.effective x M.gradient) := h.margin.le_norm h.counts

theorem margin_pos : 0 < κ := by linarith [h.pos, h.room]

theorem contains_add : b.Contains (x + s : Vector ℝ n) := by
  rw [h.step_eq, Exact.coe_add_vector]
  exact Box.contains_add_shift h.contains _ _

theorem norm_lt : norm s < κ := by linarith [h.within, h.pos, h.room]

theorem step_eq_smul : s = -t • b.effective x M.gradient := by
  have hlt := h.norm_lt
  rw [h.step_eq] at hlt ⊢
  exact h.margin.descend_eq h.contains h.length_pos hlt

theorem slope_neg : dot M.gradient s < 0 := by
  rw [h.step_eq_smul, dot_smul_right, Box.dot_effective_self, neg_mul, neg_lt_zero]
  exact mul_pos h.length_pos (pow_pos (norm_pos_of_ne_zero h.counts) 2)

theorem steep : Steep M.gradient κ ρ s where
  length := h.within
  rate := by
    have hnonneg := norm_nonneg (b.effective x M.gradient)
    rw [h.step_eq_smul, norm_smul, dot_smul_right, Box.dot_effective_self, abs_neg, abs_of_pos h.length_pos]
    calc κ * (t * norm (b.effective x M.gradient))
        = t * (κ * norm (b.effective x M.gradient)) := by ring
      _ ≤ t * (norm (b.effective x M.gradient) * norm (b.effective x M.gradient)) :=
          mul_le_mul_of_nonneg_left (mul_le_mul_of_nonneg_right h.le_norm hnonneg) h.length_pos.le
      _ = -(-t * norm (b.effective x M.gradient) ^ 2) := by ring

/-! ### The first face -/

theorem restrict_gradient : (b.free (x + s : Vector ℝ n)).restrict M.gradient = b.effective x M.gradient := by
  have hlt := h.norm_lt
  rw [h.step_eq_smul] at hlt ⊢
  exact h.margin.restrict_free h.contains h.length_pos hlt

/-- On the first face the gradient is close to the part that counts at `x`. -/
theorem gradient_near :
    2 * norm ((M.face (b.free (x + s : Vector ℝ n)) s).gradient - b.effective x M.gradient) ≤ κ := by
  have hdiff : (M.face (b.free (x + s : Vector ℝ n)) s).gradient - b.effective x M.gradient =
      (b.free (x + s : Vector ℝ n)).restrict (M.hessian s) := by
    rw [← h.restrict_gradient, sub_eq_iff_eq_add', ← Mask.restrict_add]; rfl
  have hle : norm ((b.free (x + s : Vector ℝ n)).restrict (M.hessian s)) ≤ L * ρ :=
    (Mask.norm_restrict_le _ _).trans ((h.growth s).trans (mul_le_mul_of_nonneg_left h.within h.growth_nonneg))
  rw [hdiff]
  linarith [h.change]

theorem le_norm_gradient : κ ≤ 2 * norm (M.face (b.free (x + s : Vector ℝ n)) s).gradient :=
  h.le_norm.trans (norm_le_of_near (h.gradient_near.trans h.le_norm))

theorem gradient_ne : (M.face (b.free (x + s : Vector ℝ n)) s).gradient ≠ 0 := by
  intro h0
  have hle := h.le_norm_gradient
  rw [h0, norm_zero] at hle
  linarith [h.margin_pos]

theorem leavesAtOnce : LeavesAtOnce M (b.free (x + s : Vector ℝ n)) s ρ where
  radius_pos := h.pos
  gradient_ne := h.gradient_ne
  leaves := by
    set m := b.free (x + s : Vector ℝ n)
    set q := faceProblem M m s ρ
    have hcurv : dot q.descent (q.scaledHessian q.descent) ≤ L * norm q.descent ^ 2 := by
      show dot q.descent (m.restrict (M.hessian (m.restrict q.descent))) ≤ _
      rw [m.dot_restrict]
      calc dot (m.restrict q.descent) (M.hessian (m.restrict q.descent))
          ≤ norm (m.restrict q.descent) * norm (M.hessian (m.restrict q.descent)) := (abs_le.1 (abs_dot_le _ _)).2
        _ ≤ norm (m.restrict q.descent) * (L * norm (m.restrict q.descent)) :=
            mul_le_mul_of_nonneg_left (h.growth _) (norm_nonneg _)
        _ = L * norm (m.restrict q.descent) ^ 2 := by ring
        _ ≤ L * norm q.descent ^ 2 :=
            mul_le_mul_of_nonneg_left (pow_le_pow_left₀ (norm_nonneg _) (m.norm_restrict_le _) 2) h.growth_nonneg
    refine ConjugateGradient.Problem.leaves_start (neg_ne_zero.2 h.gradient_ne) h.pos hcurv ?_
    show L * ρ ≤ norm (-(M.face m s).gradient)
    rw [norm_neg]
    linarith [h.change, h.le_norm_gradient]

/-- Where the gradient counts, its sign on the face is the same. -/
theorem mul_gradient_nonneg {i : Fin n} (hi : (b.effective x M.gradient).get i ≠ 0) :
    0 ≤ (M.face (b.free (x + s : Vector ℝ n)) s).gradient.get i * (b.effective x M.gradient).get i := by
  have hentry := h.margin.entry i hi
  have hnear := abs_get_le_norm ((M.face (b.free (x + s : Vector ℝ n)) s).gradient - b.effective x M.gradient) i
  rw [get_sub] at hnear
  obtain ⟨hn1, hn2⟩ := abs_le.1 hnear
  have hgap := h.gradient_near
  have hκ := h.margin_pos
  rcases lt_or_gt_of_ne hi with he | he
  · rw [abs_of_neg he] at hentry
    exact mul_nonneg_of_nonpos_of_nonpos (by linarith) he.le
  · rw [abs_of_pos he] at hentry
    exact mul_nonneg (by linarith) he.le

/-- Where the gradient counts, the way along the face stays off the bounds. -/
theorem shift_faceDescent (h0 : 0 ≤ ℓ) (h1 : ℓ ≤ 1) {i : Fin n} (hi : (b.effective x M.gradient).get i ≠ 0) :
    (b.shift (x + s : Vector ℝ n) (faceDescent M (b.free (x + s : Vector ℝ n)) s ρ) ℓ).get i =
      ℓ * (faceDescent M (b.free (x + s : Vector ℝ n)) s ρ).get i := by
  set w := faceDescent M (b.free (x + s : Vector ℝ n)) s ρ with hw
  have hlen : |s.get i + ℓ * w.get i| ≤ κ := by
    have hs : |s.get i| ≤ ρ := (abs_get_le_norm s i).trans h.within
    have hl : |ℓ * w.get i| ≤ ρ := by
      rw [abs_mul, abs_of_nonneg h0]
      exact (mul_le_of_le_one_left (abs_nonneg _) h1).trans ((abs_get_le_norm w i).trans h.leavesAtOnce.norm_faceDescent.le)
    linarith [abs_add_le (s.get i) (ℓ * w.get i), h.room]
  -- both parts of the way lead downhill
  have hdown : (s.get i + ℓ * w.get i) * (b.effective x M.gradient).get i ≤ 0 := by
    have hs : s.get i = -t * (b.effective x M.gradient).get i := by
      rw [← get_smul, ← h.step_eq_smul]
    have hray := mul_nonneg h.length_pos.le (sq_nonneg ((b.effective x M.gradient).get i))
    have hfactor : 0 ≤ ρ / norm (M.face (b.free (x + s : Vector ℝ n)) s).gradient :=
      div_nonneg h.pos.le (norm_nonneg _)
    have hface := mul_nonneg (mul_nonneg h0 hfactor) (h.mul_gradient_nonneg hi)
    rw [hw, faceDescent, get_smul, get_neg, hs]
    linarith
  obtain ⟨hl, hu⟩ := h.margin.within h.contains hi hlen hdown
  have hcoe : ((x.get i + (s.get i + ℓ * w.get i) : ℝ) : Exact) =
      ((x + s : Vector ℝ n) : Vector Exact n).get i + (ℓ * w.get i : ℝ) := by
    rw [Exact.get_coe, ← Exact.coe_add, get_add, add_assoc]
  exact Box.shift_of_inside h.contains_add (hcoe ▸ hl) (hcoe ▸ hu)

/-- The way along the face is steep as well. -/
theorem steep_face (h0 : 0 ≤ ℓ) (h1 : ℓ ≤ 1) :
    Steep M.gradient (κ / 3) ρ (faceMove b M (x + s : Vector ℝ n) s ρ ℓ) := by
  unfold faceMove
  set m := b.free (x + s : Vector ℝ n)
  set e := b.effective x M.gradient
  set w := faceDescent M m s ρ with hw
  set d := b.shift (x + s : Vector ℝ n) w ℓ
  have hnorm : norm (m.restrict d) ≤ ℓ * ρ := by
    rw [← h.leavesAtOnce.norm_faceDescent, ← abs_of_nonneg h0]
    exact (m.norm_restrict_le d).trans (Box.norm_shift_le h.contains_add w ℓ)
  have hslope : -dot M.gradient (m.restrict d) =
      ℓ * ρ * (dot e (M.face m s).gradient / norm (M.face m s).gradient) := by
    have hd : dot e d = ℓ * dot e w := by
      rw [← dot_smul_right, dot_eq_sum, dot_eq_sum]
      refine Finset.sum_congr rfl fun i _ => ?_
      by_cases hi : e.get i = 0
      · rw [hi, zero_mul, zero_mul]
      · rw [h.shift_faceDescent h0 h1 hi, get_smul]
    rw [m.dot_restrict, h.restrict_gradient, hd, hw, faceDescent, dot_smul_right, dot_neg_right]
    ring
  have hrate : κ / 3 ≤ dot e (M.face m s).gradient / norm (M.face m s).gradient := by
    have hpos := norm_pos_of_ne_zero h.gradient_ne
    rw [le_div_iff₀ hpos]
    have hnear := mul_norm_le_dot_of_near (h.gradient_near.trans h.le_norm)
    have hle := mul_le_mul_of_nonneg_right h.le_norm hpos.le
    linarith
  refine ⟨hnorm.trans (mul_le_of_le_one_left h.pos.le h1), ?_⟩
  have hκ := h.margin_pos
  calc κ / 3 * norm (m.restrict d) ≤ κ / 3 * (ℓ * ρ) := mul_le_mul_of_nonneg_left hnorm (by linarith)
    _ = ℓ * ρ * (κ / 3) := mul_comm _ _
    _ ≤ ℓ * ρ * (dot e (M.face m s).gradient / norm (M.face m s).gradient) :=
        mul_le_mul_of_nonneg_left hrate (mul_nonneg h0 h.pos.le)
    _ = -dot M.gradient (m.restrict d) := hslope.symm

end SmallStep

/-! ## The refined step -/

/-- Within a small radius the refined step is steep, unless the limit on trials stopped the Cauchy search. -/
theorem CauchyFound.steep_minimizeFaces {x d : Vector ℝ n} {κ L t : ℝ} {t₀ : Exact} (h : p.Extends M)
    (hx : p.base = x) (hρ : p.radius = ρ) (hsmall : SmallRadius p.box x M κ L ρ) (hc : CauchyFound p M t₀ t)
    (hu : p.CauchyUncapped t₀) (hd : (p.minimizeFaces l (p.cauchyStep t₀).step).step = d) :
    Steep M.gradient (κ / 3) (2 * ρ) d ∧ dot M.gradient d < 0 := by
  have hs : SmallStep p.box x M κ L ρ t (p.box.descend x M.gradient t) :=
    ⟨hsmall, hc.pos, rfl, hx ▸ hc.within ρ hρ hu⟩
  have hκ := hs.margin_pos
  have hfirst := hs.steep.mono (show κ / 3 ≤ κ by linarith) le_rfl
  rw [hc.step_eq, hx] at hd
  have hpoint : p.base + (p.box.descend x M.gradient t : Vector Exact n) =
      ((x + p.box.descend x M.gradient t : Vector ℝ n) : Vector Exact n) := by rw [hx, Exact.coe_add_vector]
  rcases minimizeFaces_of_leaves h (hpoint ▸ hs.contains_add) hρ (hpoint ▸ hs.leavesAtOnce) l with
    heq | ⟨ℓ, h0, h1, heq⟩
  · rw [hd] at heq
    rw [Exact.vector_injective heq]
    exact ⟨hfirst.mono le_rfl (by linarith [hs.pos]), hs.slope_neg⟩
  · rw [hd, hpoint] at heq
    rw [Exact.vector_injective heq]
    have hface := hs.steep_face h0 h1
    refine ⟨(hfirst.add hface (by linarith)).mono le_rfl (by linarith), ?_⟩
    rw [dot_add_right]
    exact add_neg_of_neg_of_nonpos hs.slope_neg (hface.slope_nonpos (by linarith))

end Subproblem

end BoxNewton
