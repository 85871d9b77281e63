/-
Steps in small trust regions are accepted. Close to a point that is not stationary the step falls at a
rate that does not depend on the radius (`Subproblem.Steep`), while the objective is off its tangent only
by the square of the radius. So a minimizer that keeps rejecting steps, and with them shrinks the radius,
does so only until the radius is small enough for the point, whatever else the state holds.
-/
import BoxNewton.Proofs.Minimizer.Descent
import BoxNewton.Proofs.Subproblem.SmallRadius

namespace BoxNewton.Minimizer

variable {n : ℕ} {β : Type} {m : Minimizer Exact n β} {s : State Exact n β} {x g : Vector ℝ n} {C L : ℝ}

/-- Within the box the objective is real and off its tangent at `x`, which has the gradient `g`, by at most
`C` times the squared distance. The products at `x` are those with a symmetric linear map whose curvatures
lie between zero and `L`. -/
structure Expands (m : Minimizer Exact n β) (x g : Vector ℝ n) (C L : ℝ) : Prop where
  value : ∃ f : Vector ℝ n → ℝ, ∀ y : Vector ℝ n, m.box.Contains y →
    m.problem.value y = f y ∧ |f y - f x - dot g (y - x)| ≤ C * norm (y - x) ^ 2
  product : ∃ A : Vector ℝ n →ₗ[ℝ] Vector ℝ n,
    IsSymmetric A ∧ IsPositive A ∧ IsCurvatureBound A L ∧ Extends (m.problem.product x) A

/-- The state holds the point `x`, its value and the gradient `g`, and the next search for a Cauchy step starts
at a positive length. -/
structure Holds (m : Minimizer Exact n β) (s : State Exact n β) (x g : Vector ℝ n) : Prop where
  point : s.point = x
  value : s.value = m.problem.value x
  gradient : s.gradient = g
  cauchyLength : ∃ t : ℝ, s.cauchyLength = t ∧ 0 < t

theorem Holds.project_eq (h : m.Holds s x g) (hx : m.box.Contains x) : m.box.project s.point = x := by
  rw [h.point, Box.project_of_contains hx]

theorem Holds.sound (h : m.Holds s x g) (hx : m.box.Contains x) {ρ : ℝ} (hρ : s.radius = ρ) (h0 : 0 < ρ) :
    m.Sound s where
  contains := by rwa [h.project_eq hx]
  gradient := ⟨g, h.gradient⟩
  radius := ⟨ρ, hρ, h0.le⟩
  cauchyLength := h.cauchyLength

theorem Holds.extends (h : m.Holds s x g) (hx : m.box.Contains x) {A : Operator ℝ n}
    (hA : Extends (m.problem.product x) A) : (m.subproblem s).Extends ⟨g, A⟩ := by
  rw [← h.project_eq hx] at hA hx
  exact ⟨⟨h.gradient, hA⟩, hx⟩

/-- A steep step that is short against its rate realizes enough of what was predicted. -/
theorem accepted_of_steep {A : Vector ℝ n →ₗ[ℝ] Vector ℝ n} (hpos : IsPositive A) {f f' κ ρ : ℝ} {d : Vector ℝ n}
    (hvalue : s.value = f) (htrial : m.trialValue s = f') (htangent : |f' - f - dot g d| ≤ C * norm d ^ 2)
    (hpred : (m.advance s).predictedReduction = (-Model.value ⟨g, A⟩ d : ℝ))
    (hsteep : Subproblem.Steep g (κ / 3) (2 * ρ) d) (hslope : dot g d < 0) (hC : 12 * (|C| * ρ) ≤ κ) :
    (m.advance s).accepted = true := by
  have hmodel : -Model.value ⟨g, A⟩ d ≤ -dot g d := by
    rw [Model.value_eq]
    linarith [hpos d]
  -- the square of the length is small against the slope
  have hsquare : C * norm d ^ 2 ≤ -dot g d / 2 := by
    have hnonneg := norm_nonneg d
    calc C * norm d ^ 2 ≤ |C| * norm d ^ 2 := mul_le_mul_of_nonneg_right (le_abs_self C) (sq_nonneg _)
      _ = |C| * norm d * norm d := by ring
      _ ≤ |C| * (2 * ρ) * norm d :=
          mul_le_mul_of_nonneg_right (mul_le_mul_of_nonneg_left hsteep.length (abs_nonneg C)) hnonneg
      _ = 12 * (|C| * ρ) * norm d / 6 := by ring
      _ ≤ κ * norm d / 6 := by linarith [mul_le_mul_of_nonneg_right hC hnonneg]
      _ ≤ -dot g d / 2 := by linarith [hsteep.rate]
  have hactual : (m.advance s).actualReduction = (f - f' : ℝ) := by
    rw [actualReduction_advance, htrial, Minimizer.actualReduction, if_pos (Exact.isFinite_coe _), hvalue,
      ← Exact.coe_sub]
  rw [accepted_advance_iff, hactual, hpred]
  show (((1e-4 : ℝ) * _ : ℝ) : Exact) < _
  rw [Exact.coe_lt]
  have hfall := (abs_le.1 htangent).2
  norm_num
  linarith

/-- At a point of the box that is not stationary, any radius that is small enough for the point, the
constant of the tangent and the bound on the curvature makes the next step acceptable, unless the limit on
trials stopped the search for a shorter Cauchy step. The projected searches may be stopped by theirs. -/
theorem exists_accepting_radius {b : Box Exact n} {x g : Vector ℝ n} (hx : b.Contains x)
    (hg : 0 < b.stationarity x g) (C L : ℝ) :
    ∃ δ : ℝ, 0 < δ ∧ ∀ {β : Type} (m : Minimizer Exact n β) (s : State Exact n β), m.box = b → m.Expands x g C L →
      m.Holds s x g → (m.subproblem s).CauchyUncapped s.cauchyLength → 0 < s.radius → s.radius ≤ (δ : Exact) →
      (m.advance s).accepted = true := by
  obtain ⟨κ, hκ, hmargin⟩ := Box.exists_margin hx g
  have hcounts : b.effective x g ≠ 0 := by
    intro h0
    rw [Box.stationarity_eq, h0, norm_zero] at hg
    exact lt_irrefl (0 : ℝ) hg
  have hscale : 0 < 12 * (1 + |C| + |L|) := by positivity
  refine ⟨κ / (12 * (1 + |C| + |L|)), div_pos hκ hscale, ?_⟩
  rintro β m s rfl hm hs hu h0 hle
  obtain ⟨A, hA, hpos, hbound, hproduct⟩ := hm.product
  obtain ⟨f, hf⟩ := hm.value
  obtain ⟨ρ, hρ⟩ := Exact.exists_coe_of_lt h0 (Exact.lt_of_le_of_lt' hle (Exact.coe_lt.2 (lt_add_one _)))
  rw [hρ, Exact.coe_pos] at h0
  rw [hρ, Exact.coe_le, le_div_iff₀ hscale] at hle
  have hC := mul_nonneg h0.le (abs_nonneg C)
  have hL := mul_nonneg h0.le (abs_nonneg L)
  have hL' : 0 < |L| + 1 := by positivity
  have hM := hs.extends hx hproduct
  have hbase := hs.project_eq hx
  have hsmall : Subproblem.SmallRadius m.box x ⟨g, A⟩ κ (|L| + 1) ρ :=
    { contains := hx
      counts := hcounts
      margin := hmargin
      pos := h0
      room := by linarith
      growth := norm_apply_le hA hpos (hbound.mono (by linarith [le_abs_self L])) hL'
      growth_nonneg := hL'.le
      change := by linarith }
  obtain ⟨t, d, hfind⟩ := (hs.sound hx hρ h0).exists_finds hM
  obtain ⟨hsteep, hslope⟩ := hfind.cauchy.steep_minimizeFaces hM hbase hρ hsmall hu hfind.step_eq
  have hpoint := hfind.point_real hbase
  obtain ⟨hvalue, -⟩ := hf x hx
  obtain ⟨htrial, htangent⟩ := hf (x + d) (hpoint ▸ hfind.contains)
  rw [add_sub_cancel_left] at htangent
  rw [← hpoint] at htrial
  exact accepted_of_steep hpos (hs.value.trans hvalue) htrial htangent (hfind.predictedReduction hM) hsteep hslope
    (by linarith)

theorem isCurvatureBound_bowlHessian : IsCurvatureBound bowlHessian.linear 2 := fun v => by
  rw [dot_bowlHessian, norm_sq, dot_eq_sum, Fin.sum_univ_two]
  nlinarith [sq_nonneg (v.get 0 - v.get 1 / 2), sq_nonneg (v.get 1)]

theorem effective_bowl : bowl.box.effective (#v[0, 0.5] : Vector ℝ 2) #v[-2, 0] ≠ 0 := by
  have hbelow : ((#v[0, 0.5] : Vector ℝ 2).get 0 : Exact) < bowl.box.upper.get 0 := by
    rw [upper_bowl]
    exact Exact.coe_lt.2 (zero_lt_one' ℝ)
  have hneg : (bowl.box.effective (#v[0, 0.5] : Vector ℝ 2) #v[-2, 0]).get 0 < 0 :=
    (Box.effective_neg_iff contains_bowl).2 ⟨(by norm_num : (-2 : ℝ) < 0), hbelow⟩
  exact Box.effective_ne_zero hneg.ne

theorem expands_bowl : bowl.Expands #v[0, 0.5] #v[-2, 0] 1 2 where
  value := by
    refine ⟨_, fun y _ => ⟨poses_bowl.value y, ?_⟩⟩
    have hadd := Model.value_add isSymmetric_bowlHessian (M := QuadraticProgram.model bowlHessian #v[-2.25, -0.25])
      (fun _ => rfl) #v[0, 0.5] (y - #v[0, 0.5])
    rw [add_sub_cancel, around_bowl, Model.value_eq _ (y - #v[0, 0.5])] at hadd
    -- off the tangent there is only the curvature
    rw [hadd, add_sub_cancel_left, add_sub_cancel_right,
      abs_of_nonneg (div_nonneg (isPositive_bowlHessian _) zero_le_two)]
    linarith [isCurvatureBound_bowlHessian (y - #v[0, 0.5])]
  product := ⟨_, isSymmetric_bowlHessian, isPositive_bowlHessian, isCurvatureBound_bowlHessian, poses_bowl.product _⟩

/-- On an edge of the rectangle. -/
theorem exists_accepting_radius_bowl :
    ∃ δ : ℝ, 0 < δ ∧ ∀ ρ : ℝ, 0 < ρ → ρ ≤ δ →
      (bowl.advance { bowl.start (#v[0, 0.5] : Vector ℝ 2) with radius := ρ, cauchyLength := ρ }).accepted = true := by
  have hg : 0 < bowl.box.stationarity (#v[0, 0.5] : Vector ℝ 2) (#v[-2, 0] : Vector ℝ 2) := by
    rw [Box.stationarity_eq, Exact.coe_pos]
    exact norm_pos_of_ne_zero effective_bowl
  obtain ⟨δ, hδ, haccept⟩ := exists_accepting_radius contains_bowl hg 1 2
  refine ⟨min δ 1, lt_min hδ one_pos, fun ρ h0 hle => ?_⟩
  have hproject : bowl.box.project (#v[0, 0.5] : Vector ℝ 2) = (#v[0, 0.5] : Vector ℝ 2) :=
    Box.project_of_contains contains_bowl
  have hs : bowl.Holds { bowl.start (#v[0, 0.5] : Vector ℝ 2) with radius := ρ, cauchyLength := ρ }
      #v[0, 0.5] #v[-2, 0] :=
    { point := rfl
      value := congrArg bowl.problem.value hproject
      gradient := by
        refine (congrArg bowl.problem.gradient hproject).trans ((poses_bowl.gradient _).trans ?_)
        rw [around_bowl]
      cauchyLength := ⟨ρ, rfl, h0⟩ }
  refine haccept bowl _ rfl expands_bowl hs ?_ (Exact.coe_pos.2 h0) (Exact.coe_le.2 (hle.trans (min_le_left δ 1)))
  have h1 := hle.trans (min_le_right δ 1)
  refine Subproblem.cauchyUncapped_of_short (hs.extends contains_bowl (poses_bowl.product _)) hproject _ (fun _ => rfl)
    isCurvatureBound_bowlHessian (by norm_num) rfl (μ := 0.01) rfl effective_bowl h0 (show (0 : Int) < 50 by decide)
    ?_ ?_
  · rw [norm_gradient_bowl]
    show ρ / 10 ^ 50 * 2 ≤ ρ
    linarith
  · show ρ / 10 ^ 50 * 2 < 2 * (1 - 0.01)
    linarith

end BoxNewton.Minimizer
