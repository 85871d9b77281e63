/-
Descent over whole runs. With Hessians that are symmetric and have no negative curvature, the model
falls along the Cauchy step and does not rise again over the faces, so every iteration predicts a
positive reduction. An accepted trial has realized a part of it, and the value of the objective goes
down along the run. Only a search that its limit on trials stopped could spoil this.
-/
import BoxNewton.Proofs.Minimizer.Quadratic
import BoxNewton.Proofs.Subproblem.Ascent
import BoxNewton.Proofs.Subproblem.CauchySearch

namespace BoxNewton.Minimizer

variable {n : ℕ} {β : Type} {m : Minimizer Exact n β} {s : State Exact n β}

/-- No search of the iteration was stopped by the limit on trials: neither that for a shorter Cauchy
step nor a projected search of a face. -/
def Uncapped (m : Minimizer Exact n β) (s : State Exact n β) : Prop :=
  (m.subproblem s).CauchyUncapped s.cauchyLength ∧
    (m.subproblem s).FacesUncapped m.faceLimits (m.cauchyStep s).step

/-- At every real point of the box the gradient is real, and the products are those with a symmetric
linear map without negative curvature. -/
structure Convex (m : Minimizer Exact n β) : Prop where
  gradient : ∀ x : Vector ℝ n, m.box.Contains x → allFinite (m.problem.gradient x) = true
  product : ∀ x : Vector ℝ n, m.box.Contains x →
    ∃ A : Vector ℝ n →ₗ[ℝ] Vector ℝ n, IsSymmetric A ∧ IsPositive A ∧ Extends (m.problem.product x) A

theorem Convex.realDerivatives (hm : m.Convex) : m.RealDerivatives where
  gradient := hm.gradient
  product := by
    intro x hx v hv
    obtain ⟨A, -, -, hA⟩ := hm.product x hx
    obtain ⟨u, rfl⟩ := Exact.allFinite_iff.1 hv
    exact Exact.allFinite_iff.2 ⟨_, hA u⟩

/-- Quadratic problems without negative curvature. -/
theorem Poses.convex {M : Model ℝ n} (hm : m.Poses M) {A : Vector ℝ n →ₗ[ℝ] Vector ℝ n} (hM : ∀ v, M.hessian v = A v)
    (hA : IsSymmetric A) (hpos : IsPositive A) : m.Convex where
  gradient := hm.realDerivatives.gradient
  product x _ := ⟨A, hA, hpos, fun v => by rw [hm.product x v, hM]⟩

/-- A sound state at a real point with a real value and a positive radius. -/
structure Regular (m : Minimizer Exact n β) (s : State Exact n β) : Prop extends m.Placed s where
  value : ∃ v : ℝ, s.value = v
  radius_pos : 0 < s.radius

theorem regular_start (hm : m.Convex) {c : Vector ℝ n} (hc : m.box.Contains c) (y : Vector ℝ n)
    (hy : IsFinite (m.problem.value (m.box.project y))) : m.Regular (m.start y) := by
  refine ⟨placed_start hm.realDerivatives hc y, Exact.isFinite_iff.1 hy, ?_⟩
  show 0 < if 0 < norm (m.start y).gradient then norm (m.start y).gradient else 1
  split
  · assumption
  · exact Exact.coe_lt.2 one_pos

section Step

variable (hm : m.Convex) (hpos : 0 < m.options.rule.decrease) (hlt : m.options.rule.decrease < 1)

/-- The faces start where the Cauchy step ends, and do not rise above it. -/
theorem Finds.value_le {g : Vector ℝ n} {A : Vector ℝ n →ₗ[ℝ] Vector ℝ n} (hA : IsSymmetric A) (hcurv : IsPositive A)
    (hM : (m.subproblem s).Extends ⟨g, A⟩) {t : ℝ} {d : Vector ℝ n} (hf : Finds m s ⟨g, A⟩ t d) {ρ μ : ℝ}
    (hρ : s.radius = ρ) (hμ : m.options.rule.decrease = μ) (hpos : 0 < μ) (hlt : μ < 1) (hu : m.Uncapped s) :
    Model.value ⟨g, A⟩ d ≤ Model.value ⟨g, A⟩ (m.box.descend (m.box.project s.point) g t) := by
  have hstep : (m.cauchyStep s).step = (m.box.descend (m.box.project s.point) g t : Vector Exact n) :=
    hf.cauchy.step_eq
  have hin : m.box.Contains (m.box.project s.point +
      (m.box.descend (m.box.project s.point) g t : Vector Exact n)) :=
    Box.contains_add_shift hM.base g (-t)
  have hle := Subproblem.value_minimizeFaces_le hM hin hρ hA (fun _ => rfl) hμ hcurv hpos hlt (hstep ▸ hu.2)
  rw [← hstep] at hle
  have hd : ((m.subproblem s).minimizeFaces m.faceLimits (m.cauchyStep s).step).step = d := hf.step_eq
  rwa [hd, hstep, hM.model.value, hM.model.value, Exact.coe_le] at hle

include hm hpos hlt in
/-- An uncapped iteration from a regular state takes a step along which the model falls. -/
theorem Regular.exists_descent (h : m.Regular s) (hu : m.Uncapped s) :
    ∃ M t d, (m.subproblem s).Extends M ∧ Finds m s M t d ∧ M.value d < 0 := by
  obtain ⟨x, hx⟩ := h.base
  obtain ⟨g, hg⟩ := h.gradient
  obtain ⟨ρ, hρ, -⟩ := h.radius
  obtain ⟨μ, hμ⟩ := Exact.exists_coe_of_lt hpos hlt
  rw [hμ, Exact.coe_pos] at hpos
  rw [hμ, ← Exact.coe_one, Exact.coe_lt] at hlt
  obtain ⟨A, hA, hcurv, hprod⟩ := hm.product x (hx ▸ h.contains)
  rw [← hx] at hprod
  have hM : (m.subproblem s).Extends ⟨g, A⟩ := ⟨⟨hg, hprod⟩, h.contains⟩
  obtain ⟨t, d, hf⟩ := h.toSound.exists_finds hM
  have hle := hf.value_le hA hcurv hM hρ hμ hpos hlt hu
  exact ⟨_, t, d, hM, hf, hle.trans_lt (hf.cauchy.value_neg μ hμ hpos hu.1)⟩

/-- What an uncapped iteration does to the value. -/
structure Descends (s s' : State Exact n β) : Prop where
  predicted : 0 < s'.predictedReduction
  accepted : s'.accepted = true → s'.value < s.value
  rejected : s'.accepted = false → s'.value = s.value

include hm hpos hlt in
theorem Regular.descends (h : m.Regular s) (hu : m.Uncapped s) : Descends s (m.advance s) := by
  obtain ⟨M, t, d, hM, hf, hneg⟩ := h.exists_descent hm hpos hlt hu
  obtain ⟨v, hv⟩ := h.value
  have hpred := hf.predictedReduction hM
  refine ⟨?_, fun ha => ?_, fun ha => (advance_of_rejected ha).value⟩
  · rw [hpred, Exact.coe_pos]
    linarith
  · obtain ⟨v', hv', hlower⟩ := trialValue_lt_of_accepted ha hv hpred (by linarith)
    rw [(advance_of_accepted ha).value, hv', hv]
    exact Exact.coe_lt.2 hlower

include hm hpos hlt in
theorem Regular.advance (h : m.Regular s) (hu : m.Uncapped s) : m.Regular (m.advance s) := by
  obtain ⟨M, t, d, hM, hf, hneg⟩ := h.exists_descent hm hpos hlt hu
  obtain ⟨v, hv⟩ := h.value
  obtain ⟨ρ, hρ, -⟩ := h.radius
  refine ⟨h.toPlaced.advance hm.realDerivatives, ?_, ?_⟩
  · cases ha : (m.advance s).accepted with
    | true =>
      obtain ⟨v', hv', -⟩ := trialValue_lt_of_accepted ha hv (hf.predictedReduction hM) (by linarith)
      exact ⟨v', by rw [(advance_of_accepted ha).value, hv']⟩
    | false => exact ⟨v, by rw [(advance_of_rejected ha).value, hv]⟩
  · obtain ⟨ρ', hρ', -, hρ'0⟩ := hf.exists_radius hM hρ
    have hr := h.radius_pos
    rw [hρ, Exact.coe_pos] at hr
    rw [hρ', Exact.coe_pos]
    exact hρ'0 hr (Model.norm_pos_of_value_neg hneg)

end Step

/-! ## Runs -/

section Run

variable (hm : m.Convex) (hpos : 0 < m.options.rule.decrease) (hlt : m.options.rule.decrease < 1)
  (hbox : ∃ c : Vector ℝ n, m.box.Contains c) {y : Vector ℝ n}
  (hy : IsFinite (m.problem.value (m.box.project y)))

include hm hpos hlt hbox hy in
theorem regular_stateAt {k : ℕ} (hu : ∀ i < k, m.Uncapped (m.stateAt y i)) : m.Regular (m.stateAt y k) := by
  induction k with
  | zero =>
    obtain ⟨c, hc⟩ := hbox
    exact regular_start hm hc y hy
  | succ k ih =>
    rw [stateAt_succ]
    exact (ih fun i hi => hu i (Nat.lt_succ_of_lt hi)).advance hm hpos hlt (hu k k.lt_succ_self)

include hm hpos hlt hbox hy in
/-- Along a run whose searches no limit stopped, every iteration predicts a positive reduction from a
positive radius and a positive Cauchy length. An accepted trial strictly lowers the value and a
rejected one keeps it, so the value stays finite and never increases. -/
theorem run_descends {k : ℕ} (hu : ∀ i < k, m.Uncapped (m.stateAt y i)) :
    (∀ i ≤ k, IsFinite (m.stateAt y i).value ∧ 0 < (m.stateAt y i).radius ∧
      0 < (m.stateAt y i).cauchyLength) ∧
    (∀ i < k, 0 < (m.stateAt y (i + 1)).predictedReduction ∧
      ((m.stateAt y (i + 1)).accepted = true → (m.stateAt y (i + 1)).value < (m.stateAt y i).value) ∧
      ((m.stateAt y (i + 1)).accepted = false → (m.stateAt y (i + 1)).value = (m.stateAt y i).value)) ∧
    ∀ i j, i ≤ j → j ≤ k → (m.stateAt y j).value ≤ (m.stateAt y i).value := by
  have hreg : ∀ i ≤ k, m.Regular (m.stateAt y i) :=
    fun i hi => regular_stateAt hm hpos hlt hbox hy fun j hj => hu j (hj.trans_le hi)
  have hdesc : ∀ i < k, Descends (m.stateAt y i) (m.stateAt y (i + 1)) := by
    intro i hi
    rw [stateAt_succ]
    exact (hreg i hi.le).descends hm hpos hlt (hu i hi)
  refine ⟨fun i hi => ?_, fun i hi => ⟨(hdesc i hi).1, (hdesc i hi).2, (hdesc i hi).3⟩, fun i j hij => ?_⟩
  · obtain ⟨t, ht, h0⟩ := (hreg i hi).cauchyLength
    exact ⟨Exact.isFinite_iff.2 (hreg i hi).value, (hreg i hi).radius_pos, ht ▸ Exact.coe_lt.2 h0⟩
  · induction j, hij using Nat.le_induction with
    | base =>
      intro hi
      obtain ⟨v, hv⟩ := (hreg i hi).value
      rw [hv]
      exact Exact.coe_le.2 le_rfl
    | succ j hij ih =>
      intro hj
      refine Exact.le_trans ?_ (ih (Nat.le_of_succ_le hj))
      cases ha : (m.stateAt y (j + 1)).accepted with
      | true => exact Exact.le_of_lt' ((hdesc j hj).accepted ha)
      | false =>
        obtain ⟨v, hv⟩ := (hreg j (Nat.le_of_succ_le hj)).value
        rw [(hdesc j hj).rejected ha, hv]
        exact Exact.coe_le.2 le_rfl

end Run

noncomputable def bowlHessian : SquareMatrix ℝ 2 := #v[#v[1, 0.5], #v[0.5, 0.5]]

/-- A convex program over a rectangle. -/
noncomputable def bowl : Minimizer Exact 2 Unit :=
  (QuadraticProgram.ofReal bowlHessian #v[-2.25, -0.25] ⟨(0 : Vector ℝ 2), (#v[1, 1.5] : Vector ℝ 2)⟩).minimizer .default

/-- A start out of the rectangle. -/
noncomputable def bowlStart : State Exact 2 Unit := bowl.start (#v[-1, 0.5] : Vector ℝ 2)

section Bowl

theorem dot_bowlHessian (v : Vector ℝ 2) :
    dot v (bowlHessian.linear v) = (v.get 0 + v.get 1 / 2) ^ 2 + (v.get 1 / 2) ^ 2 := by
  rw [SquareMatrix.dot_linear_two]
  show (1 : ℝ) * v.get 0 ^ 2 + (0.5 + 0.5) * (v.get 0 * v.get 1) + 0.5 * v.get 1 ^ 2 = _
  ring

theorem isSymmetric_bowlHessian : IsSymmetric bowlHessian.linear := SquareMatrix.isSymmetric_linear
  (Fin.forall_fin_two.2 ⟨Fin.forall_fin_two.2 ⟨rfl, rfl⟩, Fin.forall_fin_two.2 ⟨rfl, rfl⟩⟩)

theorem isPositive_bowlHessian : IsPositive bowlHessian.linear := fun v => by
  rw [dot_bowlHessian]
  positivity

theorem poses_bowl : bowl.Poses (QuadraticProgram.model bowlHessian #v[-2.25, -0.25]) := QuadraticProgram.poses_model ..

theorem convex_bowl : bowl.Convex := poses_bowl.convex (fun _ => rfl) isSymmetric_bowlHessian isPositive_bowlHessian

theorem around_bowl :
    (QuadraticProgram.model bowlHessian #v[-2.25, -0.25]).around #v[0, 0.5] = ⟨#v[-2, 0], bowlHessian.linear⟩ := by
  have hget : ∀ i, ((QuadraticProgram.model bowlHessian #v[-2.25, -0.25]).around #v[0, 0.5]).gradient.get i =
      (#v[-2.25, -0.25] : Vector ℝ 2).get i + (bowlHessian.entry i 0 * 0 + bowlHessian.entry i 1 * 0.5) :=
    fun i => (get_add _ _ i).trans (congrArg _ (SquareMatrix.get_linear_two bowlHessian _ i))
  refine congrArg (Model.mk · _) (ext_get (Fin.forall_fin_two.2 ⟨(hget 0).trans ?_, (hget 1).trans ?_⟩))
  · show (-2.25 + (1 * 0 + 0.5 * 0.5) : ℝ) = -2
    norm_num
  · show (-0.25 + (0.5 * 0 + 0.5 * 0.5) : ℝ) = 0
    norm_num

theorem contains_bowl : bowl.box.Contains (#v[0, 0.5] : Vector ℝ 2) := by
  refine Box.contains_coe_iff.2 (Fin.forall_fin_two.2 ⟨⟨?_, ?_⟩, ?_, ?_⟩)
  · exact (get_zero 0).le
  · exact zero_le_one' ℝ
  · exact (get_zero 1).trans_le (by norm_num : (0 : ℝ) ≤ 0.5)
  · exact (by norm_num : (0.5 : ℝ) ≤ 1.5)

theorem lower_bowl (i : Fin 2) : bowl.box.lower.get i = (0 : ℝ) :=
  (Exact.get_coe _ i).trans (congrArg Exact.real (get_zero i))

theorem upper_bowl (i : Fin 2) : bowl.box.upper.get i = ((#v[1, 1.5] : Vector ℝ 2).get i : ℝ) := Exact.get_coe _ i

theorem base_bowl : (bowl.subproblem bowlStart).base = (#v[0, 0.5] : Vector ℝ 2) := by
  have hget : ∀ i, (bowl.box.project (#v[-1, 0.5] : Vector ℝ 2)).get i =
      (min (max ((#v[-1, 0.5] : Vector ℝ 2).get i) 0) ((#v[1, 1.5] : Vector ℝ 2).get i) : ℝ) := fun i => by
    rw [Box.get_project, lower_bowl, upper_bowl, Exact.get_coe, ← Exact.coe_greater, ← Exact.coe_lesser]
  refine ext_get fun i => (hget i).trans ((congrArg Exact.real ?_).trans (Exact.get_coe _ i).symm)
  revert i
  refine Fin.forall_fin_two.2 ⟨?_, ?_⟩
  · show min (max (-1 : ℝ) 0) 1 = 0
    norm_num
  · show min (max (0.5 : ℝ) 0) 1.5 = 0.5
    norm_num

theorem extends_bowl : (bowl.subproblem bowlStart).Extends ⟨#v[-2, 0], bowlHessian.linear⟩ := by
  obtain ⟨x, h⟩ := poses_bowl.exists_standsAt ⟨_, contains_bowl⟩ #v[-1, 0.5] 0
  obtain rfl : x = #v[0, 0.5] := Exact.vector_injective (h.project_eq.symm.trans base_bowl)
  rw [← around_bowl]
  exact h.extends_around

theorem norm_gradient_bowl : norm (#v[-2, 0] : Vector ℝ 2) = 2 := by
  rw [norm, dot_eq_sum, Fin.sum_univ_two, sqrt_real]
  show Real.sqrt (-2 * -2 + 0 * 0) = 2
  rw [zero_mul, add_zero, neg_mul_neg, Real.sqrt_mul_self (by norm_num)]

theorem radius_bowl : bowlStart.radius = (2 : ℝ) := by
  have hgrad : bowlStart.gradient = (#v[-2, 0] : Vector ℝ 2) := extends_bowl.model.gradient
  show (if 0 < norm bowlStart.gradient then norm bowlStart.gradient else 1) = _
  rw [hgrad, ← Exact.coe_norm, norm_gradient_bowl]
  exact if_pos (Exact.coe_pos.2 (by norm_num))

/-- The path of steepest descent ends at the upper bound of the first coordinate. -/
theorem descend_bowl {t : ℝ} (ht : 1 ≤ t) :
    (bowl.subproblem bowlStart).box.descend (bowl.subproblem bowlStart).base #v[-2, 0] t = #v[1, 0] := by
  refine ext_get (Fin.forall_fin_two.2 ⟨Box.shift_of_upper_le extends_bowl.base (ξ := 0) ?_ ?_ ?_,
    Box.shift_eq_zero extends_bowl.base rfl _⟩)
  · rw [base_bowl, Exact.get_coe]; rfl
  · rw [zero_add]
    exact upper_bowl 0
  · show 1 ≤ -t * -2
    linarith

theorem passesInside_bowl : (bowl.subproblem bowlStart).PassesInside 1 := by
  have hpath : (bowl.subproblem bowlStart).pathStep 1 = (#v[1, 0] : Vector ℝ 2) := by
    rw [Subproblem.pathStep_eq extends_bowl base_bowl, descend_bowl le_rfl]
  have hdecrease : (bowl.subproblem bowlStart).rule.decrease = (0.01 : ℝ) := rfl
  have hradius : (bowl.subproblem bowlStart).radius = (2 : ℝ) := radius_bowl
  constructor
  · rw [hpath, hradius, ← Exact.coe_norm]
    refine Exact.coe_lt.2 ((norm_le_of_dot_le zero_le_one ?_).trans_lt one_lt_two)
    rw [dot_eq_sum, Fin.sum_univ_two]
    show (1 * 1 + 0 * 0 : ℝ) ≤ 1 ^ 2
    norm_num
  · rw [hpath, hdecrease, extends_bowl.model.value, extends_bowl.model.slope, ← Exact.coe_mul, Exact.coe_lt,
      Model.value_eq, dot_bowlHessian, Model.slope, dot_eq_sum, Fin.sum_univ_two]
    show (((1 + 0 / 2) ^ 2 + (0 / 2) ^ 2) / 2 + (-2 * 1 + 0 * 0) : ℝ) < 0.01 * (-2 * 1 + 0 * 0)
    norm_num

theorem step_bowl : (bowl.cauchyStep bowlStart).step = (#v[1, 0] : Vector ℝ 2) :=
  Subproblem.step_cauchyStep_of_inside extends_bowl base_bowl one_pos radius_bowl (μ := 0.01) rfl passesInside_bowl
    fun _ => descend_bowl

/-- The Cauchy step leaves the second coordinate free, with more room than a search needs. -/
theorem uncapped_bowl : bowl.Uncapped bowlStart := by
  have hM := extends_bowl
  have hin := Box.contains_add_shift hM.base #v[-2, 0] (-1)
  rw [show (bowl.subproblem bowlStart).box.shift _ #v[-2, 0] (-1) = #v[1, 0] from descend_bowl le_rfl] at hin
  have hpoint : ((bowl.subproblem bowlStart).firstFace (#v[1, 0] : Vector ℝ 2)).point = (#v[1, 0.5] : Vector ℝ 2) := by
    refine (Box.project_of_contains hin).trans ?_
    rw [base_bowl, ← Exact.coe_add_vector]
    exact congrArg _ (ext_get (Fin.forall_fin_two.2
      ⟨(get_add _ _ _).trans (zero_add 1), (get_add _ _ _).trans (add_zero 0.5)⟩))
  refine ⟨fun ho => ?_, ?_⟩
  · exact absurd ho ((Subproblem.not_overlong_iff hM base_bowl radius_bowl (μ := 0.01) rfl 1).2 passesInside_bowl)
  · rw [step_bowl]
    refine Subproblem.facesUncapped_of_room (fun _ => rfl) isSymmetric_bowlHessian hM hin radius_bowl
      zero_le_two (τ := 0.1) rfl (by norm_num) le_rfl hpoint (i := 1) (fun i => ?_)
      (μ := 0.01) rfl (by decide) fun t ht => ?_
    · rw [Subproblem.free, hpoint, Box.get_free, decide_eq_true_eq]
      show bowl.box.lower.get i < _ ∧ _ < bowl.box.upper.get i ↔ _
      rw [lower_bowl, upper_bowl, Exact.get_coe, Exact.coe_lt, Exact.coe_lt]
      revert i
      refine Fin.forall_fin_two.2 ⟨iff_of_false (fun hlt => ?_) Fin.zero_ne_one, iff_of_true ⟨?_, ?_⟩ rfl⟩
      · exact lt_irrefl (1 : ℝ) hlt.2
      · exact (by norm_num : (0 : ℝ) < 0.5)
      · exact (by norm_num : (0.5 : ℝ) < 1.5)
    · obtain ⟨hl, hu⟩ := abs_le.1 (ht.trans (show (1 / 2 : ℝ) ^ 50 * 2 ≤ 0.5 by norm_num))
      show bowl.box.lower.get 1 ≤ ((0.5 + t : ℝ) : Exact) ∧ ((0.5 + t : ℝ) : Exact) ≤ bowl.box.upper.get 1
      rw [lower_bowl, upper_bowl, Exact.coe_le, Exact.coe_le]
      exact ⟨by linarith, show 0.5 + t ≤ 1.5 by linarith⟩

/-- A step to an edge of the rectangle, and on along it. -/
theorem run_descends_bowl :
    let s := bowl.stateAt (#v[-1, 0.5] : Vector ℝ 2)
    ((bowl.cauchyStep (s 0)).step = (#v[1, 0] : Vector ℝ 2) ∧ bowl.Uncapped (s 0)) ∧
    (∀ i ≤ 1, IsFinite (s i).value ∧ 0 < (s i).radius ∧ 0 < (s i).cauchyLength) ∧
    (∀ i < 1, 0 < (s (i + 1)).predictedReduction ∧
      ((s (i + 1)).accepted = true → (s (i + 1)).value < (s i).value) ∧
      ((s (i + 1)).accepted = false → (s (i + 1)).value = (s i).value)) ∧
    (∀ i j, i ≤ j → j ≤ 1 → (s j).value ≤ (s i).value) ∧
    (s 1).accepted = true := by
  intro s
  obtain ⟨x, h⟩ := poses_bowl.exists_standsAt ⟨_, contains_bowl⟩ #v[-1, 0.5] 0
  have hvalue : IsFinite (bowl.problem.value (bowl.box.project (#v[-1, 0.5] : Vector ℝ 2))) :=
    Exact.isFinite_iff.2 ⟨_, h.value_eq⟩
  obtain ⟨hstates, hsteps, hmono⟩ := run_descends convex_bowl
    (Exact.coe_lt.2 (by norm_num)) (Exact.coe_lt.2 (by norm_num))
    ⟨_, contains_bowl⟩ hvalue fun i (hi : i < 1) => (Nat.lt_one_iff.1 hi).symm ▸ uncapped_bowl
  obtain ⟨t, d, hf⟩ := h.toSound.exists_finds h.extends_around
  have haccepted := (h.accepted_iff isSymmetric_bowlHessian (fun _ => rfl) poses_bowl hf).2 (hsteps 0 one_pos).1
  exact ⟨⟨step_bowl, uncapped_bowl⟩, hstates, hsteps, hmono, haccepted⟩

end Bowl

end BoxNewton.Minimizer
