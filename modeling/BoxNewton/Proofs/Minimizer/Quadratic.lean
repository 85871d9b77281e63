/-
Runs on quadratic programs, whose Hessians may be indefinite. The value at a trial is computed at the
point that the minimization over faces carries along, and the prediction from its accumulated step. As
the point is where the step leads, the prediction is what the program does: a step is accepted if and
only if a reduction is predicted, and then the radius does not shrink.
-/
import BoxNewton.Proofs.Minimizer.Feasibility
import BoxNewton.Proofs.Problem.Quadratic

namespace BoxNewton

variable {n : ℕ}

namespace Minimizer

variable {β : Type} {m : Minimizer Exact n β} {M : Model ℝ n} {s : State Exact n β}

/-! ## Quadratic problems -/

/-- At real points the problem is the model `M`, taken around the origin. -/
structure Poses (m : Minimizer Exact n β) (M : Model ℝ n) : Prop where
  value : ∀ x : Vector ℝ n, m.problem.value x = (M.value x : ℝ)
  gradient : ∀ x : Vector ℝ n, m.problem.gradient x = ((M.around x).gradient : Vector Exact n)
  product : ∀ x : Vector ℝ n, Extends (m.problem.product x) M.hessian

theorem Poses.realDerivatives (hm : m.Poses M) : m.RealDerivatives where
  gradient x _ := Exact.allFinite_iff.2 ⟨_, hm.gradient x⟩
  product x _ v hv := by
    obtain ⟨u, rfl⟩ := Exact.allFinite_iff.1 hv
    exact Exact.allFinite_iff.2 ⟨_, hm.product x u⟩

/-- The state stands at the real point `x`, with the value there and the model around it. -/
structure StandsAt (m : Minimizer Exact n β) (M : Model ℝ n) (s : State Exact n β) (x : Vector ℝ n) : Prop
    extends m.Placed s where
  project_eq : m.box.project s.point = x
  value_eq : s.value = (M.value x : ℝ)
  extends_around : (m.subproblem s).Extends (M.around x)

theorem Poses.exists_standsAt (hm : m.Poses M) (hbox : ∃ p : Vector ℝ n, m.box.Contains p) (y : Vector ℝ n)
    (k : ℕ) : ∃ x, m.StandsAt M (m.stateAt y k) x := by
  have hs := placed_stateAt hm.realDerivatives hbox y k
  have hc := consistent_stateAt hm.realDerivatives hbox y k
  obtain ⟨x, hx⟩ := hs.base
  have hvalue := hc.value
  have hgradient := hc.gradient
  have hproduct := hm.product x
  rw [hx] at hvalue hgradient
  rw [← hx] at hproduct
  exact ⟨x, hs, hx, hvalue.trans (hm.value x), ⟨⟨hgradient.trans (hm.gradient x), hproduct⟩, hs.contains⟩⟩

/-! ## One iteration -/

section Step

variable {A : Vector ℝ n →ₗ[ℝ] Vector ℝ n} {x d : Vector ℝ n} {t : ℝ} (hA : IsSymmetric A)
  (hM : ∀ v, M.hessian v = A v) (hm : m.Poses M) (h : m.StandsAt M s x) (hf : Finds m s (M.around x) t d)

include hA hM hm h hf in
/-- The problem does what was predicted. -/
theorem StandsAt.actualReduction : (m.advance s).actualReduction = (-(M.around x).value d : ℝ) := by
  have htrial : m.trialValue s = (M.value (x + d) : ℝ) := by
    rw [trialValue, hf.point_real h.project_eq, hm.value]
  rw [actualReduction_advance, htrial, Minimizer.actualReduction, if_pos (Exact.isFinite_coe _), h.value_eq,
    ← Exact.coe_sub, Model.value_add hA hM, sub_add_cancel_left]

include hA hM hm h hf in
theorem StandsAt.accepted_iff : (m.advance s).accepted = true ↔ 0 < (m.advance s).predictedReduction := by
  rw [accepted_advance_iff, h.actualReduction hA hM hm hf, hf.predictedReduction h.extends_around, Exact.coe_pos]
  show (((1e-4 : ℝ) * _ : ℝ) : Exact) < _ ↔ _
  rw [Exact.coe_lt]
  constructor <;> intro _ <;> linarith

include hA hM hm h hf in
/-- An accepted step does not shrink the radius that the update starts from. -/
theorem StandsAt.radius_bounds (ha : (m.advance s).accepted = true) :
    radiusBefore s (norm (m.trialStep s).step) ≤ (m.advance s).radius ∧
      (m.advance s).radius ≤ TrustRegion.mostGrowth * radiusBefore s (norm (m.trialStep s).step) := by
  obtain ⟨ρ, hρ, h0⟩ := h.radius
  obtain ⟨ρ', hρ', hnonneg, -⟩ := exists_radiusBefore hρ (norm d)
  obtain ⟨ratio, hratio⟩ := hf.radius_eq h.extends_around
  have hpos := (h.accepted_iff hA hM hm hf).1 ha
  have hpred := hf.predictedReduction h.extends_around
  rw [hpred, Exact.coe_pos] at hpos
  rw [hf.step_eq, ← Exact.coe_norm, hratio, hρ', h.actualReduction hA hM hm hf, hpred]
  exact TrustRegion.updateRadius_of_predicted (hnonneg h0 (norm_nonneg d)) hpos (norm d) ratio

end Step

end Minimizer

/-! ## Runs -/

/-- The minimizer of a program over its box, with the program's own derivatives. -/
def QuadraticProgram.minimizer {α : Type} [ExtendedScalar α] (q : QuadraticProgram α n) (o : Options α) :
    Minimizer α n Unit :=
  ⟨⟨q.box, o⟩, q.problem⟩

namespace QuadraticProgram

open Minimizer

theorem poses_model (Q : SquareMatrix ℝ n) (c : Vector ℝ n) (b : Box Exact n) (o : Options Exact) :
    ((ofReal Q c b).minimizer o).Poses (model Q c) :=
  ⟨value_ofReal Q c b, gradient_ofReal Q c b, fun _ => extends_matrix Q⟩

/-- On a program with a symmetric matrix every iteration reduces the value by exactly what it predicts,
and is accepted if and only if that is positive. The radius then lies between the one that the update
starts from and four times that. So once a step was accepted, no accepted step shrinks the radius. -/
theorem run_predicts {Q : SquareMatrix ℝ n} (hQ : ∀ i j, Q.entry i j = Q.entry j i) (c : Vector ℝ n)
    {b : Box Exact n} (hbox : ∃ p : Vector ℝ n, b.Contains p) (o : Options Exact) (y : Vector ℝ n) (k : ℕ) :
    let m := (ofReal Q c b).minimizer o
    let s := m.stateAt y k
    let s' := m.stateAt y (k + 1)
    let before := radiusBefore s (norm (m.trialStep s).step)
    IsFinite s'.actualReduction ∧ s'.actualReduction = s'.predictedReduction ∧
    (s'.accepted = true ↔ 0 < s'.predictedReduction) ∧
    (s'.accepted = true → before ≤ s'.radius ∧ s'.radius ≤ 4.0 * before) ∧
    ∀ i < k, (m.stateAt y (i + 1)).accepted = true → s'.accepted = true → s.radius ≤ s'.radius := by
  intro m s s' before
  have hm : m.Poses (model Q c) := poses_model Q c b o
  have hA := SquareMatrix.isSymmetric_linear hQ
  have hM : ∀ v, (model Q c).hessian v = Q.linear v := fun _ => rfl
  obtain ⟨x, h⟩ := hm.exists_standsAt hbox y k
  obtain ⟨t, d, hf⟩ := h.toSound.exists_finds h.extends_around
  have hs' : s' = m.advance s := stateAt_succ m y k
  have hactual := h.actualReduction hA hM hm hf
  have hradius : s'.accepted = true → before ≤ s'.radius ∧ s'.radius ≤ 4.0 * before := by
    rw [hs']
    exact h.radius_bounds hA hM hm hf
  rw [hs']
  refine ⟨?_, ?_, h.accepted_iff hA hM hm hf, hs' ▸ hradius, fun i hi hi' ha => ?_⟩
  · rw [hactual]
    exact Exact.isFinite_coe _
  · rw [hactual, hf.predictedReduction h.extends_around]
  · have hbefore : before = s.radius := if_neg (acceptedSteps_pos hi hi').ne'
    rw [← hbefore, ← hs']
    exact (hradius (hs' ▸ ha)).1

/-- A saddle between bounds, from a point outside them. -/
theorem run_predicts_saddle :
    let b : Box Exact 2 := ⟨(Vector.replicate 2 (-1) : Vector ℝ 2), (Vector.replicate 2 1 : Vector ℝ 2)⟩
    let m := (ofReal #v[#v[0, 1], #v[1, 0]] #v[1, -1] b).minimizer .default
    let s := m.stateAt (#v[2, 0] : Vector ℝ 2) 1
    let s' := m.stateAt (#v[2, 0] : Vector ℝ 2) 2
    let before := radiusBefore s (norm (m.trialStep s).step)
    IsFinite s'.actualReduction ∧ s'.actualReduction = s'.predictedReduction ∧
    (s'.accepted = true ↔ 0 < s'.predictedReduction) ∧
    (s'.accepted = true → before ≤ s'.radius ∧ s'.radius ≤ 4.0 * before) ∧
    ∀ i < 1, (m.stateAt (#v[2, 0] : Vector ℝ 2) (i + 1)).accepted = true → s'.accepted = true →
      s.radius ≤ s'.radius := by
  refine run_predicts ?_ #v[1, -1] ⟨0, Box.contains_coe_iff.2 fun i => ?_⟩ .default #v[2, 0] 1
  · exact Fin.forall_fin_two.2 ⟨Fin.forall_fin_two.2 ⟨rfl, rfl⟩, Fin.forall_fin_two.2 ⟨rfl, rfl⟩⟩
  · rw [get_replicate, get_replicate, get_zero]
    norm_num

end QuadraticProgram

end BoxNewton
