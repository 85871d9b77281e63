/-
The radius along a run. Acceptance compares the actual reduction strictly with a part of the predicted one,
and the update of the radius compares the two once more on its own, with infinities and values that are no
numbers among the trials. In exact arithmetic the two agree all the same: a rejected step halves the
radius at least, an accepted one keeps it within fixed multiples, and a very good one does not shrink it.

A rejected step leaves the subproblem as it is but for the radius (`Ready.advance_of_rejected`), so the halvings
add up along consecutive rejections (`Ready.iterate_of_rejected`).
-/
import BoxNewton.Proofs.Minimizer.Descent

namespace BoxNewton.Minimizer

variable {n : ℕ} {β : Type} {m : Minimizer Exact n β} {s : State Exact n β} {M : Model ℝ n}

/-- What an iteration needs in order to compute over the reals. Only the objective at the trial point is left
open. -/
structure Ready (m : Minimizer Exact n β) (s : State Exact n β) (M : Model ℝ n) : Prop where
  subproblem : (m.subproblem s).Extends M
  value : ∃ v : ℝ, s.value = v
  radius : ∃ ρ : ℝ, s.radius = ρ ∧ 0 < ρ
  cauchyLength : ∃ t : ℝ, s.cauchyLength = t

/-! ## One iteration -/

/-- The reduction at a trial that is not finite is the negative infinity. -/
theorem Ready.actualReduction_ne_nan (h : m.Ready s M) : (m.advance s).actualReduction ≠ .nan := by
  obtain ⟨v, hv⟩ := h.value
  rw [actualReduction_advance, Minimizer.actualReduction, hv]
  split
  · obtain ⟨v', hv'⟩ := Exact.isFinite_iff.1 ‹IsFinite (m.trialValue s)›
    rw [hv', ← Exact.coe_sub]
    exact Exact.coe_ne_nan _
  · exact fun h => by injection h

/-- What the radius is updated from: the radius `δ` before, the prediction `π`, and the length of the step. -/
structure Updates (m : Minimizer Exact n β) (s : State Exact n β) (δ π length ratio : ℝ) : Prop where
  before : radiusBefore s (norm (m.trialStep s).step) = δ
  predicted : (m.advance s).predictedReduction = π
  radius : (m.advance s).radius =
    TrustRegion.updateRadius (δ : Exact) (m.advance s).actualReduction (π : Exact) (length : Exact) (ratio : Exact)
  before_pos : 0 < δ
  before_le : (δ : Exact) ≤ s.radius
  predicted_pos : 0 < π
  length_pos : 0 < length

theorem radiusBefore_le {ρ : ℝ} (hρ : s.radius = ρ) (length : ℝ) : radiusBefore s (length : Exact) ≤ s.radius := by
  unfold radiusBefore
  rw [hρ, ← Exact.coe_lesser]
  split
  · exact Exact.coe_le.2 (min_le_left _ _)
  · exact Exact.coe_le.2 le_rfl

/-- Where a reduction is predicted the step does not vanish, and all that the update takes is positive. -/
theorem Ready.exists_updates (h : m.Ready s M) (hpred : 0 < (m.advance s).predictedReduction) :
    ∃ δ π length ratio, m.Updates s δ π length ratio := by
  obtain ⟨ρ, hρ, hρ0⟩ := h.radius
  obtain ⟨t, ht⟩ := h.cauchyLength
  obtain ⟨d, hd, -⟩ := exists_trialStep h.subproblem hρ ht
  have hπ := predictedReduction_of_step h.subproblem hd
  rw [hπ, Exact.coe_pos] at hpred
  have hlength := Model.norm_pos_of_value_neg (neg_pos.1 hpred)
  obtain ⟨δ, hδ, -, hδ0⟩ := exists_radiusBefore hρ (norm d)
  obtain ⟨ratio, hradius⟩ := radius_of_step h.subproblem hd
  rw [hδ, hπ] at hradius
  exact ⟨δ, -M.value d, norm d, ratio,
    { before := by rw [hd, ← Exact.coe_norm, hδ]
      predicted := hπ
      radius := hradius
      before_pos := hδ0 hρ0 hlength
      before_le := hδ ▸ radiusBefore_le hρ (norm d)
      predicted_pos := hpred
      length_pos := hlength }⟩

section Updates

variable {δ π length ratio : ℝ} (hu : m.Updates s δ π length ratio)

include hu

/-- Beyond a comparison with the prediction, rejection needs no case of its own for trials that are not finite. -/
theorem Updates.rejected_iff (h : m.Ready s M) :
    (m.advance s).accepted = false ↔ (m.advance s).actualReduction ≤ TrustRegion.acceptance * (π : Exact) := by
  rw [← Bool.not_eq_true, accepted_advance_iff, Acceptable, hu.predicted]
  exact Exact.not_lt_iff (by rw [(TrustRegion.fraction_eq π).1]; exact Exact.coe_ne_nan _) h.actualReduction_ne_nan

theorem Updates.radius_of_rejected (h : m.Ready s M) (ha : (m.advance s).accepted = false) :
    ∃ ρ : ℝ, (m.advance s).radius = ρ ∧ 0 < ρ ∧ ρ ≤ δ / 2 := by
  rw [hu.radius]
  exact TrustRegion.updateRadius_of_rejected hu.before_pos hu.length_pos hu.predicted_pos ratio
    ((hu.rejected_iff h).1 ha)

theorem Updates.radius_of_accepted (ha : (m.advance s).accepted = true) :
    ∃ ρ : ℝ, (m.advance s).radius = ρ ∧ δ / 4 ≤ ρ ∧ ρ ≤ 4 * δ ∧
      (TrustRegion.veryGoodFrom * (π : Exact) ≤ (m.advance s).actualReduction → δ ≤ ρ) := by
  have hacc := (accepted_advance_iff m s).1 ha
  rw [Acceptable, hu.predicted] at hacc
  rw [hu.radius]
  exact TrustRegion.updateRadius_of_accepted hu.before_pos.le hu.predicted_pos.le length ratio hacc

end Updates

/-! ## Consecutive rejections -/

/-- After a rejected step the next subproblem differs in the radius only, and that is at most half as large. -/
theorem Ready.advance_of_rejected (h : m.Ready s M) (hpred : 0 < (m.advance s).predictedReduction)
    (ha : (m.advance s).accepted = false) {ρ : ℝ} (hρ : s.radius = ρ) :
    m.Ready (m.advance s) M ∧ ∃ ρ' : ℝ, (m.advance s).radius = ρ' ∧ 2 * ρ' ≤ ρ := by
  have hkeeps := Minimizer.advance_of_rejected ha
  have hbase : m.box.project (m.advance s).point = m.box.project s.point := by
    rw [hkeeps.point]
    exact Box.project_of_contains h.subproblem.base
  obtain ⟨t, ht⟩ := h.cauchyLength
  obtain ⟨_, -, t', ht'⟩ := exists_trialStep h.subproblem hρ ht
  obtain ⟨δ, π, length, ratio, hu⟩ := h.exists_updates hpred
  obtain ⟨ρ', hρ', hpos, hhalf⟩ := hu.radius_of_rejected h ha
  have hle := hu.before_le
  rw [hρ, Exact.coe_le] at hle
  refine ⟨{ subproblem := ⟨⟨?_, ?_⟩, ?_⟩, value := ?_, radius := ⟨ρ', hρ', hpos⟩, cauchyLength := ⟨t', ht'⟩ }, ρ', hρ',
    by linarith⟩
  · exact hkeeps.gradient.trans h.subproblem.model.gradient
  · show Extends (m.problem.product (m.box.project (m.advance s).point)) M.hessian
    rw [hbase]
    exact h.subproblem.model.hessian
  · show m.box.Contains (m.box.project (m.advance s).point)
    rw [hbase]
    exact h.subproblem.base
  · rw [hkeeps.value]
    exact h.value

/-- The next `k` steps are rejected, each with a reduction predicted. -/
def RejectsAll (m : Minimizer Exact n β) (s : State Exact n β) (k : ℕ) : Prop :=
  ∀ i < k, (m.advance^[i + 1] s).accepted = false ∧ 0 < (m.advance^[i + 1] s).predictedReduction

theorem Ready.iterate_of_rejected (h : m.Ready s M) {ρ : ℝ} (hρ : s.radius = ρ) {k : ℕ} (hrej : m.RejectsAll s k) :
    m.Ready (m.advance^[k] s) M ∧ ∃ ρ' : ℝ, (m.advance^[k] s).radius = ρ' ∧ 2 ^ k * ρ' ≤ ρ := by
  induction k with
  | zero => exact ⟨h, ρ, hρ, by simp⟩
  | succ k ih =>
    obtain ⟨hready, ρ₁, hρ₁, hle₁⟩ := ih fun i hi => hrej i (Nat.lt_succ_of_lt hi)
    obtain ⟨ha, hpred⟩ := hrej k k.lt_succ_self
    rw [Function.iterate_succ_apply'] at ha hpred ⊢
    obtain ⟨hready', ρ₂, hρ₂, hle₂⟩ := hready.advance_of_rejected hpred ha hρ₁
    refine ⟨hready', ρ₂, hρ₂, ?_⟩
    calc (2 : ℝ) ^ (k + 1) * ρ₂ = 2 ^ k * (2 * ρ₂) := by ring
      _ ≤ 2 ^ k * ρ₁ := mul_le_mul_of_nonneg_left hle₂ (by positivity)
      _ ≤ ρ := hle₁

/-- From a finite value and a positive radius, whatever the objective returns at the trial point: a step for which a
reduction is predicted, and which so is not zero, is rejected if the actual reduction does not exceed its part of
the predicted one, ties included, or the trial is not finite. Then the new radius is positive and at most half of
what the update starts from. After an accepted step it lies between a quarter of that and four times that, and
after a very good one it is not smaller. So `k` rejections in a row divide the radius by `2 ^ k` at least, and
it does not vanish. -/
theorem advance_adapts_radius (h : m.Ready s M) :
    let s' := m.advance s
    let before := radiusBefore s (norm (m.trialStep s).step)
    (0 < s'.predictedReduction →
      (s'.accepted = false ↔ s'.actualReduction ≤ 1e-4 * s'.predictedReduction ∨ ¬ IsFinite (m.trialValue s)) ∧
      (s'.accepted = false → 0 < s'.radius ∧ s'.radius ≤ 0.5 * before) ∧
      (s'.accepted = true → 0.25 * before ≤ s'.radius ∧ s'.radius ≤ 4.0 * before ∧
        (0.75 * s'.predictedReduction ≤ s'.actualReduction → before ≤ s'.radius))) ∧
    ∀ k, m.RejectsAll s k →
      0 < (m.advance^[k] s).radius ∧ ((2 ^ k : ℝ) : Exact) * (m.advance^[k] s).radius ≤ s.radius := by
  intro s' before
  refine ⟨fun hpred => ?_, fun k hrej => ?_⟩
  · obtain ⟨δ, π, length, ratio, hu⟩ := h.exists_updates hpred
    obtain ⟨hquarter, hhalf, hfourfold⟩ : (0.25 : Exact) * δ = (δ / 4 : ℝ) ∧ (0.5 : Exact) * δ = (δ / 2 : ℝ) ∧
      (4.0 : Exact) * δ = (4 * δ : ℝ) := TrustRegion.multiple_eq δ
    rw [show before = δ from hu.before, hu.predicted, hhalf, hquarter, hfourfold]
    refine ⟨⟨fun ha => .inl ((hu.rejected_iff h).1 ha), ?_⟩, fun ha => ?_, fun ha => ?_⟩
    · rintro (hle | hfinite)
      · exact (hu.rejected_iff h).2 hle
      · exact rejected_of_not_finite hfinite
    · obtain ⟨ρ, hρ, hpos, hle⟩ := hu.radius_of_rejected h ha
      rw [hρ]
      exact ⟨Exact.coe_pos.2 hpos, Exact.coe_le.2 hle⟩
    · obtain ⟨ρ, hρ, hge, hle, hgood⟩ := hu.radius_of_accepted ha
      rw [hρ]
      exact ⟨Exact.coe_le.2 hge, Exact.coe_le.2 hle, fun hg => Exact.coe_le.2 (hgood hg)⟩
  · obtain ⟨ρ, hρ, -⟩ := h.radius
    obtain ⟨hready, ρ', hρ', hle⟩ := h.iterate_of_rejected hρ hrej
    obtain ⟨ρ'', hρ'', hpos⟩ := hready.radius
    refine ⟨by rw [hρ'']; exact Exact.coe_pos.2 hpos, ?_⟩
    rw [hρ', hρ, ← Exact.coe_mul]
    exact Exact.coe_le.2 hle

/-- One variable without bounds, which is its own objective. -/
noncomputable def linear : Minimizer Exact 1 Unit where
  box := .unbounded
  options := .default
  problem :=
    { value := fun x => x.get 0
      auxiliary := fun _ => ()
      blank := ()
      gradient := fun _ => (#v[1] : Vector ℝ 1)
      product := fun _ _ => (0 : Vector ℝ 1) }

theorem convex_linear : linear.Convex where
  gradient := fun _ _ => Exact.allFinite_iff.2 ⟨_, rfl⟩
  product := fun _ _ => ⟨0, fun x y => by simp [dot_zero_left, dot_zero_right], fun x => (dot_zero_right x).ge,
    fun _ => rfl⟩

theorem norm_unit : norm (#v[1] : Vector ℝ 1) = 1 := by
  have h : dot (#v[1] : Vector ℝ 1) #v[1] = 1 := by simp [dot_eq_sum, get_eq_getElem]
  rw [norm, h, sqrt_real, Real.sqrt_one]

theorem base_linear : (linear.subproblem (linear.start (0 : Vector ℝ 1))).base = (0 : Vector ℝ 1) :=
  Box.project_of_contains (Box.contains_unbounded 0)

theorem extends_linear : (linear.subproblem (linear.start (0 : Vector ℝ 1))).Extends ⟨#v[1], fun _ => 0⟩ where
  model := ⟨rfl, fun _ => rfl⟩
  base := by
    rw [base_linear]
    exact Box.contains_unbounded 0

theorem radius_linear : (linear.start (0 : Vector ℝ 1)).radius = (1 : ℝ) := by
  have hgrad : (linear.start (0 : Vector ℝ 1)).gradient = (#v[1] : Vector ℝ 1) := rfl
  show (if 0 < norm (linear.start (0 : Vector ℝ 1)).gradient then
    norm (linear.start (0 : Vector ℝ 1)).gradient else 1) = _
  rw [hgrad, ← Exact.coe_norm, norm_unit]
  exact if_pos (Exact.coe_pos.2 one_pos)

theorem effective_linear : linear.box.effective (0 : Vector ℝ 1) #v[1] ≠ 0 := by
  have habove : linear.box.lower.get 0 < ((0 : Vector ℝ 1).get 0 : Exact) := by
    rw [show linear.box.lower.get 0 = .bot from Box.lower_unbounded 0]; trivial
  have hpos : 0 < (linear.box.effective (0 : Vector ℝ 1) #v[1]).get 0 :=
    (Box.effective_pos_iff (Box.contains_unbounded 0)).2 ⟨show (0 : ℝ) < 1 from one_pos, habove⟩
  exact Box.effective_ne_zero hpos.ne'

theorem uncapped_linear : linear.Uncapped (linear.start (0 : Vector ℝ 1)) := by
  have hM := extends_linear
  constructor
  · refine Subproblem.cauchyUncapped_of_short hM base_linear 1 (A := 0) (L := 0) (fun _ => rfl) (fun v => ?_) le_rfl
      radius_linear (μ := 0.01) rfl effective_linear one_pos (show (0 : Int) < 50 by decide) ?_ ?_
    · rw [LinearMap.zero_apply, dot_zero_right, zero_mul]
    · rw [norm_unit, mul_one]
      exact div_le_one_of_le₀ (one_le_pow₀ (by norm_num)) (by positivity)
    · norm_num
  · obtain ⟨t, ht⟩ := Subproblem.exists_cauchyFound hM one_pos
    show (linear.subproblem _).FacesUncapped linear.faceLimits ((linear.subproblem _).cauchyStep (1 : ℝ)).step
    rw [ht.step_eq]
    exact Subproblem.facesUncapped_unbounded hM (Box.contains_add_shift hM.base _ _) radius_linear rfl base_linear
      (μ := 0.01) rfl (show (0 : Int) < 50 by decide) _

/-- The linear objective, which is no number below zero. -/
noncomputable def cliff : Minimizer Exact 1 Unit :=
  { linear with
    problem := { linear.problem with
      value := fun x => if 0 ≤ linear.problem.value x then linear.problem.value x else .nan } }

theorem extends_cliff : (cliff.subproblem (cliff.start (0 : Vector ℝ 1))).Extends ⟨#v[1], fun _ => 0⟩ :=
  extends_linear

theorem convex_cliff : cliff.Convex := ⟨convex_linear.gradient, convex_linear.product⟩

theorem regular_cliff : cliff.Regular (cliff.start (0 : Vector ℝ 1)) := by
  refine regular_start convex_cliff (Box.contains_unbounded 0) 0 ?_
  rw [show cliff.box.project (0 : Vector ℝ 1) = (0 : Vector ℝ 1) from base_linear]
  have hvalue : linear.problem.value (0 : Vector ℝ 1) = (0 : ℝ) :=
    (Exact.get_coe 0 0).trans (Exact.coe_inj.2 (get_zero 0))
  show IsFinite (if 0 ≤ linear.problem.value _ then linear.problem.value _ else _)
  rw [hvalue, if_pos (show (0 : Exact) ≤ (0 : ℝ) from Exact.coe_le.2 le_rfl)]
  exact Exact.isFinite_coe 0

theorem ready_cliff : cliff.Ready (cliff.start (0 : Vector ℝ 1)) ⟨#v[1], fun _ => 0⟩ where
  subproblem := extends_cliff
  value := regular_cliff.value
  radius := by
    obtain ⟨ρ, hρ, -⟩ := regular_cliff.radius
    exact ⟨ρ, hρ, Exact.coe_pos.1 (hρ ▸ regular_cliff.radius_pos)⟩
  cauchyLength := ⟨1, rfl⟩

theorem predictedReduction_cliff : 0 < (cliff.advance (cliff.start (0 : Vector ℝ 1))).predictedReduction :=
  (regular_cliff.descends convex_cliff (Exact.coe_lt.2 (by norm_num)) (Exact.coe_lt.2 (by norm_num))
    uncapped_linear).predicted

/-- The model falls to the left only. -/
theorem trialValue_cliff : cliff.trialValue (cliff.start (0 : Vector ℝ 1)) = .nan := by
  obtain ⟨t, d, hf⟩ := regular_cliff.toSound.exists_finds extends_cliff
  have hpred := predictedReduction_cliff
  have hdot : dot (#v[1] : Vector ℝ 1) d = d.get 0 := by simp [dot_eq_sum, get_eq_getElem]
  rw [hf.predictedReduction extends_cliff, Exact.coe_pos, Model.value_eq, dot_zero_right, hdot] at hpred
  have hneg : ¬ 0 ≤ (cliff.trialStep (cliff.start (0 : Vector ℝ 1))).point.get 0 := by
    rw [hf.point_real base_linear, zero_add, Exact.get_coe]
    exact fun h => (Exact.coe_le.1 h).not_gt (by linarith)
  exact if_neg hneg

theorem advance_adapts_radius_cliff :
    let s := cliff.start (0 : Vector ℝ 1)
    ¬ IsFinite (cliff.trialValue s) ∧ (cliff.advance s).accepted = false ∧ 0 < (cliff.advance s).predictedReduction ∧
      (cliff.advance s).radius ≤ 0.5 * radiusBefore s (norm (cliff.trialStep s).step) ∧
      0 < (cliff.advance^[1] s).radius ∧ ((2 ^ 1 : ℝ) : Exact) * (cliff.advance^[1] s).radius ≤ s.radius := by
  intro s
  have hnan : ¬ IsFinite (cliff.trialValue s) := by
    rw [trialValue_cliff]
    exact fun h => h.1
  obtain ⟨hstep, hrun⟩ := advance_adapts_radius ready_cliff
  obtain ⟨hiff, hhalf, -⟩ := hstep predictedReduction_cliff
  have hrejected := hiff.2 (.inr hnan)
  refine ⟨hnan, hrejected, predictedReduction_cliff, (hhalf hrejected).2, hrun 1 fun i hi => ?_⟩
  rw [Nat.lt_one_iff.1 hi]
  exact ⟨hrejected, predictedReduction_cliff⟩

end BoxNewton.Minimizer
