/-
One iteration of the minimizer. What it makes of a state is read off for an accepted and a rejected
trial (`advance_of_accepted`, `advance_of_rejected`). In exact arithmetic an iteration from a `Sound`
state finds a real step to a point of the box, whatever the objective returns there, and the next
state is sound again.
-/
import BoxNewton.Minimizer.Step
import BoxNewton.Proofs.Subproblem.Cauchy
import BoxNewton.Proofs.Subproblem.Faces
import BoxNewton.Proofs.TrustRegion.Radius

namespace BoxNewton.Minimizer

/-! ## The parts of the next state -/

section Parts

variable {α : Type} [ExtendedScalar α] {n : ℕ} {β : Type}

/-- The step that an iteration tries. -/
def trialStep (m : Minimizer α n β) (s : State α n β) : FaceStep α n := m.refinedStep s (m.cauchyStep s)

/-- The objective where the step leads. -/
def trialValue (m : Minimizer α n β) (s : State α n β) : α := m.problem.value (m.trialStep s).point

variable (m : Minimizer α n β) (s : State α n β)

theorem actualReduction_advance :
    (m.advance s).actualReduction = Minimizer.actualReduction s.value (m.trialValue s) := rfl

theorem predictedReduction_advance :
    (m.advance s).predictedReduction = -(m.subproblem s).model.value (m.trialStep s).step := rfl

theorem radius_advance : (m.advance s).radius =
    TrustRegion.updateRadius (radiusBefore s (norm (m.trialStep s).step)) (m.advance s).actualReduction
      (m.advance s).predictedReduction (norm (m.trialStep s).step)
      (TrustRegion.stepRatio s.value
        (if IsFinite (m.trialValue s) then m.trialValue s else ExtendedScalar.infinity)
        ((m.subproblem s).model.slope (m.trialStep s).step)) := rfl

theorem accepted_advance_iff : (m.advance s).accepted = true ↔
    Acceptable (m.advance s).actualReduction (m.advance s).predictedReduction :=
  decide_eq_true_iff

/-- What the state after an accepted trial holds belongs to the trial point. -/
structure TakesTrial (s' : State α n β) : Prop where
  point : s'.point = (m.trialStep s).point
  value : s'.value = m.trialValue s
  gradient : s'.gradient = m.problem.gradient (m.trialStep s).point
  auxiliary : s'.auxiliary = m.problem.auxiliary (m.trialStep s).point
  acceptedSteps : s'.acceptedSteps = s.acceptedSteps + 1
  gradients : s'.gradients = s.gradients + 1

/-- The state after a rejected trial stands at the projected point, and nothing that belongs to it has
changed. -/
structure KeepsPoint (s' : State α n β) : Prop where
  point : s'.point = m.box.project s.point
  value : s'.value = s.value
  gradient : s'.gradient = s.gradient
  auxiliary : s'.auxiliary = s.auxiliary
  initialNorm : s'.initialNorm = s.initialNorm
  acceptedSteps : s'.acceptedSteps = s.acceptedSteps
  gradients : s'.gradients = s.gradients

variable {m s}

theorem advance_of_accepted (h : (m.advance s).accepted = true) : m.TakesTrial s (m.advance s) :=
  ⟨if_pos h, if_pos h, if_pos h, if_pos h, if_pos h, if_pos h⟩

theorem advance_of_rejected (h : (m.advance s).accepted = false) : m.KeepsPoint s (m.advance s) :=
  have h' : ¬ (m.advance s).accepted = true := by rw [h]; exact Bool.false_ne_true
  ⟨if_neg h', if_neg h', if_neg h', if_neg h', rfl, if_neg h', if_neg h'⟩

/-- The state after `k` iterations from `y`. -/
def stateAt (m : Minimizer α n β) (y : Vector α n) (k : ℕ) : State α n β := m.advance^[k] (m.start y)

theorem stateAt_succ (m : Minimizer α n β) (y : Vector α n) (k : ℕ) :
    m.stateAt y (k + 1) = m.advance (m.stateAt y k) :=
  Function.iterate_succ_apply' ..

theorem stepCount_stateAt (m : Minimizer α n β) (y : Vector α n) (k : ℕ) : (m.stateAt y k).stepCount = k := by
  induction k with
  | zero => rfl
  | succ k ih =>
    rw [stateAt_succ, Nat.cast_succ, ← ih]; rfl

end Parts

/-! ## Exact arithmetic -/

variable {n : ℕ} {β : Type} {m : Minimizer Exact n β} {s : State Exact n β} {M : Model ℝ n}

theorem rejected_of_not_finite (h : ¬ IsFinite (m.trialValue s)) : (m.advance s).accepted = false := by
  rw [← Bool.not_eq_true, accepted_advance_iff, actualReduction_advance, Minimizer.actualReduction, if_neg h]
  -- nothing lies below the negative infinity
  unfold Acceptable
  cases TrustRegion.acceptance * (m.advance s).predictedReduction <;> exact id

/-- An accepted trial realizes a part of a positive prediction. -/
theorem trialValue_lt_of_accepted (ha : (m.advance s).accepted = true) {v π : ℝ} (hv : s.value = v)
    (hπ : (m.advance s).predictedReduction = π) (hpos : 0 < π) : ∃ v' : ℝ, m.trialValue s = v' ∧ v' < v := by
  have hfin : IsFinite (m.trialValue s) := by
    by_contra hno
    rw [rejected_of_not_finite hno] at ha
    cases ha
  obtain ⟨v', hv'⟩ := Exact.isFinite_iff.1 hfin
  have hacc := (accepted_advance_iff m s).1 ha
  rw [actualReduction_advance, Minimizer.actualReduction, if_pos hfin, hv', hv, ← Exact.coe_sub, hπ] at hacc
  have hlt : (1e-4 : ℝ) * π < v - v' := hacc
  exact ⟨v', hv', by nlinarith⟩

/-- What an iteration relies on: the projected point lies in the box, and the data of the subproblem
are real, with a radius that is not negative. -/
structure Sound (m : Minimizer Exact n β) (s : State Exact n β) : Prop where
  contains : m.box.Contains (m.box.project s.point)
  gradient : ∃ g : Vector ℝ n, s.gradient = g
  radius : ∃ ρ : ℝ, s.radius = ρ ∧ 0 ≤ ρ
  cauchyLength : ∃ t : ℝ, s.cauchyLength = t ∧ 0 < t

theorem sound_start {y : Vector Exact n} (hb : ∀ i, m.box.lower.get i ≤ m.box.upper.get i)
    (hy : ∀ i, y.get i ≠ .nan) (hg : allFinite (m.problem.gradient (m.box.project y)) = true) :
    m.Sound (m.start y) where
  contains := Box.contains_project hb hy
  gradient := Exact.allFinite_iff.1 hg
  radius := by
    obtain ⟨g, hg⟩ := Exact.allFinite_iff.1 hg
    refine ⟨if 0 < norm g then norm g else 1, ?_, ?_⟩
    · show (if 0 < norm (m.problem.gradient _) then norm (m.problem.gradient (m.box.project y)) else 1) = _
      rw [hg, ← Exact.coe_norm]
      simp only [Exact.coe_pos]
      split <;> rfl
    · split
      · exact norm_nonneg g
      · exact zero_le_one
  cauchyLength := ⟨1, rfl, one_pos⟩

/-- What an iteration finds: a Cauchy step of length `t`, refined to the real step `d`, which leads to a
point of the box. -/
structure Finds (m : Minimizer Exact n β) (s : State Exact n β) (M : Model ℝ n) (t : ℝ) (d : Vector ℝ n) :
    Prop where
  cauchy : Subproblem.CauchyFound (m.subproblem s) M s.cauchyLength t
  step_eq : (m.trialStep s).step = d
  point_eq : (m.trialStep s).point = m.box.project s.point + (d : Vector Exact n)
  contains : m.box.Contains (m.trialStep s).point

/-- Whatever step on the path of steepest descent the faces start from, a real step refines it. -/
theorem exists_refined (hM : (m.subproblem s).Extends M) {ρ t : ℝ} (hρ : s.radius = ρ)
    (ht : (m.cauchyStep s).step = (m.subproblem s).box.descend (m.subproblem s).base M.gradient t) :
    ∃ d : Vector ℝ n, (m.trialStep s).step = d ∧
      (m.trialStep s).point = m.box.project s.point + (d : Vector Exact n) ∧ m.box.Contains (m.trialStep s).point := by
  have hin : m.box.Contains (m.box.project s.point +
      ((m.subproblem s).box.descend (m.subproblem s).base M.gradient t : Vector Exact n)) :=
    Box.contains_add_shift hM.base M.gradient (-t)
  have hd := Subproblem.exists_minimizeFaces hM hin hρ m.faceLimits
  rwa [← ht] at hd

theorem Sound.exists_finds (h : m.Sound s) (hM : (m.subproblem s).Extends M) : ∃ t d, Finds m s M t d := by
  obtain ⟨ρ, hρ, -⟩ := h.radius
  obtain ⟨t₀, ht₀, hpos⟩ := h.cauchyLength
  obtain ⟨t, ht⟩ := Subproblem.exists_cauchyFound hM hpos
  rw [← ht₀] at ht
  obtain ⟨d, hd, hp, hc⟩ := exists_refined hM hρ ht.step_eq
  exact ⟨t, d, ht, hd, hp, hc⟩

/-- From a real length, whatever its sign, the step tried is real. -/
theorem exists_trialStep (hM : (m.subproblem s).Extends M) {ρ t₀ : ℝ} (hρ : s.radius = ρ)
    (ht₀ : s.cauchyLength = t₀) :
    ∃ d : Vector ℝ n, (m.trialStep s).step = d ∧ ∃ t : ℝ, (m.advance s).cauchyLength = t := by
  obtain ⟨t, ht⟩ := Subproblem.exists_best (m.subproblem s) t₀
  rw [← ht₀] at ht
  obtain ⟨d, hd, -⟩ := exists_refined hM hρ (Subproblem.step_cauchyStep hM ht)
  exact ⟨d, hd, t, ht⟩

section Trial

variable {d : Vector ℝ n} (hM : (m.subproblem s).Extends M) (hd : (m.trialStep s).step = d)

include hM hd

theorem predictedReduction_of_step : (m.advance s).predictedReduction = (-M.value d : ℝ) := by
  rw [predictedReduction_advance, hd, hM.model.value, Exact.coe_neg]

theorem radius_of_step : ∃ ratio : ℝ, (m.advance s).radius =
    TrustRegion.updateRadius (radiusBefore s (norm d : ℝ)) (m.advance s).actualReduction
      (m.advance s).predictedReduction (norm d : ℝ) ratio := by
  obtain ⟨ratio, hratio⟩ := TrustRegion.exists_stepRatio s.value
    (if IsFinite (m.trialValue s) then m.trialValue s else ExtendedScalar.infinity) (M.slope d)
  exact ⟨ratio, by rw [radius_advance, hd, hM.model.slope, hratio, ← Exact.coe_norm]⟩

end Trial

section Finds

variable {t : ℝ} {d : Vector ℝ n} (hM : (m.subproblem s).Extends M) (hf : Finds m s M t d)

include hM hf in
theorem Finds.predictedReduction : (m.advance s).predictedReduction = (-M.value d : ℝ) :=
  predictedReduction_of_step hM hf.step_eq

theorem exists_radiusBefore {ρ : ℝ} (hρ : s.radius = ρ) (length : ℝ) :
    ∃ ρ' : ℝ, radiusBefore s (length : Exact) = ρ' ∧
      (0 ≤ ρ → 0 ≤ length → 0 ≤ ρ') ∧ (0 < ρ → 0 < length → 0 < ρ') := by
  unfold radiusBefore
  rw [hρ, ← Exact.coe_lesser]
  split
  · exact ⟨_, rfl, le_min, lt_min⟩
  · exact ⟨_, rfl, fun h _ => h, fun h _ => h⟩

include hM hf in
theorem Finds.radius_eq : ∃ ratio : ℝ, (m.advance s).radius =
    TrustRegion.updateRadius (radiusBefore s (norm d : ℝ)) (m.advance s).actualReduction
      (m.advance s).predictedReduction (norm d : ℝ) ratio :=
  radius_of_step hM hf.step_eq

include hM hf in
theorem Finds.exists_radius {ρ : ℝ} (hρ : s.radius = ρ) :
    ∃ ρ' : ℝ, (m.advance s).radius = ρ' ∧ (0 ≤ ρ → 0 ≤ ρ') ∧ (0 < ρ → 0 < norm d → 0 < ρ') := by
  obtain ⟨ratio, hradius⟩ := hf.radius_eq hM
  obtain ⟨ρ₁, hρ₁, hnonneg₁, hpos₁⟩ := exists_radiusBefore hρ (norm d)
  obtain ⟨ρ₂, hρ₂, hnonneg₂, hpos₂⟩ := TrustRegion.exists_updateRadius ρ₁ (norm d) ratio
    (m.advance s).actualReduction (m.advance s).predictedReduction
  have hd := norm_nonneg d
  exact ⟨ρ₂, by rw [hradius, hρ₁, hρ₂], fun h => hnonneg₂ (hnonneg₁ h hd) hd, fun h hd => hpos₂ (hpos₁ h hd) hd⟩

include hf in
theorem Finds.contains_advance (h : m.Sound s) : m.box.Contains (m.advance s).point := by
  cases ha : (m.advance s).accepted with
  | true =>
    rw [(advance_of_accepted ha).point]
    exact hf.contains
  | false =>
    rw [(advance_of_rejected ha).point]
    exact h.contains

include hM hf in
/-- An iteration keeps soundness, if the gradient at the point it tries is finite. -/
theorem Finds.sound_advance (h : m.Sound s)
    (hg : allFinite (m.problem.gradient (m.trialStep s).point) = true) : m.Sound (m.advance s) where
  contains := by
    have hin := hf.contains_advance h
    rwa [Box.project_of_contains hin]
  gradient := by
    cases ha : (m.advance s).accepted with
    | true =>
      rw [(advance_of_accepted ha).gradient]
      exact Exact.allFinite_iff.1 hg
    | false =>
      rw [(advance_of_rejected ha).gradient]
      exact h.gradient
  radius := by
    obtain ⟨ρ, hρ, h0⟩ := h.radius
    obtain ⟨ρ', hρ', hnonneg, -⟩ := hf.exists_radius hM hρ
    exact ⟨ρ', hρ', hnonneg h0⟩
  cauchyLength := ⟨t, hf.cauchy.length_eq, hf.cauchy.pos⟩

end Finds

end BoxNewton.Minimizer
