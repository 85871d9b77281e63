/-
What the minimizer spends at most, over any scalars and for any problem. An iteration pays for one Cauchy step, one
minimization over faces and the product that prices the step, each within its own budget; so what a run has spent
is at most a fixed price for every iteration (`run_spends`).
-/
import BoxNewton.Proofs.Minimizer.Step
import BoxNewton.Proofs.Subproblem.Budget

namespace BoxNewton.Minimizer

variable {α : Type} [ExtendedScalar α] {n : ℕ} {β : Type}

/-! ## One iteration -/

section Iteration

variable (m : Minimizer α n β) (s : State α n β)

theorem totalIterations_advance_le :
    (m.advance s).totalIterations ≤ s.totalIterations + 2 * m.faceLimits.maxIterations.toNat :=
  Nat.add_le_add_left ((m.subproblem s).minimizeFaces_spends m.faceLimits (m.cauchyStep s).step).2.1 _

theorem products_advance_le :
    (m.advance s).products ≤ s.products + (3 + 2 * m.faceLimits.maxIterations.toNat +
      m.options.rule.maxTrials.toNat + n * (m.options.rule.maxTrials.toNat + 1)) := by
  have hproducts : (m.advance s).products =
      s.products + (m.cauchyStep s).products + (m.trialStep s).products + 1 := rfl
  have hcauchy : (m.cauchyStep s).products ≤ m.options.rule.maxTrials.toNat + 1 :=
    (m.subproblem s).products_cauchyStep_le s.cauchyLength
  obtain ⟨-, hiterations, -, hrefined⟩ :
      _ ∧ (m.trialStep s).iterations ≤ 2 * m.faceLimits.maxIterations.toNat ∧ _ ∧
        (m.trialStep s).products ≤ 1 + (m.trialStep s).iterations + n * (m.options.rule.maxTrials.toNat + 1) :=
    (m.subproblem s).minimizeFaces_spends m.faceLimits (m.cauchyStep s).step
  omega

end Iteration

/-! ## Runs -/

/-- Over any scalars, whatever their comparisons say: a minimization over faces visits at most as many faces as there
are coordinates, stays within twice the limit on iterations, pays for its iterations, and for the trials and
the step of every face, and ends with a reason. So a run of the minimizer pays at most a fixed price for an iteration.
Limits below zero count as zero. -/
theorem run_spends {α : Type} [ExtendedScalar α] {n : ℕ} :
    (∀ (p : Subproblem α n) (l : FaceLimits α) (s : Vector α n),
      (p.faceRun l s).steps ≤ n ∧
      (p.minimizeFaces l s).iterations ≤ 2 * l.maxIterations.toNat ∧
      1 ≤ (p.minimizeFaces l s).products ∧
      (p.minimizeFaces l s).products ≤ 1 + (p.minimizeFaces l s).iterations + n * (p.rule.maxTrials.toNat + 1) ∧
      ((p.minimizeFaces l s).status = .converged ∨ (p.minimizeFaces l s).status = .trustRegion ∨
        (p.minimizeFaces l s).status = .iterationLimit)) ∧
    ∀ {β : Type} (m : Minimizer α n β) (y : Vector α n) (k : ℕ),
      let limit := (m.options.maxIterations.getD n).toNat
      let trials := m.options.rule.maxTrials.toNat
      (m.stateAt y k).stepCount = k ∧
      (m.stateAt y k).totalIterations ≤ 2 * limit * k ∧
      (m.stateAt y k).products ≤ k * (3 + 2 * limit + trials + n * (trials + 1)) := by
  constructor
  · intro p l s
    obtain ⟨hfaces, hiterations, hpos, hproducts⟩ := p.minimizeFaces_spends l s
    exact ⟨hfaces, hiterations, hpos, hproducts, p.minimizeFaces_ends l s⟩
  · intro β m y k limit trials
    refine ⟨m.stepCount_stateAt y k, ?_⟩
    induction k with
    | zero => exact ⟨Nat.le_refl 0, Nat.zero_le _⟩
    | succ k ih =>
      obtain ⟨htotal, hproducts⟩ := ih
      rw [stateAt_succ]
      constructor
      · rw [Nat.mul_succ]
        exact (m.totalIterations_advance_le _).trans (Nat.add_le_add_right htotal _)
      · rw [Nat.succ_mul]
        exact (m.products_advance_le _).trans (Nat.add_le_add_right hproducts _)

end BoxNewton.Minimizer
