/-
What the searches of a subproblem spend at most, over any scalars: nothing is known of their arithmetic, so no
comparison need ever turn out well, and every loop is held by its own counter. A face may use the whole limit on
conjugate gradient iterations, and the sum is compared with that limit only afterwards. So the minimization over faces
goes on only from a sum within the limit, and ends within twice of it (`Spent.advanceFace`, `minimizeFaces_spends`).
-/
import BoxNewton.Proofs.Loop
import BoxNewton.Subproblem.Cauchy
import BoxNewton.Subproblem.Faces
import Mathlib.Tactic.SplitIfs

namespace BoxNewton

variable {α : Type} [Scalar α] {n : ℕ}

/-! ## One search -/

theorem ConjugateGradient.Problem.iterations_solve_le (p : Problem α n) (maxIterations : Int) :
    (p.solve maxIterations).iterations ≤ maxIterations.toNat :=
  steps_advanceWhile_le ..

theorem BoxedModel.products_projectedStep_le (q : BoxedModel α n) (r : SearchRule α) (w : Vector α n) :
    (q.projectedStep r w).products ≤ r.maxTrials.toNat :=
  steps_advanceWhile_le ..

namespace Subproblem

variable {p : Subproblem α n} {l : FaceLimits α}

theorem products_cauchyStep_le (p : Subproblem α n) (length : α) :
    (p.cauchyStep length).products ≤ p.rule.maxTrials.toNat + 1 := by
  have hsteps : (p.cauchySearch length).steps ≤ p.rule.maxTrials.toNat := by
    unfold cauchySearch
    split
    · exact steps_advanceWhile_le ..
    · exact steps_advanceWhile_le ..
  exact Nat.succ_le_succ hsteps

/-! ## The faces -/

/-- What was spent on `k` faces when the face `f` is reached. -/
structure Spent (p : Subproblem α n) (l : FaceLimits α) (k : ℕ) (f : FacePoint α n) : Prop where
  /-- Only the last face may have taken the sum of the iterations beyond the limit. -/
  running : f.status = .running → f.iterations ≤ l.maxIterations.toNat
  iterations : f.iterations ≤ 2 * l.maxIterations.toNat
  products_pos : 1 ≤ f.products
  products : f.products ≤ 1 + f.iterations + k * (p.rule.maxTrials.toNat + 1)

theorem spent_firstFace (p : Subproblem α n) (l : FaceLimits α) (s : Vector α n) : p.Spent l 0 (p.firstFace s) where
  running _ := Nat.zero_le _
  iterations := Nat.zero_le _
  products_pos := Nat.le_refl 1
  products := Nat.le_add_right ..

theorem Spent.leaveFace {k : ℕ} {f : FacePoint α n} (h : p.Spent l k f) (hrun : f.status = .running) :
    p.Spent l (k + 1) (p.leaveFace l f) := by
  have hdirection : (p.faceDirection l f).iterations ≤ l.maxIterations.toNat :=
    ConjugateGradient.Problem.iterations_solve_le ..
  have hsearch : (p.faceSearch f (p.faceDirection l f).iterate).products ≤ p.rule.maxTrials.toNat :=
    BoxedModel.products_projectedStep_le ..
  have hiterations : (p.leaveFace l f).iterations = f.iterations + (p.faceDirection l f).iterations := rfl
  have hproducts : (p.leaveFace l f).products = f.products + (p.faceDirection l f).iterations +
      (p.faceSearch f (p.faceDirection l f).iterate).products + 1 := rfl
  have hbefore := h.running hrun
  have hspent := h.products
  refine ⟨fun hgoes => ?_, by omega, by omega, ?_⟩
  · -- the face is left running only by a sum that passed the test after it
    rw [status_leaveFace] at hgoes
    split_ifs at hgoes with _ _ hused
    omega
  · rw [Nat.succ_mul]
    omega

theorem Spent.advanceFace {k : ℕ} {f : FacePoint α n} (h : p.Spent l k f) (hrun : f.status = .running) :
    p.Spent l (k + 1) (p.advanceFace l f) := by
  unfold Subproblem.advanceFace
  split
  · exact h.leaveFace hrun
  · refine ⟨fun hgoes => FaceStatus.noConfusion hgoes, h.iterations, h.products_pos, Nat.le_trans h.products ?_⟩
    rw [Nat.succ_mul]
    exact Nat.add_le_add_left (Nat.le_add_right ..) _

theorem spent_faceRun (p : Subproblem α n) (l : FaceLimits α) (s : Vector α n) :
    p.Spent l (p.faceRun l s).steps (p.faceRun l s).state :=
  advanceWhile_counted (fun _ _ h hrun => h.advanceFace (eq_of_beq hrun)) n (p.spent_firstFace l s)

/-- There are at most as many faces as coordinates, and as many products as iterations, trials and faces ask for. -/
theorem minimizeFaces_spends (p : Subproblem α n) (l : FaceLimits α) (s : Vector α n) :
    (p.faceRun l s).steps ≤ n ∧
    (p.minimizeFaces l s).iterations ≤ 2 * l.maxIterations.toNat ∧
    1 ≤ (p.minimizeFaces l s).products ∧
    (p.minimizeFaces l s).products ≤ 1 + (p.minimizeFaces l s).iterations + n * (p.rule.maxTrials.toNat + 1) := by
  have hfaces : (p.faceRun l s).steps ≤ n := steps_advanceWhile_le ..
  have h := p.spent_faceRun l s
  exact ⟨hfaces, h.iterations, h.products_pos,
    Nat.le_trans h.products (Nat.add_le_add_left (Nat.mul_le_mul_right _ hfaces) _)⟩

/-- A minimization over faces that was not ended by a face has a reason all the same. -/
theorem minimizeFaces_ends (p : Subproblem α n) (l : FaceLimits α) (s : Vector α n) :
    (p.minimizeFaces l s).status = .converged ∨ (p.minimizeFaces l s).status = .trustRegion ∨
      (p.minimizeFaces l s).status = .iterationLimit := by
  have hstatus : (p.minimizeFaces l s).status ≠ .running := by
    rw [status_minimizeFaces]
    split_ifs with hrun hfree
    · exact FaceStatus.noConfusion
    · exact FaceStatus.noConfusion
    · exact hrun
  cases h : (p.minimizeFaces l s).status with
  | running => exact absurd h hstatus
  | converged => exact .inl rfl
  | trustRegion => exact .inr (.inl rfl)
  | iterationLimit => exact .inr (.inr rfl)

end Subproblem

end BoxNewton
