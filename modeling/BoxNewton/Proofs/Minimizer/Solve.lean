/-
Whole solves. A solve asks its tests about the point before the iteration (`continues_iterate_proceed_iff`), and what it
hands over as auxiliary output belongs to the point it returns as soon as one iteration was made, and is a placeholder
before (`solve_auxiliary_iff`).
-/
import BoxNewton.Minimizer.Solve
import BoxNewton.Proofs.Exact.Laws
import BoxNewton.Proofs.Minimizer.Consistency

namespace BoxNewton

variable {n : ℕ} {β : Type}

/-! ## Points that are their own projections -/

theorem Box.project_project (b : Box Exact n) (x : Vector Exact n) : b.project (b.project x) = b.project x :=
  ext_get fun i => by
    simp only [Box.get_project]
    exact Exact.clip_clip _ _ _

theorem Box.project_select {b : Box Exact n} {x y : Vector Exact n} (m : Mask n) (hx : b.project x = x)
    (hy : b.project y = y) : b.project (m.select x y) = m.select x y :=
  ext_get fun i => by
    have hxi := congrArg (·.get i) hx
    have hyi := congrArg (·.get i) hy
    rw [Box.get_project, Mask.get_select]
    cases m.get i with
    | true => rwa [Box.get_project] at hxi
    | false => rwa [Box.get_project] at hyi

theorem Subproblem.project_minimizeFaces (p : Subproblem Exact n) (l : FaceLimits Exact) (s : Vector Exact n) :
    p.box.project (p.minimizeFaces l s).point = (p.minimizeFaces l s).point := by
  show p.box.project (p.faceRun l s).state.point = (p.faceRun l s).state.point
  refine advanceWhile_induction (P := fun f : FacePoint Exact n => p.box.project f.point = f.point) (fun f hf _ => ?_) n
    (p.box.project_project (p.base + s))
  unfold Subproblem.advanceFace
  split
  · exact Box.project_select (p.free f) (p.box.project_project _) hf
  · exact hf

namespace Minimizer

variable (m : Minimizer Exact n β) (s : State Exact n β)

theorem project_advance : m.box.project (m.advance s).point = (m.advance s).point := by
  cases ha : (m.advance s).accepted with
  | true =>
    rw [(advance_of_accepted ha).point]
    exact (m.subproblem s).project_minimizeFaces m.faceLimits (m.cauchyStep s).step
  | false =>
    rw [(advance_of_rejected ha).point]
    exact m.box.project_project s.point

/-! ## What a solve asks -/

/-- What the tests of a solve look at after `k` iterations from `y`: the state that the last one led to, but the
point that it started from. -/
noncomputable def asked (y : Vector Exact n) : ℕ → Progress Exact n
  | 0 => (m.start y).toProgress
  | k + 1 => { (m.stateAt y (k + 1)).toProgress with point := (m.stateAt y k).point }

/-- After `k` iterations from `y` a solve sees no reason to stop, and the point it asks about is finite. -/
def GoesOn (y : Vector Exact n) (k : ℕ) : Prop :=
  m.status (m.asked y k) = .running ∧ allFinite (m.asked y k).point = true

theorem continues_iff : m.continues s = true ↔ m.status s.toProgress = .running := beq_iff_eq

theorem continues_check_iff (p : Progress Exact n) (a : β) :
    (Pending.mk s a (m.check p)).continues = true ↔ m.status p = .running ∧ allFinite p.point = true := by
  unfold Pending.continues check Setting.verdict
  dsimp only
  cases m.status p <;> cases allFinite p.point <;> decide

/-- What a loop hands over after `k` iterations from `y`: the auxiliary output of the last, and the
placeholder where none was made. -/
noncomputable def handedOver (y : Vector Exact n) : ℕ → β
  | 0 => m.problem.blank
  | k + 1 => (m.stateAt y (k + 1)).auxiliary

theorem iterate_proceed (y : Vector Exact n) (k : ℕ) :
    (m.proceed^[k] (m.enter y)).state = m.stateAt y k ∧ (m.proceed^[k] (m.enter y)).auxiliary = m.handedOver y k := by
  induction k with
  | zero => exact ⟨rfl, rfl⟩
  | succ k ih =>
    rw [Function.iterate_succ_apply', handedOver, stateAt_succ, ← ih.1]
    exact ⟨rfl, rfl⟩

theorem continues_iterate_proceed_iff (y : Vector Exact n) (k : ℕ) :
    (m.proceed^[k] (m.enter y)).continues = true ↔ m.GoesOn y k := by
  cases k with
  | zero => exact m.continues_check_iff _ _ _
  | succ k =>
    rw [Function.iterate_succ_apply', proceed, (m.iterate_proceed y k).1, ← stateAt_succ]
    exact m.continues_check_iff _ _ _

theorem goesOn_zero_iff (y : Vector Exact n) :
    m.GoesOn y 0 ↔ m.continues (m.start y) = true ∧ allFinite y = true :=
  and_congr_left' (m.continues_iff _).symm

/-! ## The front end -/

/-- What is reported of a last state: it is read out, and no reason to stop counts as used-up steps. -/
noncomputable def report (a : β) : Summary Exact n β :=
  let r := m.summarize s a
  { r with status := if r.status = .running then .stepLimit else r.status }

section Front

variable (x : Vector Exact n)

theorem state_solveRun :
    (m.solveRun x).state.state = m.stateAt (m.box.project x) (m.solveRun x).steps ∧
      (m.solveRun x).state.auxiliary = m.handedOver (m.box.project x) (m.solveRun x).steps := by
  have hlast : (m.solveRun x).state = m.proceed^[(m.solveRun x).steps] (m.enter (m.box.project x)) :=
    state_advanceWhile ..
  rw [hlast]
  exact m.iterate_proceed _ _

theorem toSummary_solve : (m.solve x).toSummary =
    m.report (m.stateAt (m.box.project x) (m.solveRun x).steps)
      (m.handedOver (m.box.project x) (m.solveRun x).steps) := by
  rw [← (m.state_solveRun x).1, ← (m.state_solveRun x).2]; rfl

end Front

/-! ## The auxiliary output -/

theorem consistent_iterate (y : Vector Exact n) (k : ℕ) : m.Consistent (m.stateAt y k) := by
  induction k with
  | zero => exact consistent_start m y
  | succ k ih =>
    rw [stateAt_succ]
    exact ih.advance_of_project (m.project_advance _)

/-- What is read out after `k` iterations. Its auxiliary output belongs to its point if and only if an
iteration was made, or the placeholder happens to be right for the start. -/
theorem summarize_auxiliary_iff (y : Vector Exact n) (k : ℕ) :
    (m.summarize (m.stateAt y k) (m.handedOver y k)).auxiliary =
        m.problem.auxiliary (m.summarize (m.stateAt y k) (m.handedOver y k)).point ↔
      0 < k ∨ m.problem.blank = m.problem.auxiliary (m.box.project y) := by
  cases k with
  | zero => exact (or_iff_right (lt_irrefl 0)).symm
  | succ k => exact iff_of_true (m.consistent_iterate y (k + 1)).auxiliary (.inl k.succ_pos)

/-- The auxiliary output of a solve belongs to the returned point if and only if an iteration was made, or
the placeholder happens to be right. No iteration is made if none is allowed, if there is a reason to stop
at the start, or if the start is not finite. -/
theorem solve_auxiliary_iff (x : Vector Exact n) :
    let y := m.box.project x
    let k := (m.solveRun x).steps
    (∀ j, (m.summarize (m.stateAt y j) (m.handedOver y j)).auxiliary =
        m.problem.auxiliary (m.summarize (m.stateAt y j) (m.handedOver y j)).point ↔
      0 < j ∨ m.problem.blank = m.problem.auxiliary y) ∧
    (m.solve x).toSummary = m.report (m.stateAt y k) (m.handedOver y k) ∧
    ((m.solve x).auxiliary = m.problem.auxiliary (m.solve x).point ↔
      0 < k ∨ m.problem.blank = m.problem.auxiliary y) ∧
    (k = 0 ↔ m.options.maxSteps ≤ 0 ∨ m.continues (m.start y) = false ∨ allFinite y = false) := by
  intro y k
  have hread := m.summarize_auxiliary_iff y
  rw [m.box.project_project x] at hread
  refine ⟨hread, m.toSummary_solve x, ?_, ?_⟩
  · have hauxiliary : (m.solve x).auxiliary = (m.report (m.stateAt y k) (m.handedOver y k)).auxiliary :=
      congrArg (·.auxiliary) (m.toSummary_solve x)
    have hpoint : (m.solve x).point = (m.report (m.stateAt y k) (m.handedOver y k)).point :=
      congrArg (·.point) (m.toSummary_solve x)
    rw [hauxiliary, hpoint]
    exact hread k
  · have hasks : (m.enter y).continues = true ↔ m.continues (m.start y) = true ∧ allFinite y = true :=
      (m.continues_iterate_proceed_iff y 0).trans (m.goesOn_zero_iff y)
    have hstops : (m.enter y).continues = false ↔ m.continues (m.start y) = false ∨ allFinite y = false := by
      rw [← Bool.not_eq_true, hasks, not_and_or, Bool.not_eq_true, Bool.not_eq_true]
    rw [← hstops, ← Int.toNat_eq_zero]
    exact steps_advanceWhile_eq_zero_iff

end Minimizer

end BoxNewton
