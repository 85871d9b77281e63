/-
Whole solves, against iterating from the same start until there is a reason to stop. The minimizer sees a point only
through its projection, and from the first iteration on every point is its own, so a start outside the box may be
projected or not (`runFrom_settle`). But a solve asks its tests about the point before the iteration, and may go on
or stop where iterating does not. Both go through the same states as long as their tests agree
(`steps_solveRun_eq_iff`), which at each state comes down to one test at two points (`goesOn_iff_continues_iff`), and
both end with the same report if and only if the states are the same (`solve_follows_run_iff`). Without bounds they are
(`solve_of_unbounded`).
-/
import BoxNewton.Proofs.Minimizer.Exit
import BoxNewton.Proofs.Minimizer.Feasibility
import BoxNewton.Proofs.Minimizer.Quadratic
import BoxNewton.Proofs.Minimizer.Solve
import BoxNewton.Proofs.Subproblem.CauchySearch

namespace BoxNewton

variable {n : ℕ} {β : Type}

namespace Minimizer

variable (m : Minimizer Exact n β) (s : State Exact n β)

/-! ## Settled states -/

/-- The state with its point moved into the box. -/
noncomputable def settle : State Exact n β := { s with point := m.box.project s.point }

theorem start_project (y : Vector Exact n) : m.start (m.box.project y) = m.settle (m.start y) := by
  simp only [start, settle, m.box.project_project]

theorem advance_settle : m.advance (m.settle s) = m.advance s := by
  have h : m.box.project (m.settle s).point = m.box.project s.point := m.box.project_project s.point
  unfold advance refinedStep cauchyStep subproblem
  rw [h]; rfl

theorem settle_advance : m.settle (m.advance s) = m.advance s := by
  rw [settle, m.project_advance s]

theorem stationarity_settle : m.stationarity (m.settle s).toProgress = m.stationarity s.toProgress := by
  unfold Setting.stationarity
  show m.box.stationarity (m.box.project (m.box.project s.point)) s.gradient = _
  rw [m.box.project_project]

theorem status_settle : m.status (m.settle s).toProgress = m.status s.toProgress := by
  unfold Setting.status
  rw [m.stationarity_settle s]; rfl

theorem continues_settle : m.continues (m.settle s) = m.continues s := by
  unfold continues
  rw [m.status_settle s]

theorem summarize_settle (a : β) :
    m.summarize (m.settle s) a = { m.summarize s a with state := m.settle s } := by
  unfold summarize
  rw [m.status_settle s, m.stationarity_settle s]
  show Summary.mk (m.box.project (m.box.project s.point)) _ _ _ _ _ = _
  rw [m.box.project_project]; rfl

theorem runFrom_settle (k : ℕ) : m.runFrom k (m.settle s) = ⟨m.settle (m.runFrom k s).state, (m.runFrom k s).steps⟩ :=
  advanceWhile_map (m.continues_settle) (fun s => by rw [m.advance_settle, m.settle_advance]) k s

theorem visited_settle (k : ℕ) :
    visited m.continues m.advance k (m.settle s) = visited m.continues m.advance k s := by
  cases k with
  | zero => rfl
  | succ k =>
    unfold visited
    rw [m.continues_settle, m.advance_settle]

theorem settle_runFrom_start (x : Vector Exact n) (k : ℕ) :
    m.settle (m.runFrom k (m.start x)).state = m.stateAt (m.box.project x) (m.runFrom k (m.start x)).steps := by
  have hstate : (m.runFrom k (m.start (m.box.project x))).state =
      m.stateAt (m.box.project x) (m.runFrom k (m.start (m.box.project x))).steps := state_advanceWhile ..
  rwa [m.start_project, m.runFrom_settle] at hstate

theorem settle_cons_visited (x : Vector Exact n) (k : ℕ) :
    m.settle (m.start x) :: visited m.continues m.advance k (m.start x) =
      (List.range ((m.runFrom k (m.start x)).steps + 1)).map (m.stateAt (m.box.project x)) := by
  have hsteps := congrArg Run.steps (m.runFrom_settle (m.start x) k)
  unfold runFrom at hsteps ⊢
  rw [← m.visited_settle, ← hsteps, visited_eq_map, ← m.start_project, List.range_succ_eq_map, List.map_cons,
    List.map_map]
  rfl

/-! ## The budget -/

theorem status_ne_running_of_le {m : Setting Exact n} {p : Progress Exact n} (h : m.options.maxSteps ≤ p.stepCount) :
    m.status p ≠ .running :=
  fun hrun => (Setting.status_eq_running_iff.1 hrun).2 (.inr (.inr (.inr (.inl h))))

theorem maxSteps_le_of_status {m : Setting Exact n} {p : Progress Exact n} (h : m.status p = .stepLimit) :
    m.options.maxSteps ≤ p.stepCount := by
  unfold Setting.status at h
  dsimp only at h
  split_ifs at h
  assumption

/-- A run from a start that may use the whole budget of steps ends with a reason to stop. -/
theorem status_runFrom_ne_running (y : Vector Exact n) :
    m.status (m.runFrom m.options.maxSteps.toNat (m.start y)).state.toProgress ≠ .running := by
  rcases (steps_advanceWhile_le m.continues m.advance m.options.maxSteps.toNat (m.start y)).lt_or_eq with h | h
  · have hstop : m.continues (m.runFrom m.options.maxSteps.toNat (m.start y)).state = false :=
      test_advanceWhile_of_lt h
    simpa [continues] using hstop
  · have hlast : (m.runFrom m.options.maxSteps.toNat (m.start y)).state = m.stateAt y m.options.maxSteps.toNat :=
      (state_advanceWhile ..).trans (congrArg (m.stateAt y) h)
    have hcount := m.stepCount_stateAt y m.options.maxSteps.toNat
    rw [hlast]
    exact status_ne_running_of_le (by omega)

/-! ## The same states -/

/-- The tests of a solve agree with those of the state unless they differ on whether the projected gradient is small and
nothing else ends the run. -/
theorem goesOn_iff_continues_iff (y : Vector Exact n) (k : ℕ) :
    (m.GoesOn y k ↔ m.continues (m.stateAt y k) = true) ↔
      m.StopsAnyway (m.stateAt y k).toProgress ∨
        (¬ m.stationarity (m.asked y k) ≤ m.stopTolerance (m.asked y k) ∧ allFinite (m.asked y k).point = true ↔
          ¬ m.stationarity (m.stateAt y k).toProgress ≤ m.stopTolerance (m.stateAt y k).toProgress) := by
  have hanyway : m.StopsAnyway (m.asked y k) ↔ m.StopsAnyway (m.stateAt y k).toProgress := by cases k <;> rfl
  rw [GoesOn, continues_iff, Setting.status_eq_running_iff, Setting.status_eq_running_iff, hanyway]
  tauto

theorem report_of_status {a : β} (h : m.status s.toProgress ≠ .running) : m.report s a = m.summarize s a := by
  have h' : (m.summarize s a).status ≠ .running := h
  simp only [report, h', if_false]

section Front

variable (x : Vector Exact n)

theorem solveStates_eq_map :
    m.solveStates x = (List.range ((m.solveRun x).steps + 1)).map (m.stateAt (m.box.project x)) := by
  unfold solveStates
  dsimp only
  rw [visited_eq_map, List.map_map, List.range_succ_eq_map, List.map_cons, List.map_map]
  exact congrArg _ (List.map_congr_left fun k _ => (m.iterate_proceed _ (k + 1)).1)

theorem steps_solveRun_eq_iff :
    (m.solveRun x).steps = (m.runFrom m.options.maxSteps.toNat (m.start x)).steps ↔
      ∀ k < m.options.maxSteps.toNat,
        (∀ j < k, m.GoesOn (m.box.project x) j ∧ m.continues (m.stateAt (m.box.project x) j) = true) →
          (m.GoesOn (m.box.project x) k ↔ m.continues (m.stateAt (m.box.project x) k) = true) := by
  have hsteps := congrArg Run.steps (m.runFrom_settle (m.start x) m.options.maxSteps.toNat)
  rw [← m.start_project] at hsteps
  unfold runFrom at hsteps ⊢
  rw [← hsteps, solveRun, steps_advanceWhile_eq_iff]
  simp only [m.continues_iterate_proceed_iff]
  rfl

theorem solveStates_eq_iff :
    m.solveStates x = m.settle (m.start x) :: visited m.continues m.advance m.options.maxSteps.toNat (m.start x) ↔
      (m.solveRun x).steps = (m.runFrom m.options.maxSteps.toNat (m.start x)).steps := by
  rw [m.settle_cons_visited, m.solveStates_eq_map]
  refine ⟨fun h => ?_, fun h => by rw [h]⟩
  simpa using congrArg List.length h

theorem toSummary_solve_eq_iff :
    (m.solve x).toSummary =
        { m.summarize (m.runFrom m.options.maxSteps.toNat (m.start x)).state (m.solve x).auxiliary with
          state := m.settle (m.runFrom m.options.maxSteps.toNat (m.start x)).state } ↔
      (m.solveRun x).steps = (m.runFrom m.options.maxSteps.toNat (m.start x)).steps := by
  rw [← m.summarize_settle]
  have hlast := m.settle_runFrom_start x m.options.maxSteps.toNat
  have hstatus := m.status_runFrom_ne_running x
  rw [← m.status_settle, hlast] at hstatus
  rw [hlast]
  constructor
  · intro h
    -- the counter of the state tells the runs apart
    have hcount := congrArg (·.state.stepCount) ((m.toSummary_solve x).symm.trans h)
    have hsolve := m.stepCount_stateAt (m.box.project x) (m.solveRun x).steps
    have hrun := m.stepCount_stateAt (m.box.project x) (m.runFrom m.options.maxSteps.toNat (m.start x)).steps
    exact Int.ofNat_inj.1 (hsolve.symm.trans (hcount.trans hrun))
  · intro h
    have haux : (m.solve x).auxiliary = m.handedOver (m.box.project x) (m.solveRun x).steps :=
      (m.state_solveRun x).2
    rw [haux, toSummary_solve, h, m.report_of_status _ hstatus]

/-- Used-up steps are reported with steps left just where there was no reason to stop. -/
theorem status_solve_running_iff :
    m.status (m.solve x).state.toProgress = .running ↔
      (m.solve x).status = .stepLimit ∧ (m.solve x).state.stepCount < m.options.maxSteps := by
  have hstatus : (m.solve x).status = if m.status (m.solve x).state.toProgress = .running then .stepLimit
      else m.status (m.solve x).state.toProgress := rfl
  constructor
  · intro hrun
    refine ⟨hstatus.trans (if_pos hrun), not_le.1 fun hle => ?_⟩
    exact status_ne_running_of_le hle hrun
  · rintro ⟨hlimit, hlt⟩
    by_contra hrun
    rw [hstatus, if_neg hrun] at hlimit
    exact absurd (maxSteps_le_of_status hlimit) (not_le.2 hlt)

/-- A solve goes through the states that iterating from the start itself goes through, the first one settled, if and
only if its tests agree with those of the states as long as both let the run go on. On a state that does not end the
run for another reason they agree if and only if the point asked about is finite with a projected gradient that is not
small, just where the projected gradient of the state is not small. Only if the states are the same does a solve report
what iterating ends with, and that always has a reason to stop. A solve may end without one, and just then it reports
used-up steps with steps left. -/
theorem solve_follows_run_iff (m : Minimizer Exact n β) (x : Vector Exact n) :
    let y := m.box.project x
    let run := m.runFrom m.options.maxSteps.toNat (m.start x)
    let states := m.settle (m.start x) :: visited m.continues m.advance m.options.maxSteps.toNat (m.start x)
    let solution := m.solve x
    (m.solveStates x = states ↔ ∀ k < m.options.maxSteps.toNat,
      (∀ j < k, m.GoesOn y j ∧ m.continues (m.stateAt y j) = true) →
        (m.GoesOn y k ↔ m.continues (m.stateAt y k) = true)) ∧
    (∀ k, (m.GoesOn y k ↔ m.continues (m.stateAt y k) = true) ↔
      m.StopsAnyway (m.stateAt y k).toProgress ∨
        (¬ m.stationarity (m.asked y k) ≤ m.stopTolerance (m.asked y k) ∧ allFinite (m.asked y k).point = true ↔
          ¬ m.stationarity (m.stateAt y k).toProgress ≤ m.stopTolerance (m.stateAt y k).toProgress)) ∧
    (m.solveStates x = states ↔
      solution.toSummary = { m.summarize run.state solution.auxiliary with state := m.settle run.state }) ∧
    m.status run.state.toProgress ≠ .running ∧
    (m.status solution.state.toProgress = .running ↔
      solution.status = .stepLimit ∧ solution.state.stepCount < m.options.maxSteps) := by
  intro y run states solution
  refine ⟨(m.solveStates_eq_iff x).trans (m.steps_solveRun_eq_iff x), m.goesOn_iff_continues_iff y,
    (m.solveStates_eq_iff x).trans (m.toSummary_solve_eq_iff x).symm, m.status_runFrom_ne_running x,
    m.status_solve_running_iff x⟩

end Front

/-! ## A solve that stops short

The objective `0.75 * x ^ 2 - 1.25 * x` on the interval from `0` to `1` is least at `5 / 6`. The first iteration
from the lower bound ends at the upper one, where the gradient is positive. A solve asks about the lower bound, where a
positive gradient does not count, and stops.
-/

section Overshoot

noncomputable def overshootHessian : SquareMatrix ℝ 1 := #v[#v[1.5]]

noncomputable def overshoot : Minimizer Exact 1 Unit :=
  (QuadraticProgram.ofReal overshootHessian #v[-1.25]
    ⟨(0 : Vector ℝ 1), (Vector.replicate 1 1 : Vector ℝ 1)⟩).minimizer .default

noncomputable def overshootModel : Model ℝ 1 := QuadraticProgram.model overshootHessian #v[-1.25]

/-- The states of a run from the lower bound. -/
noncomputable abbrev overshootAt (k : ℕ) : State Exact 1 Unit := overshoot.stateAt (0 : Vector ℝ 1) k

theorem dot_line (u v : Vector ℝ 1) : dot u v = u.get 0 * v.get 0 := (dot_eq_sum u v).trans (Fin.sum_univ_one _)

theorem norm_line (v : Vector ℝ 1) : norm v = |v.get 0| := by
  rw [norm, dot_line, sqrt_real, Real.sqrt_mul_self_eq_abs]

theorem hessian_overshoot (v : Vector ℝ 1) : (overshootHessian.linear v).get 0 = 1.5 * v.get 0 :=
  (SquareMatrix.get_apply overshootHessian v 0).trans (dot_line _ v)

theorem gradient_overshoot (x : Vector ℝ 1) :
    (overshootModel.around x).gradient.get 0 = 1.5 * x.get 0 - 1.25 := by
  refine (get_add _ _ _).trans ?_
  rw [show overshootModel.hessian x = overshootHessian.linear x from rfl, hessian_overshoot]
  show (-1.25 + 1.5 * x.get 0 : ℝ) = _
  ring

theorem value_overshoot (x : Vector ℝ 1) :
    overshootModel.value x = 0.75 * x.get 0 ^ 2 - 1.25 * x.get 0 := by
  rw [Model.value_eq, dot_line, dot_line, show overshootModel.hessian x = overshootHessian.linear x from rfl,
    hessian_overshoot]
  show (x.get 0 * (1.5 * x.get 0) / 2 + -1.25 * x.get 0 : ℝ) = _
  ring

theorem value_around_overshoot (x d : Vector ℝ 1) : (overshootModel.around x).value d =
    0.75 * d.get 0 ^ 2 + (1.5 * x.get 0 - 1.25) * d.get 0 := by
  rw [Model.value_eq, dot_line, dot_line, gradient_overshoot,
    show (overshootModel.around x).hessian d = overshootHessian.linear d from rfl, hessian_overshoot]
  ring

theorem poses_overshoot : overshoot.Poses overshootModel := QuadraticProgram.poses_model ..

theorem isSymmetric_overshoot : IsSymmetric overshootHessian.linear :=
  SquareMatrix.isSymmetric_linear fun i j => by rw [Subsingleton.elim i j]

theorem lower_overshoot : overshoot.box.lower.get 0 = (0 : ℝ) :=
  (Exact.get_coe _ 0).trans (congrArg Exact.real (get_zero 0))

theorem upper_overshoot : overshoot.box.upper.get 0 = (1 : ℝ) :=
  (Exact.get_coe _ 0).trans (congrArg Exact.real (get_replicate ..))

theorem contains_overshoot {x : Vector ℝ 1} (h0 : 0 ≤ x.get 0) (h1 : x.get 0 ≤ 1) : overshoot.box.Contains x :=
  Box.contains_coe_iff.2 fun i => by
    rw [Subsingleton.elim i 0, get_zero, get_replicate]
    exact ⟨h0, h1⟩

theorem contains_zero_overshoot : overshoot.box.Contains (0 : Vector ℝ 1) :=
  contains_overshoot (get_zero 0).ge ((get_zero 0).trans_le zero_le_one)

theorem contains_one_overshoot : overshoot.box.Contains (#v[1] : Vector ℝ 1) := contains_overshoot zero_le_one le_rfl

theorem standsAt_overshoot {k : ℕ} {x : Vector ℝ 1} (hx : overshoot.box.project (overshootAt k).point = x) :
    overshoot.StandsAt overshootModel (overshootAt k) x := by
  obtain ⟨y, h⟩ := poses_overshoot.exists_standsAt ⟨0, contains_zero_overshoot⟩ 0 k
  obtain rfl := Exact.vector_injective (h.project_eq.symm.trans hx)
  exact h

/-! ### The iteration -/

theorem project_zero_overshoot : overshoot.box.project (0 : Vector ℝ 1) = (0 : Vector ℝ 1) :=
  Box.project_of_contains contains_zero_overshoot

theorem base_overshoot : (overshoot.subproblem (overshootAt 0)).base = (0 : Vector ℝ 1) := project_zero_overshoot

theorem standsAt_zero_overshoot : overshoot.StandsAt overshootModel (overshootAt 0) 0 :=
  standsAt_overshoot project_zero_overshoot

theorem initialNorm_overshoot (k : ℕ) : (overshootAt k).initialNorm = (1.25 : ℝ) := by
  induction k with
  | zero =>
    have hgrad : (overshootAt 0).gradient = _ := standsAt_zero_overshoot.extends_around.model.gradient
    show norm (overshootAt 0).gradient = _
    rw [hgrad, ← Exact.coe_norm, norm_line, gradient_overshoot, get_zero]
    norm_num
  | succ k ih =>
    rw [overshootAt, stateAt_succ]
    exact ih

theorem radius_overshoot : (overshootAt 0).radius = (1.25 : ℝ) := by
  show (if 0 < (overshootAt 0).initialNorm then (overshootAt 0).initialNorm else 1) = _
  rw [initialNorm_overshoot]
  exact if_pos (Exact.coe_pos.2 (by norm_num))

theorem descend_overshoot {t : ℝ} (ht : 1 ≤ t) :
    (overshoot.subproblem (overshootAt 0)).box.descend (overshoot.subproblem (overshootAt 0)).base
      (overshootModel.around 0).gradient t = #v[1] := by
  refine ext_get fun i => ?_
  rw [Subsingleton.elim i 0]
  refine Box.shift_of_upper_le standsAt_zero_overshoot.extends_around.base (ξ := 0) ?_ ?_ ?_
  · rw [base_overshoot, Exact.get_coe, get_zero]
  · refine upper_overshoot.trans (congrArg Exact.real ?_)
    rw [zero_add]; rfl
  · rw [gradient_overshoot, get_zero]
    show 1 ≤ -t * _
    linarith

theorem passesInside_overshoot : (overshoot.subproblem (overshootAt 0)).PassesInside 1 := by
  have hM := standsAt_zero_overshoot.extends_around
  have hpath : (overshoot.subproblem (overshootAt 0)).pathStep 1 = (#v[1] : Vector ℝ 1) := by
    rw [Subproblem.pathStep_eq hM base_overshoot, descend_overshoot le_rfl]
  have hradius : (overshoot.subproblem (overshootAt 0)).radius = (1.25 : ℝ) := radius_overshoot
  have hdecrease : (overshoot.subproblem (overshootAt 0)).rule.decrease = (0.01 : ℝ) := rfl
  constructor
  · rw [hpath, hradius, ← Exact.coe_norm, Exact.coe_lt, norm_line]
    show |(1 : ℝ)| < 1.25
    norm_num
  · rw [hpath, hdecrease, hM.model.value, hM.model.slope, ← Exact.coe_mul, Exact.coe_lt, value_around_overshoot,
      Model.slope, dot_line, gradient_overshoot, get_zero]
    show (0.75 * 1 ^ 2 + (1.5 * 0 - 1.25) * 1 : ℝ) < 0.01 * ((1.5 * 0 - 1.25) * 1)
    norm_num

/-- The Cauchy step ends at the upper bound and leaves no coordinate free. -/
theorem step_overshoot : (overshoot.trialStep (overshootAt 0)).step = (#v[1] : Vector ℝ 1) := by
  have hM := standsAt_zero_overshoot.extends_around
  have hcauchy : (overshoot.cauchyStep (overshootAt 0)).step = (#v[1] : Vector ℝ 1) :=
    Subproblem.step_cauchyStep_of_inside hM base_overshoot one_pos radius_overshoot (μ := 0.01) rfl
      passesInside_overshoot fun _ => descend_overshoot
  have hpoint : ((overshoot.subproblem (overshootAt 0)).firstFace (#v[1] : Vector ℝ 1)).point =
      (#v[1] : Vector ℝ 1) := by
    show overshoot.box.project ((overshoot.subproblem (overshootAt 0)).base + _) = _
    rw [base_overshoot, ← Exact.coe_add_vector, zero_add]
    exact Box.project_of_contains contains_one_overshoot
  show ((overshoot.subproblem _).minimizeFaces _ (overshoot.cauchyStep _).step).step = _
  rw [hcauchy]
  refine Subproblem.step_minimizeFaces_of_not_free (Bool.not_eq_true _ ▸ fun hfree => ?_) _
  obtain ⟨i, hi⟩ := (Mask.nonempty_iff _).1 hfree
  rw [Subproblem.free, hpoint, Box.get_free, decide_eq_true_eq, Subsingleton.elim i 0, Exact.get_coe] at hi
  exact lt_irrefl (1 : ℝ) (Exact.coe_lt.1 (hi.2.trans_eq upper_overshoot))

theorem finds_overshoot : ∃ t, Finds overshoot (overshootAt 0) (overshootModel.around 0) t #v[1] := by
  obtain ⟨t, d, hf⟩ := standsAt_zero_overshoot.toSound.exists_finds standsAt_zero_overshoot.extends_around
  obtain rfl : d = #v[1] := Exact.vector_injective (hf.step_eq.symm.trans step_overshoot)
  exact ⟨t, hf⟩

theorem predictedReduction_overshoot : (overshootAt 1).predictedReduction = (0.5 : ℝ) := by
  have h := standsAt_zero_overshoot
  obtain ⟨t, hf⟩ := finds_overshoot
  rw [overshootAt, stateAt_succ]
  refine (hf.predictedReduction h.extends_around).trans (congrArg Exact.real ?_)
  rw [value_around_overshoot, get_zero]
  show (-(0.75 * 1 ^ 2 + (1.5 * 0 - 1.25) * 1) : ℝ) = 0.5
  norm_num

theorem standsAt_one_overshoot : overshoot.StandsAt overshootModel (overshootAt 1) #v[1] := by
  have h := standsAt_zero_overshoot
  obtain ⟨t, hf⟩ := finds_overshoot
  have haccepted := (h.accepted_iff isSymmetric_overshoot (fun _ => rfl) poses_overshoot hf).2
    (predictedReduction_overshoot ▸ Exact.coe_pos.2 (by norm_num))
  refine standsAt_overshoot ?_
  rw [overshootAt, stateAt_succ, (advance_of_accepted haccepted).point, hf.point_real h.project_eq, zero_add]
  exact Box.project_of_contains contains_one_overshoot

theorem gradient_one_overshoot : (overshootModel.around #v[1]).gradient.get 0 = 0.25 := by
  rw [gradient_overshoot]
  show (1.5 * 1 - 1.25 : ℝ) = 0.25
  norm_num

/-! ### The tests -/

theorem stopTolerance_overshoot {p : Progress Exact 1} (hp : p.initialNorm = (1.25 : ℝ)) :
    overshoot.stopTolerance p = (1.25e-5 : ℝ) := by
  show greater ((0 : ℝ) : Exact) (((1e-5 : ℝ) : Exact) * p.initialNorm) = _
  rw [hp, ← Exact.coe_mul, ← Exact.coe_greater]
  norm_num

theorem stationarity_overshoot {p : Progress Exact 1} {x g : Vector ℝ 1} (hx : overshoot.box.project p.point = x)
    (hg : p.gradient = g) : overshoot.stationarity p = (|(overshoot.box.effective x g).get 0| : ℝ) := by
  rw [Setting.stationarity, hx, hg, Box.stationarity_eq, norm_line]

theorem not_stopsAnyway_overshoot {p : Progress Exact 1} {v : ℝ} (hv : p.value = v) (hv1 : |v| ≤ 1)
    (hpredicted : ((1e-12 : ℝ) : Exact) < p.predictedReduction) (hcount : p.stepCount < 100)
    (hg : allFinite p.gradient = true) : ¬ overshoot.StopsAnyway p := by
  have hreduces : ∀ b : ℝ, b ≤ 1e-12 → ¬ Setting.ReducesWithin p b := fun b hb hr =>
    Exact.lt_irrefl _ (Exact.lt_of_lt_of_le' (Exact.lt_of_le_of_lt' (Exact.coe_le.2 hb) hpredicted) hr.2)
  rintro (h | h | h | h | h | h)
  · rw [hv] at h
    have h' : v < -1e32 := h
    linarith [neg_abs_le v]
  · exact hreduces _ le_rfl h
  · rw [hv, ← Exact.coe_abs] at h
    refine hreduces (1e-12 * |v|) ?_ h
    linarith
  · exact h.not_gt hcount
  · exact h (hv ▸ Exact.isFinite_coe v)
  · rw [hg] at h
    cases h

theorem goesOn_overshoot : overshoot.GoesOn (0 : Vector ℝ 1) 0 := by
  have h := standsAt_zero_overshoot
  have hg := h.extends_around.model.gradient
  refine ⟨Setting.status_eq_running_iff.2 ⟨?_, ?_⟩, Exact.allFinite_iff.2 ⟨0, rfl⟩⟩
  · have hneg : (overshoot.box.effective 0 (overshootModel.around 0).gradient).get 0 < 0 := by
      refine (Box.effective_neg_iff contains_zero_overshoot).2 ⟨by rw [gradient_overshoot, get_zero]; norm_num, ?_⟩
      rw [upper_overshoot, get_zero]
      exact Exact.coe_lt.2 one_pos
    rw [stopTolerance_overshoot (p := overshoot.asked (0 : Vector ℝ 1) 0) (initialNorm_overshoot 0),
      stationarity_overshoot (p := overshoot.asked (0 : Vector ℝ 1) 0) base_overshoot hg, Exact.coe_le,
      Box.effective_eq_of_ne_zero hneg.ne, gradient_overshoot, get_zero]
    norm_num
  · refine not_stopsAnyway_overshoot h.value_eq ?_ trivial (show (0 : Int) < 100 by decide)
      (Exact.allFinite_iff.2 ⟨_, hg⟩)
    rw [value_overshoot, get_zero]
    norm_num

theorem not_goesOn_overshoot : ¬ overshoot.GoesOn (0 : Vector ℝ 1) 1 := by
  have hg := standsAt_one_overshoot.extends_around.model.gradient
  rintro ⟨hrun, -⟩
  refine (Setting.status_eq_running_iff.1 hrun).1 ?_
  -- the gradient of the new point, at the old one
  have hblocked : (overshoot.box.effective 0 (overshootModel.around #v[1]).gradient).get 0 = 0 := by
    by_contra hne
    have hpos : 0 < (overshoot.box.effective 0 (overshootModel.around #v[1]).gradient).get 0 := by
      rw [Box.effective_eq_of_ne_zero hne, gradient_one_overshoot]
      norm_num
    have hlower := ((Box.effective_pos_iff contains_zero_overshoot).1 hpos).2
    rw [lower_overshoot, get_zero] at hlower
    exact Exact.lt_irrefl _ hlower
  rw [stopTolerance_overshoot (p := overshoot.asked (0 : Vector ℝ 1) 1) (initialNorm_overshoot 1),
    stationarity_overshoot (p := overshoot.asked (0 : Vector ℝ 1) 1) base_overshoot hg, hblocked, abs_zero]
  exact Exact.coe_le.2 (by norm_num)

theorem stationarity_one_overshoot : overshoot.stationarity (overshootAt 1).toProgress = (0.25 : ℝ) := by
  have h := standsAt_one_overshoot
  have hpos : 0 < (overshoot.box.effective #v[1] (overshootModel.around #v[1]).gradient).get 0 := by
    refine (Box.effective_pos_iff contains_one_overshoot).2 ⟨by rw [gradient_one_overshoot]; norm_num, ?_⟩
    rw [lower_overshoot]
    exact Exact.coe_lt.2 one_pos
  rw [stationarity_overshoot h.project_eq h.extends_around.model.gradient, Box.effective_eq_of_ne_zero hpos.ne',
    gradient_one_overshoot]
  norm_num

theorem status_one_overshoot : overshoot.status (overshootAt 1).toProgress = .running := by
  have h := standsAt_one_overshoot
  refine Setting.status_eq_running_iff.2 ⟨?_, ?_⟩
  · rw [stopTolerance_overshoot (initialNorm_overshoot 1), stationarity_one_overshoot, Exact.coe_le]
    norm_num
  · refine not_stopsAnyway_overshoot h.value_eq ?_ (predictedReduction_overshoot ▸ Exact.coe_lt.2 (by norm_num)) ?_
      (Exact.allFinite_iff.2 ⟨_, h.extends_around.model.gradient⟩)
    · rw [value_overshoot]
      show |(0.75 * 1 ^ 2 - 1.25 * 1 : ℝ)| ≤ 1
      norm_num
    · rw [overshoot.stepCount_stateAt]
      decide

theorem steps_overshoot : (overshoot.solveRun (0 : Vector ℝ 1)).steps = 1 := by
  have hgoes := (overshoot.continues_iterate_proceed_iff (0 : Vector ℝ 1) 0).2 goesOn_overshoot
  have hstops := mt (overshoot.continues_iterate_proceed_iff (0 : Vector ℝ 1) 1).1 not_goesOn_overshoot
  rw [solveRun, project_zero_overshoot]
  exact congrArg Run.steps (advanceWhile_of_advance hgoes (Bool.eq_false_iff.2 hstops) 99)

/-- From the lower bound a solve stops at the upper one, which is not stationary, with steps left. -/
theorem solve_follows_run_iff_overshoot :
    overshoot.solveStates (0 : Vector ℝ 1) ≠ overshoot.settle (overshoot.start (0 : Vector ℝ 1)) ::
        visited overshoot.continues overshoot.advance overshoot.options.maxSteps.toNat
          (overshoot.start (0 : Vector ℝ 1)) ∧
      (overshoot.solve (0 : Vector ℝ 1)).point = (#v[1] : Vector ℝ 1) ∧
      (overshoot.solve (0 : Vector ℝ 1)).stationarity = (0.25 : ℝ) ∧
      (overshoot.solve (0 : Vector ℝ 1)).status = .stepLimit ∧
      (overshoot.solve (0 : Vector ℝ 1)).state.stepCount < overshoot.options.maxSteps := by
  obtain ⟨hsame, -, -, -, hstopped⟩ := solve_follows_run_iff overshoot (0 : Vector ℝ 1)
  have hstate : (overshoot.solve (0 : Vector ℝ 1)).state = overshootAt 1 := by
    refine (overshoot.state_solveRun (0 : Vector ℝ 1)).1.trans ?_
    rw [project_zero_overshoot, steps_overshoot]
  rw [project_zero_overshoot] at hsame
  refine ⟨fun h => ?_, ?_, ?_, hstopped.1 (hstate ▸ status_one_overshoot)⟩
  · have hagree := hsame.1 h 1 (show 1 < 100 by decide) fun j hj => by
      rw [Nat.lt_one_iff.1 hj]
      exact ⟨goesOn_overshoot, ((overshoot.goesOn_zero_iff (0 : Vector ℝ 1)).1 goesOn_overshoot).1⟩
    exact not_goesOn_overshoot (hagree.2 ((overshoot.continues_iff _).2 status_one_overshoot))
  · refine Eq.trans ?_ standsAt_one_overshoot.project_eq
    rw [← hstate]
    rfl
  · refine Eq.trans ?_ stationarity_one_overshoot
    rw [← hstate]
    rfl

end Overshoot

end Minimizer

/-! ## Without bounds -/

theorem Box.project_unbounded (x : Vector Exact n) : (unbounded : Box Exact n).project x = x :=
  ext_get fun i => by
    rw [Box.get_project, Box.lower_unbounded, Box.upper_unbounded, Exact.greater_comm, Exact.bot_greater,
      Exact.lesser_comm, Exact.top_lesser]

/-- Without bounds every coordinate of a gradient counts. -/
theorem Box.projectedGradient_unbounded (x g : Vector ℝ n) :
    (unbounded : Box Exact n).projectedGradient x g = g := ext_get fun i => by
  rw [Box.get_projectedGradient, Exact.get_coe]
  by_cases hg : g.get i = 0
  · rw [hg, Exact.coe_zero, ite_self]
  · refine if_pos ((Box.descends_iff (Box.contains_unbounded x) hg).2 ?_)
    rw [Box.lower_unbounded, Box.upper_unbounded]
    exact (lt_or_gt_of_ne hg).imp (fun h => ⟨h, trivial⟩) fun h => ⟨h, trivial⟩

namespace Minimizer

section Unbounded

variable {m : Minimizer Exact n β} (hb : m.box = .unbounded)

include hb

theorem settle_of_unbounded (s : State Exact n β) : m.settle s = s := by
  rw [settle, hb, Box.project_unbounded]

theorem stationarity_of_unbounded {p : Progress Exact n} {x g : Vector ℝ n} (hx : p.point = x) (hg : p.gradient = g) :
    m.stationarity p = norm (g : Vector Exact n) := by
  rw [Setting.stationarity, hb, Box.project_unbounded, Box.stationarity, hx, hg, Box.projectedGradient_unbounded]

/-- Without bounds the projected gradient is the gradient at any point, so a solve goes through the states that
iterating goes through, and reports what that ends with. -/
theorem solve_of_unbounded (hm : m.RealDerivatives) (x : Vector ℝ n) :
    let run := m.runFrom m.options.maxSteps.toNat (m.start x)
    m.solveStates x = m.start x :: visited m.continues m.advance m.options.maxSteps.toNat (m.start x) ∧
      (m.solve x).toSummary = m.summarize run.state (m.solve x).auxiliary := by
  intro run
  have hplaced := placed_stateAt hm ⟨x, hb ▸ Box.contains_unbounded x⟩ x
  have hpoint : ∀ k, ∃ u : Vector ℝ n, (m.stateAt x k).point = u := fun k => by
    obtain ⟨u, hu⟩ := (hplaced k).base
    exact ⟨u, by rwa [hb, Box.project_unbounded] at hu⟩
  have hsteps : (m.solveRun x).steps = run.steps := by
    refine (m.steps_solveRun_eq_iff x).2 fun k _ _ => (m.goesOn_iff_continues_iff _ k).2 (.inr ?_)
    rw [hb, Box.project_unbounded]
    cases k with
    | zero => exact and_iff_left (Exact.allFinite_iff.2 ⟨x, rfl⟩)
    | succ k =>
      obtain ⟨u, hu⟩ := hpoint k
      obtain ⟨u', hu'⟩ := hpoint (k + 1)
      obtain ⟨g, hg⟩ := (hplaced (k + 1)).gradient
      rw [stationarity_of_unbounded hb (p := m.asked x (k + 1)) hu hg, stationarity_of_unbounded hb hu' hg]
      exact and_iff_left (Exact.allFinite_iff.2 ⟨u, hu⟩)
  have hstates := (m.solveStates_eq_iff x).2 hsteps
  have hsummary := (m.toSummary_solve_eq_iff x).2 hsteps
  rw [settle_of_unbounded hb] at hstates hsummary
  exact ⟨hstates, hsummary⟩

end Unbounded

end Minimizer

end BoxNewton
