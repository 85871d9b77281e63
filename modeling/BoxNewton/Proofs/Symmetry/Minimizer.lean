/-
The minimizer under motions. A moved problem hands back moved gradients and turned products. From the
moved start the minimizer goes through the moved states: points and gradients go along, and all that a
state holds besides stays the same. Whatever the callbacks return and whatever the options are, the
method therefore knows no order of the coordinates, no preferred side of the box and no origin.
-/
import BoxNewton.Proofs.Minimizer.Feasibility
import BoxNewton.Proofs.Symmetry.Subproblem

namespace BoxNewton.Motion

variable {n : ℕ} {β : Type} (τ : Motion n)

/-- The problem that says of moved points what `p` says of points. -/
noncomputable def problem (p : Problem Exact n β) : Problem Exact n β where
  value z := p.value (τ.pointBack z)
  auxiliary z := p.auxiliary (τ.pointBack z)
  blank := p.blank
  gradient z := τ.vector (p.gradient (τ.pointBack z))
  product z := τ.operator (p.product (τ.pointBack z))

noncomputable def minimizer (m : Minimizer Exact n β) : Minimizer Exact n β where
  box := τ.box m.box
  options := m.options
  problem := τ.problem m.problem

/-- The state at the moved point. -/
noncomputable def state (s : State Exact n β) : State Exact n β :=
  { s with point := τ.point s.point, gradient := τ.vector s.gradient }

section Uncrossed

variable {m : Minimizer Exact n β} (hm : ∀ i, ¬ m.box.upper.get i < m.box.lower.get i)

include hm

theorem start_minimizer (y : Vector Exact n) : (τ.minimizer m).start (τ.point y) = τ.state (m.start y) := by
  simp only [Minimizer.start, minimizer, problem, state, τ.project_box hm, pointBack_point, norm_vector]

/-! ## One iteration -/

theorem subproblem_minimizer (s : State Exact n β) :
    (τ.minimizer m).subproblem (τ.state s) = τ.subproblem (m.subproblem s) := by
  simp only [Minimizer.subproblem, minimizer, problem, state, subproblem, boxedModel, model, τ.project_box hm,
    pointBack_point]

theorem advance_minimizer (s : State Exact n β) :
    (τ.minimizer m).advance (τ.state s) = τ.state (m.advance s) := by
  have hcauchy : (τ.minimizer m).cauchyStep (τ.state s) = τ.cauchyStep (m.cauchyStep s) := by
    unfold Minimizer.cauchyStep
    rw [τ.subproblem_minimizer hm]
    exact τ.cauchyStep_subproblem (p := m.subproblem s) hm s.cauchyLength
  have hrefined : (τ.minimizer m).refinedStep (τ.state s) (τ.cauchyStep (m.cauchyStep s)) =
      τ.faceStep (m.refinedStep s (m.cauchyStep s)) := by
    unfold Minimizer.refinedStep
    rw [τ.subproblem_minimizer hm]
    exact τ.minimizeFaces_subproblem (p := m.subproblem s) hm m.faceLimits (m.cauchyStep s).step
  unfold Minimizer.advance
  simp only [hcauchy, hrefined, τ.subproblem_minimizer hm]
  simp only [faceStep, cauchyStep, subproblem, boxedModel, slope_model, value_model, norm_vector, minimizer, problem,
    pointBack_point, state, apply_ite τ.vector, apply_ite τ.point]
  rfl

/-! ## Stopping -/

theorem stationarity_minimizer (s : State Exact n β) :
    (τ.minimizer m).stationarity (τ.state s).toProgress = m.stationarity s.toProgress := by
  show (τ.box m.box).stationarity ((τ.box m.box).project (τ.point s.point)) (τ.vector s.gradient) = _
  rw [τ.project_box hm, stationarity_box]; rfl

theorem status_minimizer (s : State Exact n β) :
    (τ.minimizer m).status (τ.state s).toProgress = m.status s.toProgress := by
  unfold Setting.status
  rw [τ.stationarity_minimizer hm]
  simp only [state, allFinite_vector]
  rfl

/-! ## Runs -/

/-- The minimizer commutes with motions: at the start, over any number of iterations from any state, and
in what it says of a state. -/
theorem run_commutes :
    (∀ y, (τ.minimizer m).start (τ.point y) = τ.state (m.start y)) ∧
    (∀ s k, (τ.minimizer m).advance^[k] (τ.state s) = τ.state (m.advance^[k] s)) ∧
    (∀ s : State Exact n β, (τ.minimizer m).status (τ.state s).toProgress = m.status s.toProgress ∧
      (τ.minimizer m).stationarity (τ.state s).toProgress = m.stationarity s.toProgress) ∧
    ∀ y k, (τ.minimizer m).runFrom k ((τ.minimizer m).start (τ.point y)) =
      ⟨τ.state (m.runFrom k (m.start y)).state, (m.runFrom k (m.start y)).steps⟩ := by
  refine ⟨τ.start_minimizer hm, fun s k => ?_, fun s => ⟨τ.status_minimizer hm s, τ.stationarity_minimizer hm s⟩,
    fun y k => ?_⟩
  · have hsemi : Function.Semiconj τ.state m.advance (τ.minimizer m).advance := fun s =>
      (τ.advance_minimizer hm s).symm
    exact ((hsemi.iterate_right k).eq s).symm
  · rw [τ.start_minimizer hm]
    refine advanceWhile_map (fun s => ?_) (τ.advance_minimizer hm) k _
    unfold Minimizer.continues
    rw [τ.status_minimizer hm]

end Uncrossed

/-- A quarter turn of the plane with a shift to the right. -/
noncomputable def quarterTurn : Motion 2 := ⟨Fin.revPerm, ![false, true], #v[1, 0]⟩

/-- The coordinate without an upper bound becomes one without a lower bound, and the fixed one is moved. -/
theorem box_quarterTurn : quarterTurn.box Minimizer.edge.box = ⟨#v[(2 : ℝ), .bot], #v[(2 : ℝ), (0 : ℝ)]⟩ := by
  have h0 : quarterTurn.source 0 = 1 := rfl
  have h1 : quarterTurn.source 1 = 0 := rfl
  have hfixed : (1 : Exact) + (1 : ℝ) = (2 : ℝ) := Exact.coe_inj.2 (by norm_num)
  have hside : -(0 : Exact) + (0 : ℝ) = (0 : ℝ) := Exact.coe_inj.2 (by norm_num)
  refine congrArg₂ Box.mk (ext_get (Fin.forall_fin_two.2 ⟨?_, ?_⟩)) (ext_get (Fin.forall_fin_two.2 ⟨?_, ?_⟩))
  · rw [get_ofFn, h0]
    exact hfixed
  · rw [get_ofFn, h1]; rfl
  · rw [get_ofFn, h0]
    exact hfixed
  · rw [get_ofFn, h1]
    exact hside

theorem run_commutes_edge :
    let τ := quarterTurn
    let m := Minimizer.edge
    let m' := τ.minimizer m
    let y : Vector Exact 2 := (#v[-1, 3] : Vector ℝ 2)
    let s := m.stateAt y 2
    (∀ i, ¬ m.box.upper.get i < m.box.lower.get i) ∧ m'.box = ⟨#v[(2 : ℝ), .bot], #v[(2 : ℝ), (0 : ℝ)]⟩ ∧
      m'.start (τ.point y) = τ.state (m.start y) ∧
      m'.advance^[2] (τ.state s) = τ.state (m.advance^[2] s) ∧
      m'.status (τ.state s).toProgress = m.status s.toProgress ∧
      m'.runFrom 5 (m'.start (τ.point y)) =
        ⟨τ.state (m.runFrom 5 (m.start y)).state, (m.runFrom 5 (m.start y)).steps⟩ := by
  intro τ m m' y s
  have hm : ∀ i, ¬ m.box.upper.get i < m.box.lower.get i := Fin.forall_fin_two.2 ⟨id, lt_irrefl (1 : ℝ)⟩
  obtain ⟨hstart, hsteps, hread, hruns⟩ := τ.run_commutes (m := m) hm
  exact ⟨hm, box_quarterTurn, hstart y, hsteps s 2, (hread s).1, hruns y 5⟩

end BoxNewton.Motion
