/-
Conjugate gradients on real data in exact arithmetic: a problem that extends a real one runs through
real states (`run_induction`), whatever its tolerances are. Only the statuses depend on those. So the
last iterate is real, and for a symmetric Hessian the model descends along the ray to it. Two such problems
whose iterations keep their real states related run in step (`solve_related`).
-/
import BoxNewton.Proofs.ConjugateGradient.Krylov
import BoxNewton.Proofs.Loop

namespace BoxNewton.ConjugateGradient

variable {n : ℕ}

/-- A real state as a state of exact numbers. -/
def State.exact (s : State ℝ n) : State Exact n where
  iterate := s.iterate
  residual := s.residual
  scaledResidual := s.scaledResidual
  direction := s.direction
  energy := s.energy
  status := s.status

namespace Problem

/-- The problems agree on real vectors, up to the tolerances. -/
structure Extends (p : Problem Exact n) (q : Problem ℝ n) : Prop where
  model : p.model.Extends q.model
  solve : BoxNewton.Extends p.preconditioner.solve q.preconditioner.solve
  solveTransposed : BoxNewton.Extends p.preconditioner.solveTransposed q.preconditioner.solveTransposed
  radius : p.radius = q.radius

variable {p : Problem Exact n} {q : Problem ℝ n}

theorem Extends.scaledHessian (h : p.Extends q) : BoxNewton.Extends p.scaledHessian q.scaledHessian := by
  intro v
  unfold Problem.scaledHessian
  rw [h.solveTransposed, h.model.hessian, h.solve]

theorem Extends.curvature (h : p.Extends q) (s : State ℝ n) :
    p.curvature s.exact = (q.curvature s : Exact) := by
  unfold Problem.curvature
  rw [Exact.coe_dot, ← h.scaledHessian]; rfl

theorem Extends.stepLength (h : p.Extends q) (s : State ℝ n) :
    p.stepLength s.exact = (q.stepLength s : Exact) := by
  unfold Problem.stepLength
  rw [h.curvature]
  by_cases hκ : 0 < q.curvature s
  · rw [if_pos hκ, if_pos (show (0 : Exact) < _ from hκ), Exact.coe_div _ hκ.ne']; rfl
  · rw [if_neg hκ, if_neg (show ¬ (0 : Exact) < _ from hκ)]; rfl

theorem Extends.boundaryStep (h : p.Extends q) (s : State ℝ n) :
    TrustRegion.boundaryStep s.exact.iterate s.exact.direction p.radius
      = (TrustRegion.boundaryStep s.iterate s.direction q.radius : ℝ) := by
  rw [h.radius]
  exact TrustRegion.coe_boundaryStep s.iterate s.direction q.radius

theorem Extends.leaves_iff (h : p.Extends q) (s : State ℝ n) : p.Leaves s.exact ↔ q.Leaves s := by
  unfold Problem.Leaves
  rw [h.curvature, h.stepLength, h.boundaryStep]; rfl

theorem Extends.start (h : p.Extends q) : p.start = q.start.exact := by
  have hr : -p.model.gradient = (-q.model.gradient : Vector ℝ n) := by
    rw [h.model.gradient, Exact.coe_neg_vector]
  unfold Problem.start State.exact
  simp only [hr, h.solve _, ← Exact.coe_dot, Exact.coe_zero_vector]
  congr 1

/-- The state after an iteration is that of the real problem, but for the status. -/
theorem Extends.advance (h : p.Extends q) (s : State ℝ n) :
    p.advance s.exact = State.exact { q.advance s with status := (p.advance s.exact).status } := by
  have hres : (p.advance s.exact).scaledResidual = ((q.advance s).scaledResidual : Vector Exact n) := by
    rw [scaledResidual_advance, scaledResidual_advance, h.stepLength, Exact.coe_sub_vector,
      Exact.coe_hmul_vector, ← h.scaledHessian]; rfl
  have hres' : (p.advance s.exact).residual = ((q.advance s).residual : Vector Exact n) := by
    show s.exact.residual - p.stepLength s.exact *
        p.model.hessian (p.preconditioner.solveTransposed s.exact.direction)
      = ((s.residual - q.stepLength s *
        q.model.hessian (q.preconditioner.solveTransposed s.direction) : Vector ℝ n) : Vector Exact n)
    rw [h.stepLength, Exact.coe_sub_vector, Exact.coe_hmul_vector, ← h.model.hessian,
      ← h.solveTransposed]; rfl
  have henergy : (p.advance s.exact).energy = ((q.advance s).energy : Exact) := by
    rw [energy_advance, energy_advance, hres, Exact.coe_dot]
  have hdir : (p.advance s.exact).direction = ((q.advance s).direction : Vector Exact n) := by
    rw [direction_advance, direction_advance, hres, henergy, Exact.coe_add_vector, Exact.coe_hmul_vector]
    congr 2
    show _ / (if (0 : Exact) < (s.energy : Exact) then (s.energy : Exact) else 1) = _
    by_cases hs : 0 < s.energy
    · rw [if_pos hs, if_pos (show (0 : Exact) < s.energy from hs), Exact.coe_div _ hs.ne']
    · rw [if_neg hs, if_neg (show ¬ (0 : Exact) < s.energy from hs), Exact.coe_div _ one_ne_zero]; rfl
  have hit : (p.advance s.exact).iterate = ((q.advance s).iterate : Vector Exact n) := by
    by_cases hl : q.Leaves s
    · rw [iterate_advance_of_leaves hl, iterate_advance_of_leaves ((h.leaves_iff s).2 hl), h.boundaryStep,
        Exact.coe_add_vector, Exact.coe_hmul_vector]; rfl
    · rw [iterate_advance_of_not_leaves hl, iterate_advance_of_not_leaves (mt (h.leaves_iff s).1 hl),
        h.stepLength, Exact.coe_add_vector, Exact.coe_hmul_vector]; rfl
  rcases hs : p.advance s.exact with ⟨w, r, t, d, e, st⟩
  rw [hs] at hres hres' henergy hdir hit
  subst hres hres' henergy hdir hit
  rfl

section TwoProblems

variable {n' : ℕ} {p' : Problem Exact n'} {q' : Problem ℝ n'}

/-- Iterations of two problems that do the same up to their residuals' tests end with the same status. -/
theorem Extends.status_advance_eq (h : p.Extends q) (h' : p'.Extends q') {s : State ℝ n} {s' : State ℝ n'}
    (hleaves : q'.Leaves s' ↔ q.Leaves s) (hcurvature : q'.curvature s' = q.curvature s)
    (henergy : (q'.advance s').energy = (q.advance s).energy) (hscaled : p'.scaledTolerance = p.scaledTolerance)
    (hresidual : ((norm (q'.advance s').residual : ℝ) : Exact) ≤ p'.tolerance ↔
      ((norm (q.advance s).residual : ℝ) : Exact) ≤ p.tolerance) :
    (p'.advance s'.exact).status = (p.advance s.exact).status := by
  by_cases hl : q.Leaves s
  · have hstatus : (p.advance s.exact).status =
        if p.curvature s.exact ≤ 0 then .negativeCurvature else .boundary := if_pos ((h.leaves_iff s).2 hl)
    have hstatus' : (p'.advance s'.exact).status =
        if p'.curvature s'.exact ≤ 0 then .negativeCurvature else .boundary :=
      if_pos ((h'.leaves_iff s').2 (hleaves.2 hl))
    rw [hstatus, hstatus', h.curvature, h'.curvature, hcurvature]
  · rw [status_advance_of_not_leaves (mt (h.leaves_iff s).1 hl),
      status_advance_of_not_leaves (mt (h'.leaves_iff s').1 (mt hleaves.1 hl)), h.advance, h'.advance, hscaled]
    show (if norm ((q'.advance s').residual : Vector Exact n') ≤ _ then _
        else if Scalar.sqrt ((q'.advance s').energy : Exact) ≤ _ then _ else _) =
      if norm ((q.advance s).residual : Vector Exact n) ≤ _ then _
        else if Scalar.sqrt ((q.advance s).energy : Exact) ≤ _ then _ else _
    rw [← Exact.coe_norm, ← Exact.coe_norm, henergy]
    simp only [hresidual]

/-- Two problems whose iterations keep real states related, and end with the same status, run in step. -/
theorem Extends.solve_related (h : p.Extends q) (h' : p'.Extends q') {R : State ℝ n → State ℝ n' → Prop}
    (hstatus : ∀ {s s'}, R s s' → s'.status = s.status) (start : R q.start q'.start)
    (keep : ∀ {s s'}, R s s' → (p'.advance s'.exact).status = (p.advance s.exact).status ∧
      ∀ status, R { q.advance s with status := status } { q'.advance s' with status := status }) (k : ℤ) :
    ∃ s s', R s s' ∧ (p.solve k).iterate = (s.iterate : Vector Exact n) ∧
      (p'.solve k).iterate = (s'.iterate : Vector Exact n') ∧
      (p'.solve k).iterations = (p.solve k).iterations ∧ (p'.solve k).status = (p.solve k).status := by
  let Q : State Exact n → State Exact n' → Prop := fun S S' => ∃ s s', R s s' ∧ S = s.exact ∧ S' = s'.exact
  have htest : ∀ S S', Q S S' → continues S' = continues S := by
    rintro _ _ ⟨s, s', hR, rfl, rfl⟩
    exact congrArg (· == .running) (hstatus hR)
  have hadvance : ∀ S S', Q S S' → continues S = true → Q (p.advance S) (p'.advance S') := by
    rintro _ _ ⟨s, s', hR, rfl, rfl⟩ -
    obtain ⟨hstat, hnext⟩ := keep hR
    rw [h.advance, h'.advance, hstat]
    exact ⟨_, _, hnext _, rfl, rfl⟩
  obtain ⟨⟨s, s', hR, hs, hs'⟩, hsteps⟩ :=
    advanceWhile_related htest hadvance k.toNat ⟨_, _, start, h.start, h'.start⟩
  refine ⟨s, s', hR, congrArg State.iterate hs, congrArg State.iterate hs', hsteps, ?_⟩
  have hrun : (p'.run k).state.status = (p.run k).state.status := by
    rw [run, run, hs, hs']
    exact hstatus hR
  show (if (p'.run k).state.status = .running then _ else (p'.run k).state.status) =
    if (p.run k).state.status = .running then _ else (p.run k).state.status
  rw [hrun]

end TwoProblems

/-- What holds of the first state and is kept by every iteration, with the status that the exact problem
ends it with, holds of the last state. -/
theorem Extends.exists_state (h : p.Extends q) {P : State ℝ n → Prop} (start : P q.start)
    (keep : ∀ s, P s → s.status = .running → P { q.advance s with status := (p.advance s.exact).status })
    (k : Int) : ∃ s, (p.run k).state = s.exact ∧ P s := by
  refine advanceWhile_induction (P := fun s => ∃ σ, s = State.exact σ ∧ P σ) ?_ _ ⟨_, h.start, start⟩
  rintro _ ⟨σ, rfl, hσ⟩ hrun
  exact ⟨_, h.advance σ, keep σ hσ (by simpa [continues, State.exact] using hrun)⟩

/-- What holds of the first state and is kept by every iteration of the real problem, whatever status
it ends with, holds of the last state. -/
theorem run_induction (h : p.Extends q) {P : State ℝ n → Prop} (start : P q.start)
    (keep : ∀ s status, P s → s.status = .running → (status = .running → ¬ q.Leaves s) →
      P { q.advance s with status := status }) (k : Int) :
    ∃ s, (p.run k).state = s.exact ∧ P s := by
  refine h.exists_state start (fun s hs hrun => keep s _ hs hrun fun hst hl => ?_) k
  rcases status_advance_of_leaves ((h.leaves_iff s).2 hl) with h' | h' <;> rw [h'] at hst <;> cases hst

theorem Extends.exists_iterate (h : p.Extends q) (k : Int) :
    ∃ w : Vector ℝ n, (p.solve k).iterate = w := by
  obtain ⟨s, hs, -⟩ := run_induction h (P := fun _ => True) trivial (fun _ _ _ _ _ => trivial) k
  exact ⟨s.iterate, congrArg State.iterate hs⟩

/-- The iterates stay in every subspace that holds the first residual and is mapped into itself. -/
theorem Extends.exists_iterate_mem (h : p.Extends q) {V : Submodule ℝ (Vector ℝ n)} (hr : q.descent ∈ V)
    (hV : ∀ v ∈ V, q.scaledHessian v ∈ V) (k : Int) :
    ∃ w : Vector ℝ n, (p.solve k).iterate = w ∧ w ∈ V := by
  obtain ⟨s, hs, hmem, -⟩ := run_induction h
    (P := fun s => s.iterate ∈ V ∧ s.scaledResidual ∈ V ∧ s.direction ∈ V) ⟨V.zero_mem, hr, hr⟩
    (fun s status ⟨hw, ht, hd⟩ _ _ => by
      have ht' : (q.advance s).scaledResidual ∈ V := by
        rw [q.scaledResidual_advance, hmul_eq_smul]
        exact V.sub_mem ht (V.smul_mem _ (hV _ hd))
      refine ⟨?_, ht', ?_⟩
      · show (q.advance s).iterate ∈ V
        by_cases hl : q.Leaves s
        · rw [q.iterate_advance_of_leaves hl]
          exact V.add_mem hw (V.smul_mem _ hd)
        · rw [q.iterate_advance_of_not_leaves hl]
          exact V.add_mem hw (V.smul_mem _ hd)
      · show (q.advance s).direction ∈ V
        rw [q.direction_advance]
        exact V.add_mem ht' (V.smul_mem _ hd)) k
  exact ⟨s.iterate, congrArg State.iterate hs, hmem⟩

/-- A run starts unless the gradient vanishes in the scaled variables. -/
theorem Extends.continues_start (h : p.Extends q) (hr : q.descent ≠ 0) : continues p.start = true := by
  have hpos : 0 < dot q.descent q.descent := by
    rw [← norm_sq]
    exact pow_pos (norm_pos_of_ne_zero hr) 2
  have hstatus : q.start.status = .running := if_neg fun hc => hpos.not_ge hc.1
  rw [h.start]
  simp [continues, State.exact, hstatus]

/-- Where the first iteration leaves the trust region, the last iterate is zero, if no iteration is
allowed, or the multiple of steepest descent on the boundary. -/
theorem Extends.solve_of_leaves (h : p.Extends q) (hr : q.descent ≠ 0) (hρ : 0 < q.radius)
    (hl : q.Leaves q.start) (k : Int) :
    k ≤ 0 ∧ (p.solve k).iterate = (0 : Vector ℝ n) ∨
      (p.solve k).iterate = ((q.radius / norm q.descent) • q.descent : Vector ℝ n) ∧
        ((p.solve k).status = .negativeCurvature ∨ (p.solve k).status = .boundary) := by
  have hl' : p.Leaves p.start := h.start ▸ (h.leaves_iff q.start).2 hl
  rcases hk : k.toNat with _ | j
  · refine .inl ⟨by omega, ?_⟩
    have hrun : (p.run k).state = p.start := by rw [run, hk]; rfl
    show (p.run k).state.iterate = _
    rw [hrun, h.start]; rfl
  · right
    have hstart := h.continues_start hr
    have hrun : (p.run k).state = p.advance p.start := by
      rw [run, hk, advanceWhile_of_advance hstart (continues_advance_of_leaves hl')]
    have hstatus := status_advance_of_leaves hl'
    rw [← hrun] at hstatus
    constructor
    · have hreal : q.start.iterate + TrustRegion.boundaryStep q.start.iterate q.start.direction q.radius *
          q.start.direction = (q.radius / norm q.descent) • q.descent := by
        show 0 + TrustRegion.boundaryStep 0 q.descent q.radius * q.descent = _
        rw [zero_add, TrustRegion.boundaryStep_zero hr hρ, hmul_eq_smul]
      show (p.run k).state.iterate = _
      rw [hrun, iterate_advance_of_leaves hl', h.start, h.boundaryStep, ← hreal, Exact.coe_add_vector,
        Exact.coe_hmul_vector]; rfl
    · show (if (p.run k).state.status = .running then _ else (p.run k).state.status) = _ ∨
        (if (p.run k).state.status = .running then _ else (p.run k).state.status) = _
      rcases hstatus with hs | hs <;> simp [hs]

/-- For a symmetric Hessian the model descends along the ray to the last iterate. -/
theorem Extends.exists_descending {B : Vector ℝ n →ₗ[ℝ] Vector ℝ n} (h : p.Extends q) (hB : IsSymmetric B)
    (hq : ∀ v, q.scaledHessian v = B v) (k : Int) :
    ∃ w : Vector ℝ n, (p.solve k).iterate = w ∧ Descending B q.descent w := by
  obtain ⟨s, hs, hw, -⟩ := run_induction h
    (P := fun s => Descending B q.descent s.iterate ∧ (s.status = .running → ∃ S, Krylov B q.descent S s))
    ⟨descending_zero B _, fun _ => ⟨⊥, krylov_start q⟩⟩
    (fun s status ⟨hw, hK⟩ hrun hl => by
      obtain ⟨S, hS⟩ := hK hrun
      exact ⟨hS.descending_advance hB hq hw, fun hst => ⟨_, (hS.advance hB hq (hl hst)).setStatus status⟩⟩) k
  exact ⟨s.iterate, congrArg State.iterate hs, hw⟩

end Problem

end BoxNewton.ConjugateGradient
