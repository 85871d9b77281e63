/-
Conjugate gradients with a change of variables are conjugate gradients without one in the scaled variables:
on the gradient `L⁻¹ g` and the Hessian `L⁻¹ A L⁻ᵀ`. The two runs differ in one residual only, which the first
keeps in the given variables (`State.scaled`). It does not matter to a tolerance of zero, as a residual vanishes
in both variables or in none. The Hessian need not even be linear.
-/
import BoxNewton.Proofs.ConjugateGradient.Descent

namespace BoxNewton.ConjugateGradient

variable {n : ℕ}

/-! ## The scaled problem -/

/-- The state in the scaled variables. -/
def State.scaled {α : Type} (s : State α n) : State α n := { s with residual := s.scaledResidual }

namespace Problem

/-- The problem in the scaled variables. -/
def scaled {α : Type} (p : Problem α n) : Problem α n where
  model := ⟨p.preconditioner.solve p.model.gradient, p.scaledHessian⟩
  preconditioner := .identity
  radius := p.radius
  tolerance := p.tolerance
  scaledTolerance := p.scaledTolerance

variable {p : Problem ℝ n} {s : State ℝ n}

theorem start_scaled (hc : p.preconditioner.Sound) : p.scaled.start = p.start.scaled := by
  have hr : -p.scaled.model.gradient = p.descent := (descent_eq hc).symm
  unfold start State.scaled
  simp only [hr]
  rfl

/-- The second state is the first one in the scaled variables, and the two residuals of the first one are the same
vector in two variables. -/
structure Scaled (p : Problem ℝ n) (s t : State ℝ n) : Prop where
  eq_scaled : t = s.scaled
  solve_residual : p.preconditioner.solve s.residual = s.scaledResidual

theorem scaled_start (hc : p.preconditioner.Sound) : Scaled p p.start p.scaled.start := ⟨start_scaled hc, rfl⟩

theorem solve_residual_advance (hc : p.preconditioner.Sound)
    (hs : p.preconditioner.solve s.residual = s.scaledResidual) :
    p.preconditioner.solve (p.advance s).residual = (p.advance s).scaledResidual := by
  have hresidual : (p.advance s).residual =
      s.residual - p.stepLength s • p.model.hessian (p.preconditioner.solveTransposed s.direction) :=
    congrArg (s.residual - ·) (hmul_eq_smul _ _)
  rw [hresidual, scaledResidual_advance, hmul_eq_smul, ← hs]
  exact (map_sub hc.solveLinear _ _).trans (congrArg (_ - ·) (map_smul hc.solveLinear _ _))

/-- An iteration in the scaled variables does the same, but for the test of the residual. -/
theorem Scaled.advance {t : State ℝ n} (h : Scaled p s t) (hc : p.preconditioner.Sound) (status : Status) :
    Scaled p { p.advance s with status := status } { p.scaled.advance t with status := status } where
  eq_scaled := by
    rw [h.eq_scaled]
    rfl
  solve_residual := solve_residual_advance hc h.solve_residual

/-- The residual vanishes after both iterations or after none. -/
theorem Scaled.residual_eq_zero_iff {t : State ℝ n} (h : Scaled p s t) (hc : p.preconditioner.Sound) :
    (p.scaled.advance t).residual = 0 ↔ (p.advance s).residual = 0 := by
  have hresidual : (p.scaled.advance t).residual = (p.advance s).scaledResidual := by
    rw [h.eq_scaled]
    rfl
  rw [hresidual, ← solve_residual_advance hc h.solve_residual, hc.solve_eq_zero_iff]

/-! ## In exact arithmetic -/

variable {P P' : Problem Exact n}

/-- Without a tolerance for the residual in the given variables, the two runs are the same. -/
theorem Extends.solve_scaled (h : P.Extends p) (h' : P'.Extends p.scaled) (hc : p.preconditioner.Sound)
    (htol : P.tolerance = 0) (htol' : P'.tolerance = 0) (hstol : P'.scaledTolerance = P.scaledTolerance) (k : ℤ) :
    P.solve k = P'.solve k := by
  have hzero : ∀ v : Vector ℝ n, ((norm v : ℝ) : Exact) ≤ 0 ↔ v = 0 := fun v =>
    ⟨fun hv => eq_zero_of_norm_le (Exact.coe_le.1 hv), fun hv => by rw [hv, norm_zero]; exact Exact.coe_le.2 le_rfl⟩
  have hstatus : ∀ {s t}, Scaled p s t → t.status = s.status := fun hst => hst.eq_scaled ▸ rfl
  have hkeep : ∀ {s t}, Scaled p s t → (P'.advance t.exact).status = (P.advance s.exact).status ∧
      ∀ status, Scaled p { p.advance s with status := status } { p.scaled.advance t with status := status } := by
    intro s t hst
    refine ⟨?_, hst.advance hc⟩
    have hresidual := hst.residual_eq_zero_iff hc
    obtain ⟨rfl, -⟩ := hst
    refine h.status_advance_eq h' Iff.rfl rfl rfl hstol ?_
    rw [htol, htol', hzero, hzero, hresidual]
  obtain ⟨s, _, ⟨rfl, -⟩, hiterate, hiterate', hsteps, hlast⟩ := h.solve_related h' hstatus (scaled_start hc) hkeep k
  show (⟨(P.solve k).iterate, (P.solve k).iterations, (P.solve k).status⟩ : Result Exact n) =
    ⟨(P'.solve k).iterate, (P'.solve k).iterations, (P'.solve k).status⟩
  rw [hiterate, hiterate', hsteps, hlast]
  rfl

end Problem

/-- Conjugate gradients in the variables of a lower triangle are conjugate gradients without a change of
variables, on the gradient and the Hessian multiplied by the inverses of the triangle and of its transpose. -/
theorem solve_eq_solve_scaled {H H' : Operator Exact n} {A : Operator ℝ n} {L : SquareMatrix ℝ n} (hL : L.Nonsingular)
    (hH : Extends H A)
    (hH' : Extends H' fun v =>
      SquareMatrix.product L.lowerTriangle⁻¹ (A (SquareMatrix.product L.lowerTriangle.transpose⁻¹ v)))
    (g : Vector ℝ n) (radius : ℝ) (stol : Exact) (k : ℤ) :
    let P : Problem Exact n := ⟨⟨g, H⟩, .lower (Exact.matrix L), radius, 0, stol⟩
    let P' : Problem Exact n :=
      ⟨⟨(SquareMatrix.product L.lowerTriangle⁻¹ g : Vector ℝ n), H'⟩, .identity, radius, 0, stol⟩
    P.solve k = P'.solve k := by
  intro P P'
  let p : Problem ℝ n := ⟨⟨g, A⟩, .lower L, radius, 0, 0⟩
  have h : P.Extends p :=
    ⟨⟨rfl, hH⟩, SquareMatrix.extends_solveLower hL, SquareMatrix.extends_solveTransposed hL, rfl⟩
  have h' : P'.Extends p.scaled := by
    simp only [← SquareMatrix.solveLower_eq hL, ← SquareMatrix.solveTransposed_eq hL] at hH'
    exact ⟨⟨congrArg Exact.vector (SquareMatrix.solveLower_eq hL g).symm, hH'⟩, fun _ => rfl, fun _ => rfl, rfl⟩
  exact h.solve_scaled h' (sound_lower hL) rfl rfl rfl k

/-- The entry above the diagonal is not read, and the Hessian is not linear. -/
theorem solve_eq_solve_scaled_cubic :
    let L : SquareMatrix ℝ 2 := #v[#v[2, 7], #v[1, 3]]
    let c : Preconditioner Exact 2 := .lower (Exact.matrix L)
    let H : Operator Exact 2 := fun v => dot v v * v
    let H' : Operator Exact 2 := fun v => c.solve (H (c.solveTransposed v))
    let g : Vector ℝ 2 := #v[1, -1]
    let P : Problem Exact 2 := ⟨⟨g, H⟩, c, (1 : ℝ), 0, (0.1 : ℝ)⟩
    let P' : Problem Exact 2 :=
      ⟨⟨(SquareMatrix.product L.lowerTriangle⁻¹ g : Vector ℝ 2), H'⟩, .identity, (1 : ℝ), 0, (0.1 : ℝ)⟩
    (L.Nonsingular ∧ ∀ v : Vector ℝ 2, H v = ((dot v v * v : Vector ℝ 2) : Vector Exact 2)) ∧
    P.solve 5 = P'.solve 5 := by
  intro L c H H' g P P'
  have hL : L.Nonsingular := Fin.forall_fin_two.2 ⟨two_ne_zero, three_ne_zero⟩
  have hH : Extends H fun v : Vector ℝ 2 => dot v v * v := fun v => by
    show dot (v : Vector Exact 2) v * (v : Vector Exact 2) = _
    rw [← Exact.coe_dot, ← Exact.coe_hmul_vector]
  refine ⟨⟨hL, hH⟩, solve_eq_solve_scaled hL hH (fun v => ?_) g 1 _ 5⟩
  show (Exact.matrix L).solveLower (H ((Exact.matrix L).solveTransposed v)) = _
  rw [SquareMatrix.extends_solveTransposed hL, hH, SquareMatrix.extends_solveLower hL, SquareMatrix.solveLower_eq hL,
    SquareMatrix.solveTransposed_eq hL]

end BoxNewton.ConjugateGradient
