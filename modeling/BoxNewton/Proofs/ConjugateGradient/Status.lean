/-
What the status of conjugate gradients says is true of the last iterate, for any linear Hessian. The
residuals are updated and never recomputed, so the invariant of a running iteration is that they are those
of the iterate (`Tracks`); as a direction then never vanishes before the residual does, the boundary step
always finds the boundary. What each status vouches for is kept from one iteration to the next
(`Vouched.advance`).
-/
import BoxNewton.Proofs.ConjugateGradient.Descent

namespace BoxNewton.ConjugateGradient

variable {n : ℕ}

namespace Problem

/-- The gradient of the model at the point with the scaled variables `w`. -/
def gradientAt {α : Type} [Scalar α] (p : Problem α n) (w : Vector α n) : Vector α n :=
  p.model.gradient + p.model.hessian (p.preconditioner.solveTransposed w)

theorem Extends.gradientAt {P : Problem Exact n} {p : Problem ℝ n} (h : P.Extends p) (w : Vector ℝ n) :
    P.gradientAt w = (p.gradientAt w : Vector Exact n) := by
  unfold Problem.gradientAt
  rw [h.model.gradient, h.solveTransposed, h.model.hessian, Exact.coe_add_vector]

end Problem

variable {p : Problem ℝ n} {s : State ℝ n}

/-! ## The residuals -/

/-- The residuals are those of the iterate, and the direction keeps its share of them. -/
structure Tracks (p : Problem ℝ n) (s : State ℝ n) : Prop where
  residual_eq : s.residual = -p.gradientAt s.iterate
  scaledResidual_eq : s.scaledResidual = p.preconditioner.solve s.residual
  energy_eq : s.energy = dot s.scaledResidual s.scaledResidual
  residual_direction : dot s.scaledResidual s.direction = s.energy

theorem Tracks.direction_ne_zero (h : Tracks p s) (he : 0 < s.energy) : s.direction ≠ 0 := fun h0 => by
  have hd := h.residual_direction
  rw [h0, dot_zero_right] at hd
  exact he.ne hd

theorem Tracks.norm_residual (h : Tracks p s) : norm s.residual = norm (p.gradientAt s.iterate) := by
  rw [h.residual_eq, norm_neg]

section Linear

variable {A : Vector ℝ n →ₗ[ℝ] Vector ℝ n} (hA : ∀ v, p.model.hessian v = A v) (hc : p.preconditioner.Sound)

include hA hc

theorem gradientAt_zero : p.gradientAt 0 = p.model.gradient := by
  have hT : p.preconditioner.solveTransposed 0 = 0 := map_zero hc.solveTransposedLinear
  rw [Problem.gradientAt, hT, hA, map_zero, add_zero]

theorem gradientAt_add_smul (w d : Vector ℝ n) (t : ℝ) :
    p.gradientAt (w + t • d) = p.gradientAt w + t • p.model.hessian (p.preconditioner.solveTransposed d) := by
  have hT : p.preconditioner.solveTransposed (w + t • d) =
      p.preconditioner.solveTransposed w + t • p.preconditioner.solveTransposed d := by
    show hc.solveTransposedLinear (w + t • d) = _
    rw [map_add, map_smul]; rfl
  rw [Problem.gradientAt, Problem.gradientAt, hT, hA, hA, hA, map_add, map_smul, add_assoc]

omit hA in
theorem Tracks.sqrt_energy (h : Tracks p s) : √s.energy = norm (p.preconditioner.solve (p.gradientAt s.iterate)) := by
  have hneg : p.preconditioner.solve (-p.gradientAt s.iterate) = -p.preconditioner.solve (p.gradientAt s.iterate) :=
    map_neg hc.solveLinear _
  rw [h.energy_eq, h.scaledResidual_eq, h.residual_eq, hneg, ← sqrt_real, ← norm, norm_neg]

theorem tracks_start : Tracks p p.start where
  residual_eq := by
    show -p.model.gradient = -p.gradientAt 0
    rw [gradientAt_zero hA hc]
  scaledResidual_eq := rfl
  energy_eq := rfl
  residual_direction := rfl

/-- A step to the minimum along the direction takes the residuals along. -/
theorem Tracks.advance (h : Tracks p s) (hl : ¬ p.Leaves s) : Tracks p (p.advance s) where
  residual_eq := by
    have hr : (p.advance s).residual =
        s.residual - p.stepLength s • p.model.hessian (p.preconditioner.solveTransposed s.direction) := rfl
    rw [hr, p.iterate_advance_of_not_leaves hl, hmul_eq_smul, gradientAt_add_smul hA hc, h.residual_eq, neg_add,
      sub_eq_add_neg]
  scaledResidual_eq := by
    have hsub : p.preconditioner.solve (p.advance s).residual = p.preconditioner.solve s.residual -
        p.stepLength s • p.scaledHessian s.direction := by
      show hc.solveLinear (s.residual - p.stepLength s • p.model.hessian (p.preconditioner.solveTransposed s.direction)) = _
      rw [map_sub, map_smul]; rfl
    rw [p.scaledResidual_advance, hmul_eq_smul, h.scaledResidual_eq, hsub]
  energy_eq := p.energy_advance s
  residual_direction := by
    have hκ := curvature_pos hl
    -- the new residual is orthogonal to the direction just used, whatever the Hessian
    have horth : dot (p.advance s).scaledResidual s.direction = 0 := by
      have hq : dot (p.scaledHessian s.direction) s.direction = p.curvature s := dot_comm _ _
      rw [p.scaledResidual_advance, hmul_eq_smul, dot_sub_left, dot_smul_left, hq, h.residual_direction, stepLength_eq hl,
        div_mul_cancel₀ _ hκ.ne', sub_self]
    rw [p.direction_advance, hmul_eq_smul, dot_add_right, dot_smul_right, horth, mul_zero, add_zero, p.energy_advance]

end Linear

/-! ## What the statuses vouch for -/

/-- What a status says of a state: that the residuals are those of the iterate, while the iteration runs, and
otherwise the reason it ended for. -/
def Status.Holds (P : Problem Exact n) (p : Problem ℝ n) (s : State ℝ n) : Status → Prop
  | running => Tracks p s ∧ 0 < s.energy
  | negativeCurvature | boundary => norm s.iterate = p.radius
  | converged => p.gradientAt s.iterate = 0 ∨ ((norm (p.gradientAt s.iterate) : ℝ) : Exact) ≤ P.tolerance
  | convergedScaled =>
    ¬ ((norm (p.gradientAt s.iterate) : ℝ) : Exact) ≤ P.tolerance ∧
      ((norm (p.preconditioner.solve (p.gradientAt s.iterate)) : ℝ) : Exact) ≤ P.scaledTolerance
  | iterationLimit => False

theorem Status.Holds.setStatus {P : Problem Exact n} {status : Status} (h : status.Holds P p s) (t : Status) :
    status.Holds P p { s with status := t } := by
  cases status with
  | running => exact ⟨⟨h.1.1, h.1.2, h.1.3, h.1.4⟩, h.2⟩
  | _ => exact h

/-- The iterate lies within the trust region, and the status is true. -/
structure Vouched (P : Problem Exact n) (p : Problem ℝ n) (s : State ℝ n) : Prop where
  within : norm s.iterate ≤ p.radius
  status : s.status.Holds P p s

section Vouched

variable {P : Problem Exact n} {A : Vector ℝ n →ₗ[ℝ] Vector ℝ n} (h : P.Extends p)
  (hA : ∀ v, p.model.hessian v = A v) (hc : p.preconditioner.Sound)

include hA hc in
theorem vouched_start (hρ : 0 ≤ p.radius) : Vouched P p p.start where
  within := norm_zero.trans_le hρ
  status := by
    have hstatus : p.start.status = if Coincide p.start.energy 0 then .converged else .running := rfl
    rw [hstatus]
    split_ifs with he
    · -- a scaled residual that vanishes comes from a gradient that does
      left
      show p.gradientAt 0 = 0
      rw [gradientAt_zero hA hc]
      by_contra hne
      have hr : p.descent ≠ 0 := by
        rw [Problem.descent_eq hc, neg_ne_zero]
        exact hc.solve_ne_zero _ hne
      exact hr (dot_self_eq_zero.1 (le_antisymm he.1 he.2))
    · exact ⟨tracks_start hA hc, lt_of_le_of_ne (dot_self_nonneg _) fun h0 => he ⟨h0.ge, h0.le⟩⟩

include h hA hc in
/-- An iteration ends with a status that is true of its iterate. -/
theorem Vouched.advance (hs : 0 ≤ P.scaledTolerance) (hv : Vouched P p s) (hrun : s.status = .running) :
    Vouched P p { p.advance s with status := (P.advance s.exact).status } := by
  obtain ⟨hin, hstatus⟩ := hv
  rw [hrun] at hstatus
  obtain ⟨ht, he⟩ := hstatus
  have hd := ht.direction_ne_zero he
  by_cases hl : p.Leaves s
  · have hboundary : norm (p.advance s).iterate = p.radius := by
      rw [p.iterate_advance_of_leaves hl, hmul_eq_smul, TrustRegion.norm_add_boundaryStep hd hin]
    refine ⟨hboundary.le, ?_⟩
    refine Status.Holds.setStatus ?_ _
    rcases Problem.status_advance_of_leaves ((h.leaves_iff s).2 hl) with hst | hst <;> rw [hst] <;> exact hboundary
  · have hκ := curvature_pos hl
    have ht' := ht.advance hA hc hl
    refine ⟨?_, ?_⟩
    · have hlt : p.stepLength s < TrustRegion.boundaryStep s.iterate s.direction p.radius :=
        not_le.1 fun hle => hl (.inr hle)
      have h0 : 0 ≤ p.stepLength s := by
        rw [stepLength_eq hl]
        exact (div_pos he hκ).le
      show norm (p.advance s).iterate ≤ p.radius
      rw [p.iterate_advance_of_not_leaves hl, hmul_eq_smul]
      exact TrustRegion.norm_add_smul_le hd hin h0 hlt.le
    · refine Status.Holds.setStatus ?_ _
      have hres : (P.advance s.exact).residual = ((p.advance s).residual : Vector Exact n) := by rw [h.advance s]; rfl
      have hen : (P.advance s.exact).energy = ((p.advance s).energy : Exact) := by rw [h.advance s]; rfl
      have hnonneg : 0 ≤ (p.advance s).energy := ht'.energy_eq ▸ dot_self_nonneg _
      rw [Problem.status_advance_of_not_leaves (mt (h.leaves_iff s).1 hl), hres, hen, ← Exact.coe_norm, ← Exact.coe_sqrt hnonneg,
        ht'.norm_residual, ht'.sqrt_energy hc]
      split_ifs with h1 h2
      · exact .inr h1
      · exact ⟨h1, h2⟩
      · refine ⟨ht', lt_of_le_of_ne hnonneg fun h0 => h2 ?_⟩
        rw [← ht'.sqrt_energy hc, ← h0, Real.sqrt_zero]
        exact hs

include h hA hc in
theorem exists_vouched (hs : 0 ≤ P.scaledTolerance) (hρ : 0 ≤ p.radius) (k : ℤ) :
    ∃ s, (P.run k).state = s.exact ∧ Vouched P p s :=
  h.exists_state (vouched_start hA hc hρ) (fun _ hv hrun => hv.advance h hA hc hs hrun) k

end Vouched

/-! ## The result -/

/-- A run that its limit stopped has used all of it, and any other ends with the status of its last state. -/
theorem Problem.status_solve {α : Type} [Scalar α] (p : Problem α n) (k : ℤ) :
    (p.run k).state.status = .running ∧ (p.solve k).status = .iterationLimit ∧ (p.solve k).iterations = k.toNat ∨
      (p.run k).state.status ≠ .running ∧ (p.solve k).status = (p.run k).state.status := by
  by_cases hrun : (p.run k).state.status = .running
  · refine .inl ⟨hrun, if_pos hrun, (steps_advanceWhile_le _ _ _ _).eq_or_lt.resolve_right fun hlt => ?_⟩
    have hstop := test_advanceWhile_of_lt hlt
    rw [continues, show (advanceWhile continues p.advance k.toNat p.start).state.status = .running from hrun] at hstop
    cases hstop
  · exact .inr ⟨hrun, if_neg hrun⟩

/-- The last iterate is the real vector `w`, and the status is true of it. -/
structure Truthful (P : Problem Exact n) (p : Problem ℝ n) (k : ℤ) (w : Vector ℝ n) : Prop where
  iterate_eq : (P.solve k).iterate = w
  within : norm w ≤ p.radius
  boundary : (P.solve k).status = .negativeCurvature ∨ (P.solve k).status = .boundary → norm w = p.radius
  converged : (P.solve k).status = .converged → p.gradientAt w = 0 ∨ ((norm (p.gradientAt w) : ℝ) : Exact) ≤ P.tolerance
  convergedScaled : (P.solve k).status = .convergedScaled →
    ¬ ((norm (p.gradientAt w) : ℝ) : Exact) ≤ P.tolerance ∧
      ((norm (p.preconditioner.solve (p.gradientAt w)) : ℝ) : Exact) ≤ P.scaledTolerance
  iterationLimit : (P.solve k).status = .iterationLimit →
    (P.run k).state.status = .running ∧ (P.solve k).iterations = k.toNat
  ended : (P.solve k).status ≠ .running

theorem exists_truthful {P : Problem Exact n} {A : Vector ℝ n →ₗ[ℝ] Vector ℝ n} (h : P.Extends p)
    (hA : ∀ v, p.model.hessian v = A v) (hc : p.preconditioner.Sound) (hs : 0 ≤ P.scaledTolerance)
    (hρ : 0 ≤ p.radius) (k : ℤ) : ∃ w, Truthful P p k w := by
  obtain ⟨s, hstate, hin, hstatus⟩ := exists_vouched h hA hc hs hρ k
  have hiterate : (P.solve k).iterate = s.iterate := congrArg State.iterate hstate
  rcases P.status_solve k with ⟨hrun, hlimit, hused⟩ | ⟨hrun, hsame⟩
  · refine ⟨s.iterate, hiterate, hin, ?_, ?_, ?_, fun _ => ⟨hrun, hused⟩, ?_⟩ <;> rw [hlimit] <;> simp
  · have hst : s.status = (P.solve k).status := (hsame.trans (congrArg State.status hstate)).symm
    have hholds : ∀ t, (P.solve k).status = t → t.Holds P p s := fun t ht => (hst.trans ht) ▸ hstatus
    exact ⟨s.iterate, hiterate, hin, fun hb => hb.elim (hholds _) (hholds _), hholds _, hholds _,
      fun hb => (hholds _ hb).elim, hsame ▸ hrun⟩

section Triangular

variable {L : Option (SquareMatrix ℝ n)} (hL : ∀ M ∈ L, M.Nonsingular)

include hL

/-- The problem that real data pose in the variables of a triangular change. -/
theorem extends_problem {H : Operator Exact n} {A : Vector ℝ n →ₗ[ℝ] Vector ℝ n} (hH : Extends H A) (g : Vector ℝ n)
    (radius : ℝ) (tol stol : Exact) :
    Problem.Extends ⟨⟨g, H⟩, triangular (L.map Exact.matrix), radius, tol, stol⟩
      ⟨⟨g, A⟩, triangular L, radius, 0, 0⟩ :=
  ⟨⟨rfl, hH⟩, (extends_triangular hL).1, (extends_triangular hL).2, rfl⟩

/-- For any linear Hessian, symmetric or not, in the variables of any triangular change: the last iterate lies
within the trust region, and on its boundary where the status says so; a residual that the status calls small
is so; and only a run that used up its iterations reports that. -/
theorem solve_vouches {H : Operator Exact n} {A : Vector ℝ n →ₗ[ℝ] Vector ℝ n} (hH : Extends H A) (g : Vector ℝ n)
    {radius : ℝ} (hρ : 0 < radius) {tol stol : Exact} (htol : 0 ≤ tol) (hstol : 0 ≤ stol) {k : ℤ} (hk : 0 ≤ k) :
    let c := triangular (L.map Exact.matrix)
    let P : Problem Exact n := ⟨⟨g, H⟩, c, radius, tol, stol⟩
    let R := P.solve k
    let gradient := (g : Vector Exact n) + H (c.solveTransposed R.iterate)
    norm R.iterate ≤ radius ∧
    (R.status = .negativeCurvature ∨ R.status = .boundary → norm R.iterate = radius) ∧
    (R.status = .converged → norm gradient ≤ tol) ∧
    (R.status = .convergedScaled → norm (c.solve gradient) ≤ stol) ∧
    (R.status = .iterationLimit → (R.iterations : ℤ) = k) ∧
    R.status ≠ .running ∧ (R.iterations : ℤ) ≤ k := by
  intro c P R gradient
  let p : Problem ℝ n := ⟨⟨g, A⟩, triangular L, radius, 0, 0⟩
  have hP : P.Extends p := extends_problem hL hH g radius tol stol
  obtain ⟨w, hw⟩ := exists_truthful hP (fun _ => rfl) (sound_triangular hL) hstol hρ.le k
  have hiterate : R.iterate = w := hw.iterate_eq
  have hgradient : norm gradient = (norm (p.gradientAt w) : ℝ) := by
    rw [Exact.coe_norm, ← hP.gradientAt, ← hiterate]; rfl
  have hscaled : norm (c.solve gradient) = (norm (p.preconditioner.solve (p.gradientAt w)) : ℝ) := by
    rw [Exact.coe_norm, ← hP.solve, ← hP.gradientAt, ← hiterate]; rfl
  have hsteps : R.iterations ≤ k.toNat := steps_advanceWhile_le ..
  rw [hgradient, hscaled, hiterate, ← Exact.coe_norm]
  refine ⟨Exact.coe_le.2 hw.within, fun h => Exact.coe_inj.2 (hw.boundary h), fun h => ?_,
    fun h => (hw.convergedScaled h).2, fun h => ?_, hw.ended, by omega⟩
  · rcases hw.converged h with h0 | h0
    · rw [h0, norm_zero]
      exact htol
    · exact h0
  · have hused : R.iterations = k.toNat := (hw.iterationLimit h).2
    omega

end Triangular

/-- A Hessian that is not symmetric, in skew variables. -/
theorem solve_vouches_shear :
    let L : SquareMatrix ℝ 2 := #v[#v[2, 0], #v[1, 1]]
    let A : SquareMatrix ℝ 2 := #v[#v[1, 3], #v[0, 1]]
    let g : Vector ℝ 2 := #v[1, -1]
    let c := triangular (some (Exact.matrix L))
    let P : Problem Exact 2 := ⟨⟨g, (Exact.matrix A).apply⟩, c, (1 : ℝ), (0.1 : ℝ), (0 : ℝ)⟩
    let R := P.solve 3
    let gradient := (g : Vector Exact 2) + (Exact.matrix A).apply (c.solveTransposed R.iterate)
    L.Nonsingular ∧ norm R.iterate ≤ (1 : ℝ) ∧
    (R.status = .negativeCurvature ∨ R.status = .boundary → norm R.iterate = (1 : ℝ)) ∧
    (R.status = .converged → norm gradient ≤ (0.1 : ℝ)) ∧
    (R.status = .convergedScaled → norm (c.solve gradient) ≤ (0 : ℝ)) ∧
    (R.status = .iterationLimit → (R.iterations : ℤ) = 3) ∧
    R.status ≠ .running ∧ (R.iterations : ℤ) ≤ 3 := by
  intro L A g c P R gradient
  have hL : L.Nonsingular := Fin.forall_fin_two.2 ⟨two_ne_zero, one_ne_zero⟩
  have hL' : ∀ M ∈ some L, M.Nonsingular := fun M hM => Option.mem_some.1 hM ▸ hL
  exact ⟨hL, solve_vouches hL' (extends_matrix A) g one_pos (Exact.coe_le.2 (by norm_num)) (Exact.coe_le.2 le_rfl)
    (by norm_num)⟩

end BoxNewton.ConjugateGradient
