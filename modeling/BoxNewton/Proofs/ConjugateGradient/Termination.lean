/-
Conjugate gradients end. Every iteration within the trust region adds a direction to the span of those
before, so after as many iterations as there are dimensions the residual vanishes (`Underway.le`), for any
symmetric Hessian. If that is definite, the iterates grow towards the minimizer without ever being longer
(`Inside.norm_next_le`): a trust region that holds the minimizer is never left.
-/
import BoxNewton.Proofs.ConjugateGradient.Status
import Mathlib.LinearAlgebra.FiniteDimensional.Lemmas

namespace BoxNewton

variable {n : ℕ}

/-! ## Dimension -/

def entries : Vector ℝ n ≃ₗ[ℝ] (Fin n → ℝ) where
  toFun := Vector.get
  map_add' x y := funext (get_add x y)
  map_smul' t x := funext (get_smul t x)
  invFun := Vector.ofFn
  left_inv _ := ext_get fun i => get_ofFn _ i
  right_inv f := funext (get_ofFn f)

instance instFiniteDimensionalVector : FiniteDimensional ℝ (Vector ℝ n) := entries.symm.finiteDimensional

theorem finrank_vector : Module.finrank ℝ (Vector ℝ n) = n := by
  rw [entries.finrank_eq, Module.finrank_fin_fun]

namespace ConjugateGradient

variable {B : Vector ℝ n →ₗ[ℝ] Vector ℝ n} {r₀ : Vector ℝ n} {S : Submodule ℝ (Vector ℝ n)} {p : Problem ℝ n}
  {s : State ℝ n}

/-! ## The span of the directions -/

theorem Krylov.finrank_lt (h : Krylov B r₀ S s) (he : 0 < s.energy) :
    Module.finrank ℝ S < Module.finrank ℝ (S ⊔ Submodule.span ℝ {s.direction} : Submodule ℝ (Vector ℝ n)) := by
  refine Submodule.finrank_lt_finrank_of_lt (lt_of_le_of_ne le_sup_left fun heq => ?_)
  -- the residual is orthogonal to the span, but not to the direction
  have hmem : s.direction ∈ S := heq ▸ Submodule.mem_sup_right (Submodule.mem_span_singleton_self _)
  have horth := h.residual_orthogonal _ hmem
  rw [h.residual_direction] at horth
  exact he.ne' horth

/-- A span of all vectors leaves no residual. -/
theorem Krylov.energy_eq_zero (h : Krylov B r₀ S s) (hS : n ≤ Module.finrank ℝ S) : s.energy = 0 := by
  have htop : S = ⊤ := Submodule.eq_top_of_finrank_eq (le_antisymm (Submodule.finrank_le S) (finrank_vector.trans_le hS))
  rw [h.energy_eq]
  exact h.residual_orthogonal _ (htop ▸ Submodule.mem_top)

section Run

variable (hB : IsSymmetric B) (hp : ∀ v, p.scaledHessian v = B v) {K : ℕ} (h : Underway p K)

include hB hp h

theorem Underway.exists_krylov {j : ℕ} (hj : j < K) :
    ∃ S : Submodule ℝ (Vector ℝ n), j ≤ Module.finrank ℝ S ∧ Krylov B p.descent S (p.advance^[j] p.start) := by
  induction j with
  | zero => exact ⟨⊥, Nat.zero_le _, krylov_start p⟩
  | succ j ih =>
    obtain ⟨S, hS, hK⟩ := ih (Nat.lt_of_succ_lt hj)
    rw [Function.iterate_succ_apply']
    refine ⟨_, ?_, hK.advance hB hp (h.not_leaves j hj)⟩
    exact hS.trans_lt (hK.finrank_lt (h.energy_pos j (Nat.lt_of_succ_lt hj)))

/-- No more iterations are made than there are dimensions. -/
theorem Underway.le : K ≤ n := by
  by_contra hlt
  have hn : n < K := not_le.1 hlt
  obtain ⟨S, hS, hK⟩ := h.exists_krylov hB hp hn
  exact (h.energy_pos n hn).ne' (hK.energy_eq_zero hS)

end Run

/-! ## Definite Hessians -/

/-- An iteration whose minimum along the direction is inside the trust region stays there. -/
theorem Inside.not_leaves_of_norm_lt (hp : ∀ v, p.scaledHessian v = B v) (h : Inside B r₀ p.radius s)
    (hκ : 0 < dot s.direction (B s.direction))
    (hlt : norm (s.iterate + (s.energy / dot s.direction (B s.direction)) • s.direction) < p.radius) : ¬ p.Leaves s := by
  rw [← curvature_eq hp] at hκ hlt
  rintro (hle | hle)
  · exact hκ.not_ge hle
  · rw [Problem.stepLength, if_pos hκ] at hle
    exact hle.not_gt ((TrustRegion.norm_add_smul_lt_iff h.direction_ne_zero h.norm_lt (div_pos h.energy_pos hκ).le).1 hlt)

theorem Inside.norm_le_add_smul {radius τ : ℝ} (h : Inside B r₀ radius s) (hτ : 0 ≤ τ) :
    norm s.iterate ≤ norm (s.iterate + τ • s.direction) := by
  refine norm_le_of_dot_le (norm_nonneg _) ?_
  rw [norm_sq, dot_add_smul_self]
  nlinarith [mul_nonneg hτ (mul_nonneg hτ h.dot_direction_pos.le), mul_nonneg hτ h.outward]

section Definite

variable (hB : IsSymmetric B) (hpos : IsDefinite B) {w : Vector ℝ n} (hw : B w = r₀)

include hB hpos hw

/-- The minimum along the direction is no farther from the centre than the minimizer. The induction is on the
dimensions left: from that minimum the iteration goes on outwards until it reaches the minimizer. -/
theorem Krylov.norm_next_le {d : ℕ} (hS : Krylov B r₀ S s) (hd : n ≤ Module.finrank ℝ S + d) {radius : ℝ}
    (h : Inside B r₀ radius s) :
    norm (s.iterate + (s.energy / dot s.direction (B s.direction)) • s.direction) ≤ norm w := by
  induction d generalizing S s radius with
  | zero => exact absurd (hS.energy_eq_zero hd) h.energy_pos.ne'
  | succ d ih =>
    set next := s.iterate + (s.energy / dot s.direction (B s.direction)) • s.direction with hnext
    -- a trust region that the next iterate lies in
    let q : Problem ℝ n := ⟨⟨-r₀, B⟩, .identity, norm s.iterate + norm next + 1, 0, 0⟩
    have hq : ∀ v, q.scaledHessian v = B v := fun _ => rfl
    have hκ := hpos _ h.direction_ne_zero
    have hin : Inside B r₀ q.radius s := ⟨h.krylov, h.energy_pos, h.outward, by
      show _ < norm s.iterate + norm next + 1
      linarith [norm_nonneg next]⟩
    have hl : ¬ q.Leaves s := hin.not_leaves_of_norm_lt hq hκ (by
      show norm next < norm s.iterate + norm next + 1
      linarith [norm_nonneg s.iterate])
    have hiterate : (q.advance s).iterate = next := by
      rw [q.iterate_advance_of_not_leaves hl, hmul_eq_smul, stepLength_eq hl, curvature_eq hq]
    have hS' := hS.advance hB hq hl
    rw [← hiterate]
    rcases (hS'.energy_eq ▸ dot_self_nonneg _ : 0 ≤ (q.advance s).energy).eq_or_lt with h0 | he
    · -- the residual vanishes, so this is the minimizer
      have hres : (q.advance s).scaledResidual = 0 := dot_self_eq_zero.1 (hS'.energy_eq ▸ h0.symm)
      rw [hS'.residual_eq, sub_eq_zero, ← hw] at hres
      rw [hpos.injective hres]
    · have hin' := hin.advance hB hq hl he
      have hlt := hS.finrank_lt h.energy_pos
      have hκ' := hpos _ hin'.direction_ne_zero
      exact (hin'.norm_le_add_smul (div_pos he hκ').le).trans (ih hS' (by omega) hin')

/-- A trust region that holds the minimizer is not left. -/
theorem Inside.not_leaves (hp : ∀ v, p.scaledHessian v = B v) (h : Inside B r₀ p.radius s) (hlt : norm w < p.radius) :
    ¬ p.Leaves s := by
  obtain ⟨S, hS⟩ := h.krylov
  refine h.not_leaves_of_norm_lt hp (hpos _ h.direction_ne_zero) (lt_of_le_of_lt ?_ hlt)
  exact hS.norm_next_le hB hpos hw (Nat.le_add_left _ _) h

end Definite

/-! ## Runs in exact arithmetic -/

theorem Preconditioner.Sound.solveTransposed_ne_zero {c : Preconditioner ℝ n} (hc : c.Sound) {x : Vector ℝ n}
    (hx : x ≠ 0) : c.solveTransposed x ≠ 0 := fun h0 => by
  have hinj : Function.Injective hc.solveLinear := (injective_iff_map_eq_zero _).2 fun v hv => by
    by_contra hne
    exact hc.solve_ne_zero v hne hv
  -- in finitely many dimensions every vector is a solution
  obtain ⟨v, hv⟩ := LinearMap.injective_iff_surjective.1 hinj x
  have hdot : dot x (c.solve v) = 0 := by rw [hc.dot_solve, h0, dot_zero_left]
  have hv' : c.solve v = x := hv
  rw [hv', dot_self_eq_zero] at hdot
  exact hx hdot

theorem Preconditioner.Sound.isDefinite_scaled {c : Preconditioner ℝ n} (hc : c.Sound)
    {A : Vector ℝ n →ₗ[ℝ] Vector ℝ n} (hA : IsDefinite A) : IsDefinite (hc.scaled A) := fun x hx => by
  show 0 < dot x (c.solve (A (c.solveTransposed x)))
  rw [hc.dot_solve]
  exact hA _ (hc.solveTransposed_ne_zero hx)

namespace Problem

theorem status_start_cases {α : Type} [Scalar α] (P : Problem α n) :
    P.start.status = .converged ∨ P.start.status = .running := by
  have hstatus : P.start.status = if Coincide P.start.energy 0 then .converged else .running := rfl
  rw [hstatus]
  split <;> simp

theorem status_iterate_steps {α : Type} [Scalar α] (P : Problem α n) (k : ℤ) :
    (P.advance^[(P.run k).steps] P.start).status = (P.run k).state.status := by
  rw [run, ← state_advanceWhile]

/-- A run that ends on the boundary left the trust region in its last iteration. -/
theorem exists_leaves {α : Type} [Scalar α] {P : Problem α n} {k : ℤ}
    (h : (P.run k).state.status = .negativeCurvature ∨ (P.run k).state.status = .boundary) :
    ∃ j < (P.run k).steps, P.Leaves (P.advance^[j] P.start) := by
  rw [← status_iterate_steps] at h
  rcases hK : (P.run k).steps with _ | j
  · rw [hK, Function.iterate_zero_apply] at h
    rcases P.status_start_cases with hs | hs <;> rw [hs] at h <;> simp at h
  · refine ⟨j, j.lt_succ_self, ?_⟩
    by_contra hl
    rw [hK, Function.iterate_succ_apply', status_advance_of_not_leaves hl] at h
    split_ifs at h <;> simp at h

variable {P : Problem Exact n} (h : P.Extends p) (hB : IsSymmetric B) (hp : ∀ v, p.scaledHessian v = B v)
  (hs : 0 ≤ P.scaledTolerance)

include h in
theorem Extends.descent_ne_zero (hrun : P.start.status = .running) : p.descent ≠ 0 := fun h0 => by
  have henergy : p.start.energy = 0 := dot_self_eq_zero.2 h0
  have hstatus : p.start.status = .converged := if_pos ⟨henergy.le, henergy.ge⟩
  rw [h.start] at hrun
  cases hstatus.symm.trans hrun

include h hB hp hs in
theorem Extends.le_of_running {K : ℕ} (hrun : ∀ j < K, (P.advance^[j] P.start).status = .running) : K ≤ n := by
  rcases K.eq_zero_or_pos with rfl | hK
  · exact Nat.zero_le n
  · exact (h.underway_of_running (h.descent_ne_zero (hrun 0 hK)) hs hrun).le hB hp

include h hB hp hs in
/-- As many iterations as there are dimensions are enough. -/
theorem Extends.terminates {k : ℤ} (hk : n ≤ k) : (P.run k).steps ≤ n ∧ (P.run k).state.status ≠ .running := by
  refine ⟨h.le_of_running hB hp hs fun j => status_iterate_of_lt, fun hrun => ?_⟩
  have hused : (P.run k).steps = k.toNat := by
    rcases P.status_solve k with ⟨-, -, hused⟩ | ⟨hne, -⟩
    · exact hused
    · exact absurd hrun hne
  have hle : (P.run k).steps + 1 ≤ n := h.le_of_running hB hp hs fun j hj => by
    rcases (Nat.lt_succ_iff.1 hj).eq_or_lt with rfl | hlt
    · rw [status_iterate_steps, hrun]
    · exact status_iterate_of_lt hlt
  omega

/-- Without tolerances a run that converged has reached a point where the gradient vanishes. -/
theorem gradientAt_eq_zero {k : ℤ} {v : Vector ℝ n} (hv : Truthful P p k v) (hc : p.preconditioner.Sound)
    (htol : P.tolerance = 0) (hstol : P.scaledTolerance = 0)
    (hst : (P.solve k).status = .converged ∨ (P.solve k).status = .convergedScaled) : p.gradientAt v = 0 := by
  rcases hst with hst | hst
  · refine (hv.converged hst).elim id fun hle => eq_zero_of_norm_le ?_
    rwa [htol, ← Exact.coe_zero, Exact.coe_le] at hle
  · have hle := (hv.convergedScaled hst).2
    rw [hstol, ← Exact.coe_zero, Exact.coe_le] at hle
    by_contra hne
    exact hc.solve_ne_zero _ hne (eq_zero_of_norm_le hle)

include h hB hp in
/-- With a definite Hessian and no tolerance a trust region that holds the minimizer is left by convergence
alone. -/
theorem Extends.status_eq_converged (hc : p.preconditioner.Sound) (hpos : IsDefinite B) {w : Vector ℝ n}
    (hw : B w = p.descent) (hlt : norm w < p.radius) (htol : P.tolerance = 0) (hstol : P.scaledTolerance = 0) {k : ℤ}
    (hk : n ≤ k) {v : Vector ℝ n} (hv : Truthful P p k v) : (P.solve k).status = .converged := by
  have hs : 0 ≤ P.scaledTolerance := by
    rw [hstol]
    exact Exact.coe_le.2 le_rfl
  obtain ⟨-, hended⟩ := h.terminates hB hp hs hk
  have hsame : (P.solve k).status = (P.run k).state.status := if_neg hended
  have hstays : ¬ ((P.solve k).status = .negativeCurvature ∨ (P.solve k).status = .boundary) := fun hb => by
    obtain ⟨j, hj, hl⟩ := exists_leaves (hsame ▸ hb)
    have hr : p.descent ≠ 0 := h.descent_ne_zero (status_iterate_of_lt (j := 0) (Nat.zero_lt_of_lt hj))
    have hin := (h.underway hr hs k).inside hB hp ((norm_nonneg w).trans_lt hlt) hj
    rw [h.iterate j, h.leaves_iff] at hl
    exact hin.not_leaves hB hpos hw hp hlt hl
  cases hst : (P.solve k).status with
  | converged => rfl
  | running => exact absurd hst hv.ended
  | negativeCurvature => exact absurd (.inl hst) hstays
  | boundary => exact absurd (.inr hst) hstays
  | iterationLimit => exact absurd (hv.iterationLimit hst).1 hended
  | convergedScaled =>
    -- a gradient that vanishes passes the other test first
    obtain ⟨hno, -⟩ := hv.convergedScaled hst
    rw [gradientAt_eq_zero hv hc htol hstol (.inr hst), norm_zero, htol] at hno
    exact absurd (Exact.coe_le.2 le_rfl) hno

end Problem

/-! ## The result -/

/-- The scaled variables of a vector: its product with the transposed lower triangle, if one is given. -/
noncomputable def scale (L : Option (SquareMatrix ℝ n)) (z : Vector ℝ n) : Vector ℝ n :=
  L.elim z fun M => M.applyTransposed z

section Triangular

variable {L : Option (SquareMatrix ℝ n)} (hL : ∀ M ∈ L, M.Nonsingular)

include hL

theorem solveTransposed_scale (z : Vector ℝ n) : (triangular L).solveTransposed (scale L z) = z := by
  cases L with
  | none => rfl
  | some M => exact SquareMatrix.solveTransposed_applyTransposed (hL M rfl) z

/-- For a symmetric Hessian, in the variables of any triangular change, as many iterations as there are
dimensions are enough. If the Hessian is definite, nothing is tolerated and the minimizer lies inside the
trust region, they end with convergence to it. -/
theorem solve_terminates {H : Operator Exact n} {A : Vector ℝ n →ₗ[ℝ] Vector ℝ n} (hH : Extends H A)
    (hA : IsSymmetric A) (g : Vector ℝ n) {radius : ℝ} (hρ : 0 < radius) (tol : Exact) {stol : Exact} (hstol : 0 ≤ stol)
    {k : ℤ} (hk : n ≤ k) :
    let c := triangular (L.map Exact.matrix)
    let P : Problem Exact n := ⟨⟨g, H⟩, c, radius, tol, stol⟩
    let R := P.solve k
    R.iterations ≤ n ∧ R.status ≠ .iterationLimit ∧
    (IsDefinite A → tol = 0 → stol = 0 → ∀ z, A z = g → norm (scale L z) < radius →
      R.status = .converged ∧ H (c.solveTransposed R.iterate) = -(g : Vector Exact n)) := by
  intro c P R
  have hc := sound_triangular hL
  let p : Problem ℝ n := ⟨⟨g, A⟩, triangular L, radius, 0, 0⟩
  have hP : P.Extends p := extends_problem hL hH g radius tol stol
  have hB := hc.isSymmetric_scaled hA
  have hp : ∀ v, p.scaledHessian v = hc.scaled A v := p.scaledHessian_eq (fun _ => rfl) hc
  obtain ⟨w, hw⟩ := exists_truthful hP (fun _ => rfl) hc hstol hρ.le k
  obtain ⟨hsteps, hended⟩ := hP.terminates hB hp hstol hk
  refine ⟨hsteps, fun hlimit => hended (hw.iterationLimit hlimit).1, fun hpos htol hstol' z hz hlt => ?_⟩
  -- in the scaled variables the minimizer is the image of `-z`
  have hmin : hc.scaled A (-scale L z) = p.descent := by
    show (triangular L).solve (A ((triangular L).solveTransposed (-scale L z))) = (triangular L).solve (-g)
    have hneg : (triangular L).solveTransposed (-scale L z) = -z :=
      (map_neg hc.solveTransposedLinear _).trans (congrArg Neg.neg (solveTransposed_scale hL z))
    rw [hneg, map_neg, hz]
  have hconv : R.status = .converged :=
    hP.status_eq_converged hB hp hc (hc.isDefinite_scaled hpos) hmin (by rwa [norm_neg]) htol hstol' hk hw
  have hgrad : p.gradientAt w = 0 := Problem.gradientAt_eq_zero hw hc htol hstol' (.inl hconv)
  refine ⟨hconv, ?_⟩
  have hT : c.solveTransposed R.iterate = (p.preconditioner.solveTransposed w : Vector Exact n) := by
    rw [show R.iterate = w from hw.iterate_eq]
    exact hP.solveTransposed w
  rw [hT, hH, ← Exact.coe_neg_vector, neg_eq_of_add_eq_zero_right hgrad]

end Triangular

/-- Two iterations solve a definite system in two unknowns, in skew variables. -/
theorem solve_terminates_definite :
    let L : SquareMatrix ℝ 2 := #v[#v[2, 0], #v[1, 1]]
    let A : SquareMatrix ℝ 2 := #v[#v[2, 1], #v[1, 2]]
    let z : Vector ℝ 2 := #v[1, -1]
    let g := A.linear z
    let c := triangular (some (Exact.matrix L))
    let P : Problem Exact 2 := ⟨⟨g, (Exact.matrix A).apply⟩, c, (2 : ℝ), (0 : Exact), (0 : Exact)⟩
    let R := P.solve 2
    (L.Nonsingular ∧ IsSymmetric A.linear ∧ IsDefinite A.linear ∧ norm (scale (some L) z) < 2) ∧
    R.iterations ≤ 2 ∧ R.status ≠ .iterationLimit ∧
    R.status = .converged ∧ (Exact.matrix A).apply (c.solveTransposed R.iterate) = -(g : Vector Exact 2) := by
  intro L A z g c P R
  have hL : L.Nonsingular := Fin.forall_fin_two.2 ⟨two_ne_zero, one_ne_zero⟩
  have hA : IsSymmetric A.linear := SquareMatrix.isSymmetric_linear
    (Fin.forall_fin_two.2 ⟨Fin.forall_fin_two.2 ⟨rfl, rfl⟩, Fin.forall_fin_two.2 ⟨rfl, rfl⟩⟩)
  have hpos : IsDefinite A.linear := fun x hx => by
    have hget : ∀ i, (A.linear x).get i = A.entry i 0 * x.get 0 + A.entry i 1 * x.get 1 := fun i =>
      (SquareMatrix.get_apply A x i).trans ((dot_eq_sum _ _).trans (Fin.sum_univ_two _))
    have hquad : dot x (A.linear x) = dot x x + (x.get 0 + x.get 1) ^ 2 := by
      rw [dot_eq_sum, dot_eq_sum, Fin.sum_univ_two, Fin.sum_univ_two, hget, hget]
      show x.get 0 * (2 * x.get 0 + 1 * x.get 1) + x.get 1 * (1 * x.get 0 + 2 * x.get 1) = _
      ring
    have hx' : 0 < dot x x := lt_of_le_of_ne (dot_self_nonneg x) fun h => hx (dot_self_eq_zero.1 h.symm)
    rw [hquad]
    positivity
  have hz : norm (scale (some L) z) < 2 := by
    have hscale : scale (some L) z = #v[1, -1] := ext_get fun i => by
      show (L.applyTransposed z).get i = _
      rw [SquareMatrix.applyTransposed, get_ofFn, Fin.sum_univ_two]
      fin_cases i <;> norm_num [SquareMatrix.entry, L, z, get_eq_getElem]
    rw [hscale, norm, dot_eq_sum, Fin.sum_univ_two]
    show √(1 * 1 + -1 * -1) < 2
    rw [Real.sqrt_lt' two_pos]
    norm_num
  have hL' : ∀ M ∈ some L, M.Nonsingular := fun M hM => Option.mem_some.1 hM ▸ hL
  have hstol : (0 : Exact) ≤ 0 := Exact.coe_le.2 le_rfl
  obtain ⟨hsteps, hlimit, hsolved⟩ :=
    solve_terminates hL' (extends_matrix A) hA g two_pos (0 : Exact) hstol (k := 2) le_rfl
  exact ⟨⟨hL, hA, hpos, hz⟩, hsteps, hlimit, hsolved hpos rfl rfl z rfl hz⟩

end ConjugateGradient

end BoxNewton
