/-
Descent by conjugate gradients. While the iteration stays within the trust region, its directions do not
lead back towards the centre (`Inside`), so every iteration lowers the model and lengthens the iterate, the
last one included, whichever way it ends. The first iteration reaches the best point of steepest descent,
and later ones are better. All of it is said in the scaled variables, for a Hessian that need not be definite.
-/
import BoxNewton.Proofs.ConjugateGradient.Exact
import BoxNewton.Proofs.Matrix.Triangular
import Mathlib.Order.Interval.Set.Monotone

namespace BoxNewton.ConjugateGradient

variable {n : ℕ} {B : Vector ℝ n →ₗ[ℝ] Vector ℝ n} {r₀ : Vector ℝ n} {S : Submodule ℝ (Vector ℝ n)}
  {p : Problem ℝ n} {s : State ℝ n}

/-! ## The model along directions -/

/-- The model in the scaled variables, with the Hessian `B` and steepest descent `r₀`. -/
noncomputable def scaledValue (B : Vector ℝ n →ₗ[ℝ] Vector ℝ n) (r₀ w : Vector ℝ n) : ℝ :=
  (⟨-r₀, B⟩ : Model ℝ n).value w

theorem scaledValue_eq (w : Vector ℝ n) : scaledValue B r₀ w = dot w (B w) / 2 - dot r₀ w := by
  rw [scaledValue, Model.value_eq, dot_neg_left]
  ring

theorem scaledValue_smul (w : Vector ℝ n) (t : ℝ) :
    scaledValue B r₀ (t • w) = t * t * dot w (B w) / 2 - t * dot r₀ w := by
  rw [scaledValue_eq, map_smul, dot_smul_left, dot_smul_right, dot_smul_right]
  ring

/-- As the direction is conjugate to the iterate, the model along it is a parabola of its own. -/
theorem Krylov.scaledValue_add (hB : IsSymmetric B) (h : Krylov B r₀ S s) (τ : ℝ) :
    scaledValue B r₀ (s.iterate + τ • s.direction) =
      scaledValue B r₀ s.iterate + (τ * τ * dot s.direction (B s.direction) / 2 - τ * s.energy) := by
  simp only [scaledValue_eq, map_add, map_smul, dot_add_left, dot_add_right, dot_smul_left, dot_smul_right, h.direction_iterate,
    h.iterate_direction hB, h.dot_direction]
  ring

/-- Where the slope at zero is not zero, the parabola of a descent does decrease on `[0, 1]`. -/
theorem Descending.value_lt {w : Vector ℝ n} (h : Descending B r₀ w) (hpos : 0 < dot r₀ w) {t u : ℝ} (h0 : 0 ≤ t)
    (htu : t < u) (h1 : u ≤ 1) : scaledValue B r₀ (u • w) < scaledValue B r₀ (t • w) := by
  have hc := h.curvature_le
  rw [scaledValue_smul, scaledValue_smul]
  generalize dot w (B w) = c at hc
  generalize dot r₀ w = b at hc hpos
  -- the mean slope between the two points is negative
  have hslope : (u + t) * c / 2 < b := by
    rcases le_or_gt c 0 with hn | hn
    · nlinarith
    · nlinarith
  nlinarith

/-- A parabola falls as far as its minimum. -/
theorem parabola_le {κ e t σ : ℝ} (he : 0 ≤ e) (h0 : 0 ≤ t) (htσ : t ≤ σ) (hσ : σ * κ ≤ e) :
    σ * σ * κ / 2 - σ * e ≤ t * t * κ / 2 - t * e := by
  have hslope : (σ + t) * κ / 2 ≤ e := by
    rcases le_or_gt κ 0 with hn | hn
    · nlinarith
    · nlinarith
  nlinarith

/-! ## One iteration -/

/-- A state from which the iteration goes on: not at a solution, inside the trust region, and with a
direction that does not lead back towards its centre. -/
structure Inside (B : Vector ℝ n →ₗ[ℝ] Vector ℝ n) (r₀ : Vector ℝ n) (radius : ℝ) (s : State ℝ n) : Prop where
  krylov : ∃ S, Krylov B r₀ S s
  energy_pos : 0 < s.energy
  outward : 0 ≤ dot s.direction s.iterate
  norm_lt : norm s.iterate < radius

theorem inside_start (hρ : 0 < p.radius) (he : 0 < p.start.energy) : Inside B p.descent p.radius p.start where
  krylov := ⟨⊥, krylov_start p⟩
  energy_pos := he
  outward := (dot_zero_right _).ge
  norm_lt := by
    show norm (0 : Vector ℝ n) < _
    rwa [norm_zero]

theorem Inside.direction_ne_zero {radius : ℝ} (h : Inside B r₀ radius s) : s.direction ≠ 0 := by
  obtain ⟨S, hS⟩ := h.krylov
  exact hS.direction_ne_zero h.energy_pos

theorem Inside.dot_direction_pos {radius : ℝ} (h : Inside B r₀ radius s) : 0 < dot s.direction s.direction :=
  dot_self_pos h.direction_ne_zero

section Step

variable (hB : IsSymmetric B) (hp : ∀ v, p.scaledHessian v = B v) (h : Inside B r₀ p.radius s)

include h

include hp in
theorem Inside.exists_step : ∃ τ, 0 < τ ∧ τ * dot s.direction (B s.direction) ≤ s.energy ∧
    (p.advance s).iterate = s.iterate + τ • s.direction := by
  obtain ⟨S, hS⟩ := h.krylov
  obtain ⟨τ, -, hle, heq, hpos⟩ := exists_iterate_advance (p := p) hS
  rw [curvature_eq hp] at hle
  exact ⟨τ, hpos h.energy_pos h.norm_lt, hle, heq⟩

include hB hp in
/-- Every iteration lowers the model. -/
theorem Inside.value_advance_lt : scaledValue B r₀ (p.advance s).iterate < scaledValue B r₀ s.iterate := by
  obtain ⟨S, hS⟩ := h.krylov
  obtain ⟨τ, hτ, hle, heq⟩ := h.exists_step hp
  have he := h.energy_pos
  rw [heq, hS.scaledValue_add hB]
  nlinarith [mul_le_mul_of_nonneg_left hle hτ.le, mul_pos hτ he]

include hp in
/-- Every iteration leads away from the centre. -/
theorem Inside.norm_lt_advance : norm s.iterate < norm (p.advance s).iterate := by
  obtain ⟨τ, hτ, -, heq⟩ := h.exists_step hp
  have hd := h.dot_direction_pos
  have hout := h.outward
  rw [heq, norm_lt_norm_iff, dot_add_smul_self]
  nlinarith [mul_pos hτ (mul_pos hτ hd), mul_nonneg hτ.le hout]

include hp in
theorem Inside.slope_advance_pos (hw : Descending B r₀ s.iterate) : 0 < dot r₀ (p.advance s).iterate := by
  obtain ⟨S, hS⟩ := h.krylov
  obtain ⟨τ, hτ, -, heq⟩ := h.exists_step hp
  rw [heq, dot_add_right, dot_smul_right, hS.dot_direction]
  exact add_pos_of_nonneg_of_pos hw.slope_nonneg (mul_pos hτ h.energy_pos)

include hB hp in
/-- The iteration stays inside unless it leaves the trust region or is done. -/
theorem Inside.advance (hl : ¬ p.Leaves s) (he : 0 < (p.advance s).energy) :
    Inside B r₀ p.radius (p.advance s) := by
  obtain ⟨S, hS⟩ := h.krylov
  have hS' := hS.advance hB hp hl
  have hκ := curvature_pos hl
  have hα : 0 < p.stepLength s := by
    rw [stepLength_eq hl]
    exact div_pos h.energy_pos hκ
  have hd := h.dot_direction_pos
  have hout := h.outward
  have heq := p.iterate_advance_of_not_leaves hl
  rw [hmul_eq_smul] at heq
  refine ⟨⟨_, hS'⟩, he, ?_, ?_⟩
  · -- the new residual is orthogonal to all iterates, and the old direction leads outwards
    rw [direction_advance_eq hp hS hl, dot_add_left, hS'.residual_orthogonal _ hS'.iterate_mem, zero_add,
      dot_smul_left, heq, dot_add_right, dot_smul_right]
    exact mul_nonneg (div_nonneg he.le h.energy_pos.le) (add_nonneg hout (mul_nonneg hα.le hd.le))
  · have hlt : p.stepLength s < TrustRegion.boundaryStep s.iterate s.direction p.radius :=
      not_le.1 fun hle => hl (.inr hle)
    rw [heq]
    exact (TrustRegion.norm_add_smul_lt_iff h.direction_ne_zero h.norm_lt hα.le).2 hlt

end Step

/-- The first iteration is as good as any step of steepest descent within the trust region. -/
theorem value_first_le (hp : ∀ v, p.scaledHessian v = B v) (hr : p.descent ≠ 0) (hρ : 0 < p.radius) {t : ℝ}
    (h0 : 0 ≤ t) (ht : norm (t • p.descent) ≤ p.radius) :
    scaledValue B p.descent (p.advance p.start).iterate ≤ scaledValue B p.descent (t • p.descent) := by
  have hpos := norm_pos_of_ne_zero hr
  have he : 0 ≤ dot p.descent p.descent := dot_self_nonneg _
  have hκ : p.curvature p.start = dot p.descent (B p.descent) := curvature_eq hp
  by_cases hl : p.Leaves p.start
  · have hσ : TrustRegion.boundaryStep p.start.iterate p.start.direction p.radius = p.radius / norm p.descent :=
      TrustRegion.boundaryStep_zero hr hρ
    have heq : (p.advance p.start).iterate = (p.radius / norm p.descent) • p.descent := by
      rw [p.iterate_advance_of_leaves hl, hσ]
      exact zero_add _
    have htσ : t ≤ p.radius / norm p.descent := by
      rw [norm_smul, abs_of_nonneg h0] at ht
      exact (le_div_iff₀ hpos).2 ht
    have hle : p.radius / norm p.descent * dot p.descent (B p.descent) ≤ dot p.descent p.descent := by
      rw [← hκ]
      rcases le_or_gt (p.curvature p.start) 0 with hn | hn
      · exact (mul_nonpos_of_nonneg_of_nonpos (div_nonneg hρ.le hpos.le) hn).trans he
      · have hstep := hl.resolve_left (not_le.2 hn)
        rw [Problem.stepLength, if_pos hn, hσ] at hstep
        exact (le_div_iff₀ hn).1 hstep
    rw [heq, scaledValue_smul, scaledValue_smul]
    exact parabola_le he h0 htσ hle
  · have hpos' := curvature_pos hl
    have hstep : p.stepLength p.start * dot p.descent (B p.descent) = dot p.descent p.descent := by
      rw [← hκ, stepLength_eq hl]
      exact div_mul_cancel₀ _ hpos'.ne'
    have heq : (p.advance p.start).iterate = p.stepLength p.start • p.descent := by
      rw [p.iterate_advance_of_not_leaves hl]
      exact zero_add _
    rw [heq, scaledValue_smul, scaledValue_smul, ← hstep]
    rw [hκ] at hpos'
    nlinarith [mul_nonneg hpos'.le (sq_nonneg (t - p.stepLength p.start))]

/-! ## Runs -/

/-- The first `K` iterations: none but the last leaves the trust region, and none starts at a solution. -/
structure Underway (p : Problem ℝ n) (K : ℕ) : Prop where
  energy_pos : ∀ j < K, 0 < (p.advance^[j] p.start).energy
  not_leaves : ∀ j, j + 1 < K → ¬ p.Leaves (p.advance^[j] p.start)

section Run

variable (hB : IsSymmetric B) (hp : ∀ v, p.scaledHessian v = B v) (hρ : 0 < p.radius) {K : ℕ} (h : Underway p K)

include hB hp hρ h

theorem Underway.inside {j : ℕ} (hj : j < K) : Inside B p.descent p.radius (p.advance^[j] p.start) := by
  induction j with
  | zero => exact inside_start hρ (h.energy_pos 0 hj)
  | succ j ih =>
    have he := h.energy_pos (j + 1) hj
    rw [Function.iterate_succ_apply'] at he ⊢
    exact (ih (Nat.lt_of_succ_lt hj)).advance hB hp (h.not_leaves j hj) he

theorem Underway.descending {j : ℕ} (hj : j ≤ K) : Descending B p.descent (p.advance^[j] p.start).iterate := by
  induction j with
  | zero => exact descending_zero B p.descent
  | succ j ih =>
    obtain ⟨S, hS⟩ := (h.inside hB hp hρ hj).krylov
    rw [Function.iterate_succ_apply']
    exact hS.descending_advance hB hp (ih (Nat.le_of_succ_le hj))

theorem Underway.strictAntiOn_value :
    StrictAntiOn (fun j => scaledValue B p.descent (p.advance^[j] p.start).iterate) (Set.Iic K) :=
  strictAntiOn_Iic_of_succ_lt fun j hj => by
    simp only [Nat.succ_eq_succ, Function.iterate_succ_apply']
    exact (h.inside hB hp hρ hj).value_advance_lt hB hp

theorem Underway.strictMonoOn_norm :
    StrictMonoOn (fun j => norm (p.advance^[j] p.start).iterate) (Set.Iic K) :=
  strictMonoOn_Iic_of_lt_succ fun j hj => by
    simp only [Nat.succ_eq_succ, Function.iterate_succ_apply']
    exact (h.inside hB hp hρ hj).norm_lt_advance hp

theorem Underway.slope_pos (hK : 0 < K) : 0 < dot p.descent (p.advance^[K] p.start).iterate := by
  obtain ⟨j, rfl⟩ : ∃ j, K = j + 1 := ⟨K - 1, by omega⟩
  rw [Function.iterate_succ_apply']
  exact (h.inside hB hp hρ j.lt_succ_self).slope_advance_pos hp (h.descending hB hp hρ j.le_succ)

theorem Underway.value_le (hK : 0 < K) {t : ℝ} (h0 : 0 ≤ t) (ht : norm (t • p.descent) ≤ p.radius) :
    scaledValue B p.descent (p.advance^[K] p.start).iterate ≤ scaledValue B p.descent (t • p.descent) := by
  have hr : p.descent ≠ 0 := dot_self_eq_zero.not.1 (h.energy_pos 0 hK).ne'
  refine le_trans ?_ (value_first_le hp hr hρ h0 ht)
  exact (h.strictAntiOn_value hB hp hρ).antitoneOn (Set.mem_Iic.2 hK) (Set.mem_Iic.2 le_rfl) hK

end Run

/-! ## Changes of variables -/

/-- The two solutions of a change of variables belong to one linear map, which is invertible. -/
structure Preconditioner.Sound (c : Preconditioner ℝ n) : Prop where
  dot_solve : ∀ u v, dot u (c.solve v) = dot (c.solveTransposed u) v
  solve_ne_zero : ∀ v, v ≠ 0 → c.solve v ≠ 0

theorem sound_identity : (Preconditioner.identity : Preconditioner ℝ n).Sound := ⟨fun _ _ => rfl, fun _ => id⟩

theorem sound_lower {L : SquareMatrix ℝ n} (hL : L.Nonsingular) : (Preconditioner.lower L).Sound :=
  ⟨SquareMatrix.dot_solveLower hL, fun _ => SquareMatrix.solveLower_ne_zero hL⟩

namespace Preconditioner

variable {c : Preconditioner ℝ n} (hc : c.Sound)

def Sound.solveLinear : Vector ℝ n →ₗ[ℝ] Vector ℝ n where
  toFun := c.solve
  map_add' x y := eq_of_dot_eq fun u => by simp only [hc.dot_solve, dot_add_right]
  map_smul' t x := eq_of_dot_eq fun u => by simp only [hc.dot_solve, dot_smul_right, RingHom.id_apply]

def Sound.solveTransposedLinear : Vector ℝ n →ₗ[ℝ] Vector ℝ n where
  toFun := c.solveTransposed
  map_add' x y := eq_of_dot_eq fun u => by simp only [dot_comm u, dot_add_left, ← hc.dot_solve]
  map_smul' t x := eq_of_dot_eq fun u => by simp only [dot_comm u, dot_smul_left, ← hc.dot_solve, RingHom.id_apply]

include hc in
theorem Sound.solve_eq_zero_iff {v : Vector ℝ n} : c.solve v = 0 ↔ v = 0 :=
  ⟨fun h => by_contra fun hv => hc.solve_ne_zero v hv h, fun h => h ▸ map_zero hc.solveLinear⟩

/-- The Hessian in the scaled variables. -/
def Sound.scaled (A : Vector ℝ n →ₗ[ℝ] Vector ℝ n) : Vector ℝ n →ₗ[ℝ] Vector ℝ n :=
  hc.solveLinear ∘ₗ A ∘ₗ hc.solveTransposedLinear

theorem Sound.isSymmetric_scaled {A : Vector ℝ n →ₗ[ℝ] Vector ℝ n} (hA : IsSymmetric A) :
    IsSymmetric (hc.scaled A) := fun x y => by
  show dot x (c.solve (A (c.solveTransposed y))) = dot (c.solve (A (c.solveTransposed x))) y
  rw [hc.dot_solve, hA, dot_comm, ← hc.dot_solve, dot_comm]

end Preconditioner

namespace Problem

variable {A : Vector ℝ n →ₗ[ℝ] Vector ℝ n} (hA : ∀ v, p.model.hessian v = A v) (hc : p.preconditioner.Sound)

include hA in
theorem scaledHessian_eq (v : Vector ℝ n) : p.scaledHessian v = hc.scaled A v := by
  unfold scaledHessian
  rw [hA]; rfl

include hc in
theorem descent_eq : p.descent = -p.preconditioner.solve p.model.gradient := map_neg hc.solveLinear _

include hA in
theorem value_solveTransposed (w : Vector ℝ n) :
    p.model.value (p.preconditioner.solveTransposed w) = scaledValue (hc.scaled A) p.descent w := by
  have hcurv : dot w (hc.scaled A w) =
      dot (p.preconditioner.solveTransposed w) (A (p.preconditioner.solveTransposed w)) := hc.dot_solve w _
  rw [Model.value_eq, hA, scaledValue_eq, hcurv, descent_eq hc, dot_neg_left, dot_comm _ w, hc.dot_solve,
    dot_comm _ p.model.gradient]
  ring

/-! ## In exact arithmetic -/

theorem not_leaves_of_running {α : Type} [Scalar α] {p : Problem α n} {s : State α n}
    (h : (p.advance s).status = .running) :
    ¬ p.Leaves s ∧ ¬ Scalar.sqrt (p.advance s).energy ≤ p.scaledTolerance := by
  have hl : ¬ p.Leaves s := fun hl => by
    rcases status_advance_of_leaves hl with h' | h' <;> rw [h'] at h <;> cases h
  rw [status_advance_of_not_leaves hl] at h
  split_ifs at h with _ hs
  exact ⟨hl, hs⟩

variable {P : Problem Exact n}

/-- An exact run goes through the states of the real one, but for the statuses. -/
theorem Extends.iterate (h : P.Extends p) (j : ℕ) :
    P.advance^[j] P.start = State.exact { p.advance^[j] p.start with status := (P.advance^[j] P.start).status } := by
  induction j with
  | zero =>
    have hstatus : P.start.status = p.start.status := congrArg State.status h.start
    rw [Function.iterate_zero_apply, Function.iterate_zero_apply, hstatus]
    exact h.start
  | succ j ih =>
    have hadvance := h.advance { p.advance^[j] p.start with status := (P.advance^[j] P.start).status }
    rw [← ih] at hadvance
    rw [Function.iterate_succ_apply', Function.iterate_succ_apply']
    exact hadvance

theorem Extends.underway_of_running (h : P.Extends p) (hr : p.descent ≠ 0) (hs : 0 ≤ P.scaledTolerance) {K : ℕ}
    (hrunning : ∀ j < K, (P.advance^[j] P.start).status = .running) : Underway p K := by
  have hgoes : ∀ j, j + 1 < K → ¬ P.Leaves (P.advance^[j] P.start) ∧
      ¬ Scalar.sqrt (P.advance^[j + 1] P.start).energy ≤ P.scaledTolerance := fun j hj => by
    have hj' := hrunning (j + 1) hj
    rw [Function.iterate_succ_apply'] at hj' ⊢
    exact not_leaves_of_running hj'
  refine ⟨fun j hj => ?_, fun j hj hl => ?_⟩
  · cases j with
    | zero => exact dot_self_pos hr
    | succ j =>
      -- a residual that vanishes is within the tolerance
      have henergy : (P.advance^[j + 1] P.start).energy = ((p.advance^[j + 1] p.start).energy : Exact) :=
        congrArg State.energy (h.iterate (j + 1))
      have hnonneg : 0 ≤ (p.advance^[j + 1] p.start).energy := by
        rw [Function.iterate_succ_apply', energy_advance]
        exact dot_self_nonneg _
      refine lt_of_le_of_ne hnonneg fun h0 => (hgoes j hj).2 ?_
      rw [henergy, ← h0, ← Exact.coe_sqrt le_rfl, Real.sqrt_zero]
      exact hs
  · have hleaves := (h.leaves_iff { p.advance^[j] p.start with status := (P.advance^[j] P.start).status }).2 hl
    rw [← h.iterate j] at hleaves
    exact (hgoes j hj).1 hleaves

theorem status_iterate_of_lt {j : ℕ} {k : ℤ} (hj : j < (P.run k).steps) :
    (P.advance^[j] P.start).status = .running := by
  simpa [continues] using test_iterate_of_lt hj

theorem Extends.underway (h : P.Extends p) (hr : p.descent ≠ 0) (hs : 0 ≤ P.scaledTolerance) (k : ℤ) :
    Underway p (P.run k).steps :=
  h.underway_of_running hr hs fun _ => status_iterate_of_lt

end Problem

/-! ## The direction -/

/-- The change of variables by the lower triangle of a matrix, if one is given. -/
def triangular {α : Type} [Scalar α] (L : Option (SquareMatrix α n)) : Preconditioner α n := L.elim .identity .lower

section Triangular

variable {L : Option (SquareMatrix ℝ n)} (hL : ∀ M ∈ L, M.Nonsingular)

include hL

theorem sound_triangular : (triangular L).Sound := by
  cases L with
  | none => exact sound_identity
  | some M => exact sound_lower (hL M rfl)

theorem extends_triangular : Extends (triangular (L.map Exact.matrix)).solve (triangular L).solve ∧
    Extends (triangular (L.map Exact.matrix)).solveTransposed (triangular L).solveTransposed := by
  cases L with
  | none => exact ⟨fun _ => rfl, fun _ => rfl⟩
  | some M => exact ⟨SquareMatrix.extends_solveLower (hL M rfl), SquareMatrix.extends_solveTransposed (hL M rfl)⟩

/-- For a symmetric Hessian and a gradient that is not zero, in the variables of any triangular change: every
iteration lowers the model and lengthens the iterate; the model falls all along the ray to the last iterate,
and is there at most what steepest descent reaches within the trust region. -/
theorem solve_descends {H : Operator Exact n} {A : Vector ℝ n →ₗ[ℝ] Vector ℝ n} (hH : Extends H A)
    (hA : IsSymmetric A) {g : Vector ℝ n} (hg : g ≠ 0) {radius : ℝ} (hρ : 0 < radius) (tol : Exact) {stol : Exact}
    (hstol : 0 ≤ stol) {k : ℤ} (hk : 1 ≤ k) :
    let c := triangular (L.map Exact.matrix)
    let P : Problem Exact n := ⟨⟨g, H⟩, c, radius, tol, stol⟩
    let Q := fun v => P.model.value (c.solveTransposed v)
    let w := fun j => (P.advance^[j] P.start).iterate
    let K := (P.solve k).iterations
    let r := c.solve g
    0 < K ∧ (P.solve k).iterate = w K ∧
    (∀ i j, i < j → j ≤ K → Q (w j) < Q (w i) ∧ norm (w i) < norm (w j)) ∧
    (∀ t u : ℝ, 0 ≤ t → t < u → u ≤ 1 → Q ((u : Exact) * w K) < Q ((t : Exact) * w K)) ∧
    ∀ t : ℝ, 0 ≤ t → norm ((t : Exact) * r) ≤ radius → Q (w K) ≤ Q (-((t : Exact) * r)) := by
  intro c P Q w K r
  have hc := sound_triangular hL
  obtain ⟨hsolve, hsolveT⟩ := extends_triangular hL
  let p : Problem ℝ n := ⟨⟨g, A⟩, triangular L, radius, 0, 0⟩
  have hP : P.Extends p := ⟨⟨rfl, hH⟩, hsolve, hsolveT, rfl⟩
  have hB := hc.isSymmetric_scaled hA
  have hp : ∀ v, p.scaledHessian v = hc.scaled A v := p.scaledHessian_eq (fun _ => rfl) hc
  have hdescent : p.descent = -p.preconditioner.solve g := Problem.descent_eq hc
  have hr : p.descent ≠ 0 := by
    rw [hdescent, neg_ne_zero]
    exact hc.solve_ne_zero g hg
  have hrun : Underway p K := hP.underway hr hstol k
  -- everything that is compared is real
  have hw : ∀ j, w j = ((p.advance^[j] p.start).iterate : Vector Exact n) := fun j =>
    congrArg State.iterate (hP.iterate j)
  have hQ : ∀ v : Vector ℝ n, Q v = (scaledValue (hc.scaled A) p.descent v : ℝ) := fun v => by
    show P.model.value (c.solveTransposed v) = _
    rw [hsolveT v, hP.model.value]
    exact Exact.coe_inj.2 (p.value_solveTransposed (fun _ => rfl) hc v)
  have hK : 0 < K := by
    refine Nat.pos_of_ne_zero fun h0 => ?_
    rcases steps_advanceWhile_eq_zero_iff.1 h0 with hbudget | hstart
    · omega
    · rw [hP.continues_start hr] at hstart
      cases hstart
  refine ⟨hK, congrArg State.iterate (state_advanceWhile ..), fun i j hij hj => ?_, fun t u h0 htu h1 => ?_,
    fun t h0 ht => ?_⟩
  · rw [hw, hw, hQ, hQ, ← Exact.coe_norm, ← Exact.coe_norm, Exact.coe_lt, Exact.coe_lt]
    exact ⟨hrun.strictAntiOn_value hB hp hρ (hij.le.trans hj) hj hij,
      hrun.strictMonoOn_norm hB hp hρ (hij.le.trans hj) hj hij⟩
  · rw [hw, ← Exact.coe_hmul_vector, ← Exact.coe_hmul_vector, hQ, hQ, Exact.coe_lt]
    exact (hrun.descending hB hp hρ le_rfl).value_lt (hrun.slope_pos hB hp hρ hK) h0 htu h1
  · have hr' : r = (-p.descent : Vector ℝ n) := by
      rw [hdescent, neg_neg]
      exact hsolve g
    rw [hr', ← Exact.coe_hmul_vector] at ht ⊢
    rw [← Exact.coe_norm, Exact.coe_le, hmul_eq_smul, smul_neg, norm_neg] at ht
    rw [← Exact.coe_neg_vector, hmul_eq_smul, smul_neg, neg_neg, hw, hQ, hQ, Exact.coe_le]
    exact hrun.value_le hB hp hρ hK h0 ht

end Triangular

/-- A saddle in skew variables. -/
theorem solve_descends_saddle :
    let L : SquareMatrix ℝ 2 := #v[#v[2, 0], #v[1, 1]]
    let A : SquareMatrix ℝ 2 := #v[#v[0, 1], #v[1, 0]]
    let g : Vector ℝ 2 := #v[1, -1]
    let c := triangular (some (Exact.matrix L))
    let P : Problem Exact 2 := ⟨⟨g, (Exact.matrix A).apply⟩, c, (1 : ℝ), 0, 0⟩
    let Q := fun v => P.model.value (c.solveTransposed v)
    let w := fun j => (P.advance^[j] P.start).iterate
    let K := (P.solve 3).iterations
    let r := c.solve g
    (L.Nonsingular ∧ IsSymmetric A.linear ∧ g ≠ 0) ∧ 0 < K ∧ (P.solve 3).iterate = w K ∧
    (∀ i j, i < j → j ≤ K → Q (w j) < Q (w i) ∧ norm (w i) < norm (w j)) ∧
    (∀ t u : ℝ, 0 ≤ t → t < u → u ≤ 1 → Q ((u : Exact) * w K) < Q ((t : Exact) * w K)) ∧
    ∀ t : ℝ, 0 ≤ t → norm ((t : Exact) * r) ≤ (1 : ℝ) → Q (w K) ≤ Q (-((t : Exact) * r)) := by
  intro L A g c P Q w K r
  have hL : L.Nonsingular := Fin.forall_fin_two.2 ⟨two_ne_zero, one_ne_zero⟩
  have hA : IsSymmetric A.linear := SquareMatrix.isSymmetric_linear
    (Fin.forall_fin_two.2 ⟨Fin.forall_fin_two.2 ⟨rfl, rfl⟩, Fin.forall_fin_two.2 ⟨rfl, rfl⟩⟩)
  have hg : g ≠ 0 := fun h => one_ne_zero (congrArg (fun v : Vector ℝ 2 => v.get 0) h)
  have hL' : ∀ M ∈ some L, M.Nonsingular := fun M hM => Option.mem_some.1 hM ▸ hL
  exact ⟨⟨hL, hA, hg⟩, solve_descends hL' (extends_matrix A) hA hg one_pos 0 (Exact.coe_le.2 le_rfl) (by norm_num)⟩

end BoxNewton.ConjugateGradient
