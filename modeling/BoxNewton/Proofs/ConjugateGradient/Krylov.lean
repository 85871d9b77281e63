/-
Conjugate gradients over the reals, for a symmetric Hessian that need not be definite. The
invariant `Krylov` says where the iteration stands after some steps: the iterate lies in the span of
the directions used so far, the residual is orthogonal to that span and the next direction conjugate
to it. From it follows what a trial along the ray to the last iterate relies on: at every point of
the ray the model is at most zero (`Descending.value_nonpos`), whether the iteration ended inside
the trust region, on its boundary or at a direction of non-positive curvature.
-/
import BoxNewton.ConjugateGradient
import BoxNewton.Proofs.TrustRegion.Boundary
import Mathlib.LinearAlgebra.Span.Basic
import Mathlib.Tactic.Module

namespace BoxNewton.ConjugateGradient

variable {α : Type} [Scalar α] {n : ℕ}

/-! ## One iteration -/

namespace Problem

/-- The Hessian in the scaled variables. -/
def scaledHessian (p : Problem α n) : Operator α n :=
  fun v => p.preconditioner.solve (p.model.hessian (p.preconditioner.solveTransposed v))

/-- The steepest descent direction in the scaled variables, where the iteration starts. -/
def descent (p : Problem α n) : Vector α n := p.preconditioner.solve (-p.model.gradient)

/-- The curvature along the direction of a state. -/
def curvature (p : Problem α n) (s : State α n) : α := dot s.direction (p.scaledHessian s.direction)

/-- The step to the minimum along the direction, where there is one. -/
def stepLength (p : Problem α n) (s : State α n) : α :=
  if 0 < p.curvature s then s.energy / p.curvature s else 0

/-- The iteration ends on the boundary. -/
def Leaves (p : Problem α n) (s : State α n) : Prop :=
  p.curvature s ≤ 0 ∨ TrustRegion.boundaryStep s.iterate s.direction p.radius ≤ p.stepLength s

variable {p : Problem α n} {s : State α n}

theorem iterate_advance_of_leaves (h : p.Leaves s) :
    (p.advance s).iterate =
      s.iterate + TrustRegion.boundaryStep s.iterate s.direction p.radius * s.direction :=
  if_pos h

theorem iterate_advance_of_not_leaves (h : ¬ p.Leaves s) :
    (p.advance s).iterate = s.iterate + p.stepLength s * s.direction :=
  if_neg h

theorem scaledResidual_advance (p : Problem α n) (s : State α n) :
    (p.advance s).scaledResidual = s.scaledResidual - p.stepLength s * p.scaledHessian s.direction :=
  rfl

theorem energy_advance (p : Problem α n) (s : State α n) :
    (p.advance s).energy = dot (p.advance s).scaledResidual (p.advance s).scaledResidual := rfl

theorem direction_advance (p : Problem α n) (s : State α n) :
    (p.advance s).direction = (p.advance s).scaledResidual +
      (p.advance s).energy / (if 0 < s.energy then s.energy else 1) * s.direction := rfl

theorem status_advance_of_leaves (h : p.Leaves s) :
    (p.advance s).status = .negativeCurvature ∨ (p.advance s).status = .boundary := by
  have : (p.advance s).status =
      if p.curvature s ≤ 0 then .negativeCurvature else .boundary := if_pos h
  rw [this]
  split <;> simp

theorem status_advance_of_not_leaves (h : ¬ p.Leaves s) :
    (p.advance s).status =
      if norm (p.advance s).residual ≤ p.tolerance then .converged
      else if Scalar.sqrt (p.advance s).energy ≤ p.scaledTolerance then .convergedScaled
      else .running :=
  if_neg h

/-- An iteration that left the region is the last. -/
theorem continues_advance_of_leaves (h : p.Leaves s) : continues (p.advance s) = false := by
  rcases status_advance_of_leaves h with h | h <;> rw [continues, h] <;> rfl

/-- In a trust region that is small against the residual and the curvature the first iteration ends on
the boundary. -/
theorem leaves_start {q : Problem ℝ n} {M : ℝ} (hr : q.descent ≠ 0) (hρ : 0 < q.radius)
    (hbound : dot q.descent (q.scaledHessian q.descent) ≤ M * norm q.descent ^ 2)
    (hsmall : M * q.radius ≤ norm q.descent) : q.Leaves q.start := by
  rcases le_or_gt (q.curvature q.start) 0 with hκ | hκ
  · exact .inl hκ
  · have hpos := norm_pos_of_ne_zero hr
    right
    show TrustRegion.boundaryStep 0 q.descent q.radius ≤ _
    rw [TrustRegion.boundaryStep_zero hr hρ, stepLength, if_pos hκ, div_le_div_iff₀ hpos hκ]
    calc q.radius * q.curvature q.start
        ≤ q.radius * (M * norm q.descent ^ 2) := mul_le_mul_of_nonneg_left hbound hρ.le
      _ = M * q.radius * norm q.descent ^ 2 := by ring
      _ ≤ norm q.descent * norm q.descent ^ 2 := mul_le_mul_of_nonneg_right hsmall (sq_nonneg _)
      _ = norm q.descent ^ 2 * norm q.descent := mul_comm _ _
      _ = q.start.energy * norm q.descent := by rw [norm_sq]; rfl

end Problem

/-! ## The invariant -/

variable {B : Vector ℝ n →ₗ[ℝ] Vector ℝ n} {r₀ : Vector ℝ n} {S : Submodule ℝ (Vector ℝ n)}
  {p : Problem ℝ n} {s : State ℝ n}

/-- After steps along directions that span `S`, from the residual `r₀` at zero, with the Hessian
`B` in the scaled variables. -/
structure Krylov (B : Vector ℝ n →ₗ[ℝ] Vector ℝ n) (r₀ : Vector ℝ n) (S : Submodule ℝ (Vector ℝ n))
    (s : State ℝ n) : Prop where
  iterate_mem : s.iterate ∈ S
  residual_eq : s.scaledResidual = r₀ - B s.iterate
  energy_eq : s.energy = dot s.scaledResidual s.scaledResidual
  residual_orthogonal : ∀ d ∈ S, dot s.scaledResidual d = 0
  direction_conjugate : ∀ d ∈ S, dot s.direction (B d) = 0
  /-- The span with the next direction holds the images of the span. -/
  image_mem : ∀ d ∈ S, B d ∈ S ⊔ Submodule.span ℝ {s.direction}
  residual_mem : s.scaledResidual ∈ S ⊔ Submodule.span ℝ {s.direction}
  residual_direction : dot s.scaledResidual s.direction = s.energy
  direction_zero : s.energy = 0 → s.direction = 0

theorem Krylov.setStatus (h : Krylov B r₀ S s) (status : Status) : Krylov B r₀ S { s with status := status } :=
  ⟨h.1, h.2, h.3, h.4, h.5, h.6, h.7, h.8, h.9⟩

theorem mem_sup_span {x d : Vector ℝ n} :
    x ∈ S ⊔ Submodule.span ℝ {d} ↔ ∃ y ∈ S, ∃ c : ℝ, y + c • d = x := by
  simp only [Submodule.mem_sup, Submodule.mem_span_singleton]
  constructor
  · rintro ⟨y, hy, z, ⟨c, rfl⟩, rfl⟩; exact ⟨y, hy, c, rfl⟩
  · rintro ⟨y, hy, c, rfl⟩; exact ⟨y, hy, _, ⟨c, rfl⟩, rfl⟩

theorem krylov_start (p : Problem ℝ n) : Krylov B p.descent ⊥ p.start where
  iterate_mem := Submodule.zero_mem _
  residual_eq := by
    show p.descent = p.descent - B 0
    rw [map_zero, sub_zero]
  energy_eq := rfl
  residual_orthogonal := by
    intro d hd
    rw [(Submodule.mem_bot ℝ).1 hd, dot_zero_right]
  direction_conjugate := by
    intro d hd
    rw [(Submodule.mem_bot ℝ).1 hd, map_zero, dot_zero_right]
  image_mem := by
    intro d hd
    rw [(Submodule.mem_bot ℝ).1 hd, map_zero]
    exact Submodule.zero_mem _
  residual_mem := mem_sup_span.2 ⟨0, Submodule.zero_mem _, 1, by rw [one_smul, zero_add]; rfl⟩
  residual_direction := rfl
  direction_zero := fun h => dot_self_eq_zero.1 h

/-! ## One step keeps the invariant -/

section Step

variable (hB : IsSymmetric B) (hp : ∀ v, p.scaledHessian v = B v) (h : Krylov B r₀ S s)
  (hl : ¬ p.Leaves s)

include hp in
theorem curvature_eq : p.curvature s = dot s.direction (B s.direction) := by
  unfold Problem.curvature; rw [hp]

include hl in
theorem curvature_pos : 0 < p.curvature s := not_le.1 fun hle => hl (.inl hle)

include hl in
theorem stepLength_eq : p.stepLength s = s.energy / p.curvature s := if_pos (curvature_pos hl)

include hp h hl in
/-- A direction with curvature comes from a residual that does not vanish. -/
theorem Krylov.energy_pos : 0 < s.energy := by
  refine lt_of_le_of_ne (h.energy_eq ▸ dot_self_nonneg _) fun h0 => ?_
  have := curvature_pos hl
  rw [curvature_eq hp, h.direction_zero h0.symm, map_zero, dot_zero_left] at this
  exact lt_irrefl _ this

include hp hl in
theorem scaledResidual_advance_eq :
    (p.advance s).scaledResidual
      = s.scaledResidual - (s.energy / p.curvature s) • B s.direction := by
  rw [p.scaledResidual_advance, hmul_eq_smul, stepLength_eq hl, hp]

include hp h hl in
theorem direction_advance_eq :
    (p.advance s).direction
      = (p.advance s).scaledResidual + ((p.advance s).energy / s.energy) • s.direction := by
  rw [p.direction_advance, if_pos (h.energy_pos hp hl), hmul_eq_smul]

include hB hp h hl in
theorem Krylov.residual_advance_orthogonal :
    ∀ y ∈ S ⊔ Submodule.span ℝ {s.direction}, dot (p.advance s).scaledResidual y = 0 := by
  intro y hy
  obtain ⟨d, hd, c, rfl⟩ := mem_sup_span.1 hy
  have hκ := curvature_pos hl
  have hBd : dot (B s.direction) d = 0 := by rw [← hB, h.direction_conjugate d hd]
  have hBs : dot (B s.direction) s.direction = p.curvature s := by rw [dot_comm, curvature_eq hp]
  rw [scaledResidual_advance_eq hp hl]
  simp only [dot_sub_left, dot_add_right, dot_smul_left, dot_smul_right, h.residual_orthogonal d hd,
    hBd, hBs, h.residual_direction]
  field_simp
  ring

include hB hp h hl in
theorem Krylov.residual_advance_image :
    dot (p.advance s).scaledResidual (B s.direction)
      = -((p.advance s).energy / s.energy) * p.curvature s := by
  have hκ := curvature_pos hl
  have hρ := h.energy_pos hp hl
  -- the new residual sees its difference from the old one only through the image
  have key : (p.advance s).energy
      = -(s.energy / p.curvature s * dot (p.advance s).scaledResidual (B s.direction)) := by
    calc (p.advance s).energy
        = dot (p.advance s).scaledResidual
            (s.scaledResidual - (s.energy / p.curvature s) • B s.direction) := by
          rw [← scaledResidual_advance_eq hp hl]; rfl
      _ = _ := by
          rw [dot_sub_right, h.residual_advance_orthogonal hB hp hl _ h.residual_mem, dot_smul_right,
            zero_sub]
  rw [key]
  field_simp

include hp h hl in
theorem Krylov.residual_advance_mem :
    (p.advance s).scaledResidual
      ∈ S ⊔ Submodule.span ℝ {s.direction} ⊔ Submodule.span ℝ {(p.advance s).direction} := by
  refine mem_sup_span.2 ⟨-((p.advance s).energy / s.energy) • s.direction, ?_, 1, ?_⟩
  · exact mem_sup_span.2 ⟨0, Submodule.zero_mem _, _, zero_add _⟩
  · rw [direction_advance_eq hp h hl, one_smul, neg_smul]; abel

include hp h hl in
/-- The image of the direction just used lies in the span with the new direction, as it is a multiple
of the difference of the residuals. -/
theorem Krylov.image_direction_mem :
    B s.direction ∈ S ⊔ Submodule.span ℝ {s.direction} ⊔ Submodule.span ℝ {(p.advance s).direction} := by
  have hκ := curvature_pos hl
  have hρ := h.energy_pos hp hl
  have : B s.direction = (p.curvature s / s.energy) • (s.scaledResidual - (p.advance s).scaledResidual) := by
    rw [scaledResidual_advance_eq hp hl, sub_sub_cancel, smul_smul, div_mul_div_cancel₀ hρ.ne',
      div_self hκ.ne', one_smul]
  rw [this]
  exact Submodule.smul_mem _ _
    (Submodule.sub_mem _ (Submodule.mem_sup_left h.residual_mem) (h.residual_advance_mem hp hl))

include hB hp h hl in
/-- A step within the trust region keeps the invariant, with one more direction. -/
theorem Krylov.advance : Krylov B r₀ (S ⊔ Submodule.span ℝ {s.direction}) (p.advance s) where
  iterate_mem := by
    rw [p.iterate_advance_of_not_leaves hl, hmul_eq_smul]
    exact mem_sup_span.2 ⟨_, h.iterate_mem, _, rfl⟩
  residual_eq := by
    rw [scaledResidual_advance_eq hp hl, p.iterate_advance_of_not_leaves hl, hmul_eq_smul,
      stepLength_eq hl, h.residual_eq, map_add, map_smul, sub_sub]
  energy_eq := p.energy_advance s
  residual_orthogonal := h.residual_advance_orthogonal hB hp hl
  direction_conjugate := by
    intro y hy
    obtain ⟨d, hd, c, rfl⟩ := mem_sup_span.1 hy
    have hd' := h.residual_advance_orthogonal hB hp hl _ (h.image_mem d hd)
    rw [direction_advance_eq hp h hl]
    simp only [map_add, map_smul, dot_add_left, dot_add_right, dot_smul_left, dot_smul_right,
      h.direction_conjugate d hd, hd', h.residual_advance_image hB hp hl, ← curvature_eq hp]
    ring
  image_mem := by
    intro y hy
    obtain ⟨d, hd, c, rfl⟩ := mem_sup_span.1 hy
    rw [map_add, map_smul]
    exact Submodule.add_mem _ (Submodule.mem_sup_left (h.image_mem d hd))
      (Submodule.smul_mem _ _ (h.image_direction_mem hp hl))
  residual_mem := h.residual_advance_mem hp hl
  residual_direction := by
    have hd := h.residual_advance_orthogonal hB hp hl s.direction
      (mem_sup_span.2 ⟨0, Submodule.zero_mem _, 1, by rw [one_smul, zero_add]⟩)
    rw [direction_advance_eq hp h hl, dot_add_right, dot_smul_right, hd, mul_zero, add_zero,
      p.energy_advance]
  direction_zero := by
    intro h0
    have hr : (p.advance s).scaledResidual = 0 := dot_self_eq_zero.1 h0
    rw [direction_advance_eq hp h hl, h0, hr, zero_div, zero_smul, add_zero]

end Step

/-! ## Descent along the ray to the iterate -/

/-- The parabola `t ↦ ½ t² (w · B w) - t (r₀ · w)` does not increase on `[0, 1]`. -/
structure Descending (B : Vector ℝ n →ₗ[ℝ] Vector ℝ n) (r₀ w : Vector ℝ n) : Prop where
  slope_nonneg : 0 ≤ dot r₀ w
  curvature_le : dot w (B w) ≤ dot r₀ w

theorem descending_zero (B : Vector ℝ n →ₗ[ℝ] Vector ℝ n) (r₀ : Vector ℝ n) : Descending B r₀ 0 where
  slope_nonneg := (dot_zero_right r₀).ge
  curvature_le := by rw [dot_zero_left, dot_zero_right]

/-- On the ray to `w` the parabola stays at or below its value at zero. -/
theorem Descending.value_nonpos {w : Vector ℝ n} (h : Descending B r₀ w) {t : ℝ} (h0 : 0 ≤ t) (h1 : t ≤ 1) :
    t * t * dot w (B w) / 2 - t * dot r₀ w ≤ 0 := by
  have hs := h.slope_nonneg
  have hc := h.curvature_le
  rcases le_total (dot w (B w)) 0 with hn | hn
  · nlinarith [mul_nonneg h0 h0, mul_nonneg h0 hs]
  · nlinarith [mul_nonneg h0 hs, mul_nonneg h0 (sub_nonneg.2 hc), mul_nonneg (mul_nonneg h0 (sub_nonneg.2 h1)) hn]

theorem Krylov.direction_ne_zero (h : Krylov B r₀ S s) (he : 0 < s.energy) : s.direction ≠ 0 := fun h0 => by
  have hd := h.residual_direction
  rw [h0, dot_zero_right] at hd
  exact he.ne hd

/-- Whichever way an iteration ends, it goes along its direction as far as `τ`, and no farther than
to the minimum. From within the trust region it does move, unless the residual vanishes. -/
theorem exists_iterate_advance (h : Krylov B r₀ S s) :
    ∃ τ, 0 ≤ τ ∧ τ * p.curvature s ≤ s.energy ∧ (p.advance s).iterate = s.iterate + τ • s.direction ∧
      (0 < s.energy → norm s.iterate < p.radius → 0 < τ) := by
  have hρ : 0 ≤ s.energy := h.energy_eq ▸ dot_self_nonneg _
  by_cases hl : p.Leaves s
  · have hσ := TrustRegion.boundaryStep_nonneg s.iterate s.direction p.radius
    refine ⟨_, hσ, ?_, p.iterate_advance_of_leaves hl, fun he hin =>
      TrustRegion.boundaryStep_pos (h.direction_ne_zero he) hin⟩
    rcases le_or_gt (p.curvature s) 0 with hκ | hκ
    · exact (mul_nonpos_of_nonneg_of_nonpos hσ hκ).trans hρ
    · have hle := hl.resolve_left (not_le.2 hκ)
      rw [Problem.stepLength, if_pos hκ] at hle
      exact (le_div_iff₀ hκ).1 hle
  · have hκ := curvature_pos hl
    refine ⟨_, div_nonneg hρ hκ.le, (div_mul_cancel₀ _ hκ.ne').le, ?_, fun he _ => div_pos he hκ⟩
    rw [p.iterate_advance_of_not_leaves hl, stepLength_eq hl]; rfl

theorem Krylov.direction_iterate (h : Krylov B r₀ S s) : dot s.direction (B s.iterate) = 0 :=
  h.direction_conjugate _ h.iterate_mem

theorem Krylov.iterate_direction (hB : IsSymmetric B) (h : Krylov B r₀ S s) : dot s.iterate (B s.direction) = 0 := by
  rw [hB, dot_comm, h.direction_iterate]

theorem Krylov.dot_direction (h : Krylov B r₀ S s) : dot r₀ s.direction = s.energy := by
  have hr : r₀ = s.scaledResidual + B s.iterate := by rw [h.residual_eq, sub_add_cancel]
  rw [hr, dot_add_left, h.residual_direction, dot_comm (B _), h.direction_iterate, add_zero]

theorem Krylov.dot_iterate (h : Krylov B r₀ S s) : dot r₀ s.iterate = dot s.iterate (B s.iterate) := by
  have hr : r₀ = s.scaledResidual + B s.iterate := by rw [h.residual_eq, sub_add_cancel]
  rw [hr, dot_add_left, h.residual_orthogonal _ h.iterate_mem, zero_add, dot_comm]

theorem Krylov.descending_advance (hB : IsSymmetric B) (hp : ∀ v, p.scaledHessian v = B v)
    (h : Krylov B r₀ S s) (hw : Descending B r₀ s.iterate) : Descending B r₀ (p.advance s).iterate := by
  obtain ⟨τ, hτ, hle, heq, -⟩ := exists_iterate_advance (p := p) h
  have hρ : 0 ≤ s.energy := h.energy_eq ▸ dot_self_nonneg _
  have hslope := hw.slope_nonneg
  -- along the direction the slope grows by `τ` times the energy, and the curvature by no more
  rw [heq]
  constructor
  · rw [dot_add_right, dot_smul_right, h.dot_direction]
    exact add_nonneg hslope (mul_nonneg hτ hρ)
  · simp only [map_add, map_smul, dot_add_left, dot_add_right, dot_smul_left, dot_smul_right, h.direction_iterate,
      h.iterate_direction hB, h.dot_direction, h.dot_iterate, ← curvature_eq hp]
    nlinarith [mul_le_mul_of_nonneg_left hle hτ]

end BoxNewton.ConjugateGradient
