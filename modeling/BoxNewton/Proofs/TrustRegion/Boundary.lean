/-
The boundary step over the reals: it is never negative, it takes a point within the trust region to its
boundary (`norm_add_boundaryStep`), and shorter steps stay inside. From anywhere else it is the last time at which
the ray is at the boundary, unless the ray only touches it from outside (`boundaryStep_last_crossing`). On real
data the exact numbers compute the real one, as neither of its quotients divides by zero.
-/
import BoxNewton.Proofs.Exact.Vector
import BoxNewton.TrustRegion.Boundary

namespace BoxNewton.TrustRegion

variable {n : ℕ}

theorem boundaryStep_nonneg (x p : Vector ℝ n) (radius : ℝ) : 0 ≤ boundaryStep x p radius := by
  unfold boundaryStep
  simp only [greater_real]
  exact le_max_right _ _

/-! ## The roots -/

/-- A quarter of the discriminant of the equation `‖x + t p‖ = radius`. -/
noncomputable def discriminant (x p : Vector ℝ n) (radius : ℝ) : ℝ :=
  dot p x * dot p x + dot p p * (radius * radius - dot x x)

/-- Where there is a root the step is the larger one, or zero if that is negative, but not where the two roots
coincide ahead of the ray. -/
theorem boundaryStep_eq_root {x p : Vector ℝ n} (hp : p ≠ 0) {radius : ℝ} (hdisc : 0 ≤ discriminant x p radius)
    (hahead : ¬ (discriminant x p radius = 0 ∧ dot p x < 0)) :
    boundaryStep x p radius = max ((√(discriminant x p radius) - dot p x) / dot p p) 0 := by
  have hpp := dot_self_pos hp
  have hsq := Real.mul_self_sqrt hdisc
  have hroot := Real.sqrt_nonneg (discriminant x p radius)
  rw [← Real.sqrt_eq_zero hdisc] at hahead
  unfold boundaryStep
  simp only [greater_real, sqrt_real]
  rw [← discriminant, max_eq_left hdisc]
  generalize √(discriminant x p radius) = root at *
  unfold discriminant at hsq
  generalize radius * radius - dot x x = gap at hsq
  generalize dot p p = a at hpp hsq
  generalize dot p x = c at hsq hahead
  congr 1
  split_ifs with hc hr
  · -- the product of the roots is `-gap / a`
    field_simp
    linarith
  · rfl
  · have hroot0 : root = 0 := le_antisymm (not_lt.1 hr) hroot
    have hc0 : c = 0 := le_antisymm (not_lt.1 hc) (not_lt.1 fun hneg => hahead ⟨hroot0, hneg⟩)
    rw [hroot0, hc0, sub_zero, zero_div]

theorem boundaryStep_eq_zero {x p : Vector ℝ n} (hp : p ≠ 0) {radius : ℝ}
    (h : discriminant x p radius < 0 ∨ discriminant x p radius = 0 ∧ dot p x < 0) : boundaryStep x p radius = 0 := by
  have hdisc : discriminant x p radius ≤ 0 := h.elim le_of_lt fun h => h.1.le
  unfold boundaryStep
  simp only [greater_real, sqrt_real]
  rw [← discriminant, max_eq_right hdisc, Real.sqrt_zero, add_zero, if_neg (lt_irrefl 0)]
  split
  · rename_i hc
    have hneg := h.resolve_right fun h => h.2.not_gt hc
    refine max_eq_right (div_nonpos_of_nonpos_of_nonneg ?_ hc.le)
    unfold discriminant at hneg
    nlinarith [dot_self_pos hp, mul_pos hc hc]
  · exact max_self 0

/-! ## Rays from within the region -/

/-- From within the region the ray leaves at the one time at which the distance is the radius. -/
theorem boundaryStep_eq {x p : Vector ℝ n} (hp : p ≠ 0) {radius : ℝ} (hx : norm x ≤ radius) :
    boundaryStep x p radius * (boundaryStep x p radius * dot p p + 2 * dot p x) = radius * radius - dot x x := by
  have hpp := dot_self_pos hp
  have hgap : 0 ≤ radius * radius - dot x x := by
    rw [← norm_sq, ← sq, sub_nonneg]
    exact pow_le_pow_left₀ (norm_nonneg x) hx 2
  have hle : dot p x * dot p x ≤ discriminant x p radius := le_add_of_nonneg_right (mul_nonneg hpp.le hgap)
  have hdisc : 0 ≤ discriminant x p radius := (mul_self_nonneg _).trans hle
  have hsq := Real.mul_self_sqrt hdisc
  -- the roots have opposite signs, or one of them is zero
  have hroot : dot p x ≤ √(discriminant x p radius) := Real.le_sqrt_of_sq_le (by rwa [sq])
  rw [boundaryStep_eq_root hp hdisc fun h => (mul_pos_of_neg_of_neg h.2 h.2).not_ge (hle.trans h.1.le),
    max_eq_left (div_nonneg (sub_nonneg.2 hroot) hpp.le)]
  unfold discriminant at hsq ⊢
  generalize √(dot p x * dot p x + dot p p * (radius * radius - dot x x)) = root at hsq
  field_simp
  linarith

theorem norm_add_boundaryStep {x p : Vector ℝ n} (hp : p ≠ 0) {radius : ℝ} (hx : norm x ≤ radius) :
    norm (x + boundaryStep x p radius • p) = radius := by
  have hsq : dot (x + boundaryStep x p radius • p) (x + boundaryStep x p radius • p) = radius * radius := by
    rw [dot_add_smul_self, boundaryStep_eq hp hx, add_sub_cancel]
  rw [norm, hsq, sqrt_real, Real.sqrt_mul_self ((norm_nonneg x).trans hx)]

/-- A shorter step stays within the region. -/
theorem norm_add_smul_le {x p : Vector ℝ n} (hp : p ≠ 0) {radius τ : ℝ} (hx : norm x ≤ radius) (h0 : 0 ≤ τ)
    (hτ : τ ≤ boundaryStep x p radius) : norm (x + τ • p) ≤ radius := by
  have hρ : 0 ≤ radius := (norm_nonneg x).trans hx
  have hpp : 0 ≤ dot p p := dot_self_nonneg p
  have hgap : dot x x ≤ radius ^ 2 := by
    rw [← norm_sq]
    exact pow_le_pow_left₀ (norm_nonneg x) hx 2
  have heq := boundaryStep_eq hp hx
  refine norm_le_of_dot_le hρ ?_
  rw [dot_add_smul_self]
  generalize boundaryStep x p radius = σ at hτ heq
  -- the square of the distance is convex along the ray
  rcases le_or_gt (τ * dot p p + 2 * dot p x) 0 with hn | hn
  · nlinarith
  · nlinarith [mul_le_mul_of_nonneg_right hτ hpp]

/-- From the inside the points before the boundary step are those inside. -/
theorem norm_add_smul_lt_iff {x p : Vector ℝ n} (hp : p ≠ 0) {radius τ : ℝ} (hx : norm x < radius) (h0 : 0 ≤ τ) :
    norm (x + τ • p) < radius ↔ τ < boundaryStep x p radius := by
  have hρ : 0 ≤ radius := (norm_nonneg x).trans hx.le
  have hpp : 0 ≤ dot p p := dot_self_nonneg p
  have heq := boundaryStep_eq hp hx.le
  have hσ := boundaryStep_nonneg x p radius
  have hgap : 0 < radius * radius - dot x x := by
    rw [← norm_sq, ← sq, sub_pos]
    exact pow_lt_pow_left₀ hx (norm_nonneg x) two_ne_zero
  rw [← pow_lt_pow_iff_left₀ (norm_nonneg _) hρ two_ne_zero, norm_sq, dot_add_smul_self, sq, ← lt_sub_iff_add_lt']
  rw [← heq] at hgap ⊢
  generalize boundaryStep x p radius = σ at hgap hσ
  -- once the way leads outwards it goes on doing so
  constructor
  · intro hlt
    by_contra hle
    have hout : 0 < σ * dot p p + 2 * dot p x := pos_of_mul_pos_right hgap hσ
    nlinarith [mul_le_mul_of_nonneg_right (not_lt.1 hle) hpp]
  · intro hτ
    have hout : 0 < σ * dot p p + 2 * dot p x := pos_of_mul_pos_right hgap hσ
    nlinarith [mul_le_mul_of_nonneg_right hτ.le hpp]

theorem boundaryStep_pos {x p : Vector ℝ n} (hp : p ≠ 0) {radius : ℝ} (hx : norm x < radius) :
    0 < boundaryStep x p radius := by
  rw [← norm_add_smul_lt_iff hp hx le_rfl, zero_smul, add_zero]
  exact hx

/-- A ray from the centre goes as far as the radius. -/
theorem boundaryStep_zero {p : Vector ℝ n} (hp : p ≠ 0) {radius : ℝ} (h : 0 < radius) :
    boundaryStep 0 p radius = radius / norm p := by
  have hpos := norm_pos_of_ne_zero hp
  have hroot : √(max (0 * 0 + norm p ^ 2 * (radius * radius)) 0) = norm p * radius := by
    have hsq : 0 * 0 + norm p ^ 2 * (radius * radius) = (norm p * radius) ^ 2 := by ring
    rw [hsq, max_eq_left (sq_nonneg _), Real.sqrt_sq (mul_nonneg hpos.le h.le)]
  unfold boundaryStep
  simp only [greater_real, sqrt_real, dot_zero_right, ← norm_sq p, lt_irrefl, if_false, sub_zero]
  rw [hroot, if_pos (mul_pos hpos h), if_pos (pow_pos hpos 2), max_eq_left (by positivity)]
  field_simp

/-! ## Rays from anywhere -/

section Anywhere

variable {x p : Vector ℝ n} (hp : p ≠ 0) {radius : ℝ} (h0 : 0 ≤ radius)

/-- The times from the start of the ray on at which it is at the boundary. -/
def crossings (x p : Vector ℝ n) (radius : ℝ) : Set ℝ := {t | 0 ≤ t ∧ norm (x + t • p) = radius}

/-- The ray comes to the boundary from the outside, and the line it lies on does not enter the region. -/
def Grazes (x p : Vector ℝ n) (radius : ℝ) : Prop :=
  ∃ t : ℝ, 0 < t ∧ norm (x + t • p) = radius ∧ ∀ t' : ℝ, radius ≤ norm (x + t' • p)

/-- The square completed. -/
theorem sq_sub_discriminant (x p : Vector ℝ n) (radius t : ℝ) :
    (t * dot p p + dot p x) ^ 2 - discriminant x p radius = dot p p * (norm (x + t • p) ^ 2 - radius ^ 2) := by
  rw [norm_sq, dot_add_smul_self, discriminant]
  ring

include hp h0

theorem norm_add_smul_eq_iff (t : ℝ) :
    norm (x + t • p) = radius ↔ (t * dot p p + dot p x) ^ 2 = discriminant x p radius := by
  rw [← sub_eq_zero (b := discriminant _ _ _), sq_sub_discriminant, mul_eq_zero, or_iff_right (dot_self_pos hp).ne',
    sub_eq_zero, pow_left_inj₀ (norm_nonneg _) h0 two_ne_zero]

theorem le_norm_add_smul_iff (t : ℝ) :
    radius ≤ norm (x + t • p) ↔ discriminant x p radius ≤ (t * dot p p + dot p x) ^ 2 := by
  rw [← sub_nonneg (b := discriminant _ _ _), sq_sub_discriminant, mul_nonneg_iff_of_pos_left (dot_self_pos hp),
    sub_nonneg, pow_le_pow_iff_left₀ h0 (norm_nonneg _) two_ne_zero]

/-- A ray grazes where the two roots coincide ahead of it. -/
theorem grazes_iff : Grazes x p radius ↔ discriminant x p radius = 0 ∧ dot p x < 0 := by
  have hpp := dot_self_pos hp
  -- the distance is least where the square vanishes
  have hleast : (-dot p x / dot p p * dot p p + dot p x) ^ 2 = 0 := by
    rw [div_mul_cancel₀ _ hpp.ne', neg_add_cancel, zero_pow two_ne_zero]
  simp only [Grazes, norm_add_smul_eq_iff hp h0, le_norm_add_smul_iff hp h0]
  constructor
  · rintro ⟨t, ht, heq, hle⟩
    have hdisc : discriminant x p radius = 0 := le_antisymm (hleast ▸ hle _) (heq ▸ sq_nonneg _)
    have hzero := pow_eq_zero_iff two_ne_zero |>.1 (heq.trans hdisc)
    exact ⟨hdisc, by linarith [mul_pos ht hpp]⟩
  · rintro ⟨hdisc, hc⟩
    rw [hdisc]
    exact ⟨_, div_pos (neg_pos.2 hc) hpp, hleast, fun t' => sq_nonneg _⟩

theorem crossings_le_root {t : ℝ} (ht : t ∈ crossings x p radius) :
    0 ≤ discriminant x p radius ∧ t ≤ (√(discriminant x p radius) - dot p x) / dot p p := by
  have heq := (norm_add_smul_eq_iff hp h0 t).1 ht.2
  refine ⟨heq ▸ sq_nonneg _, ?_⟩
  rw [le_div_iff₀ (dot_self_pos hp), le_sub_iff_add_le, ← heq]
  exact Real.le_sqrt_of_sq_le le_rfl

theorem root_mem_crossings (hdisc : 0 ≤ discriminant x p radius)
    (hroot : 0 ≤ (√(discriminant x p radius) - dot p x) / dot p p) :
    (√(discriminant x p radius) - dot p x) / dot p p ∈ crossings x p radius := by
  refine ⟨hroot, (norm_add_smul_eq_iff hp h0 _).2 ?_⟩
  rw [div_mul_cancel₀ _ (dot_self_pos hp).ne', sub_add_cancel, Real.sq_sqrt hdisc]

theorem boundaryStep_of_not_grazes (hno : ¬ Grazes x p radius) (h : (crossings x p radius).Nonempty) :
    IsGreatest (crossings x p radius) (boundaryStep x p radius) := by
  obtain ⟨t, ht⟩ := h
  obtain ⟨hdisc, hle⟩ := crossings_le_root hp h0 ht
  have hroot := ht.1.trans hle
  rw [grazes_iff hp h0] at hno
  rw [boundaryStep_eq_root hp hdisc hno, max_eq_left hroot]
  exact ⟨root_mem_crossings hp h0 hdisc hroot, fun t' ht' => (crossings_le_root hp h0 ht').2⟩

theorem boundaryStep_of_grazes (h : Grazes x p radius) :
    boundaryStep x p radius = 0 ∧ ∃ t > 0, crossings x p radius = {t} := by
  obtain ⟨hdisc, hc⟩ := (grazes_iff hp h0).1 h
  obtain ⟨t, ht, hnorm, -⟩ := h
  refine ⟨boundaryStep_eq_zero hp (.inr ⟨hdisc, hc⟩), t, ht, ?_⟩
  have hzero : ∀ {t' : ℝ}, norm (x + t' • p) = radius → t' * dot p p + dot p x = 0 := fun h' => by
    rwa [norm_add_smul_eq_iff hp h0, hdisc, pow_eq_zero_iff two_ne_zero] at h'
  refine Set.eq_singleton_iff_unique_mem.2 ⟨⟨ht.le, hnorm⟩, fun t' ht' => ?_⟩
  exact mul_right_cancel₀ (dot_self_pos hp).ne' (by linarith [hzero hnorm, hzero ht'.2])

theorem boundaryStep_of_crossings_eq_empty (h : crossings x p radius = ∅) : boundaryStep x p radius = 0 := by
  rcases lt_or_ge (discriminant x p radius) 0 with hneg | hdisc
  · exact boundaryStep_eq_zero hp (.inl hneg)
  by_cases hgraze : discriminant x p radius = 0 ∧ dot p x < 0
  · exact boundaryStep_eq_zero hp (.inr hgraze)
  rw [boundaryStep_eq_root hp hdisc hgraze]
  refine max_eq_right (le_of_not_ge fun hroot => ?_)
  exact Set.notMem_empty _ (h ▸ root_mem_crossings hp h0 hdisc hroot)

/-- From wherever the ray starts and whichever way it goes, the boundary step is the last time at which it is at the
boundary, and zero if it never is. Only a ray that grazes the region is missed: it is at the boundary once, at a
positive time, and the step is zero all the same. -/
theorem boundaryStep_last_crossing :
    ((crossings x p radius).Nonempty → ¬ Grazes x p radius →
      IsGreatest (crossings x p radius) (boundaryStep x p radius)) ∧
    (crossings x p radius = ∅ → boundaryStep x p radius = 0) ∧
    (Grazes x p radius → boundaryStep x p radius = 0 ∧ ∃ t > 0, crossings x p radius = {t}) :=
  ⟨fun h hno => boundaryStep_of_not_grazes hp h0 hno h, boundaryStep_of_crossings_eq_empty hp h0,
    boundaryStep_of_grazes hp h0⟩

end Anywhere

/-- A tangent to the unit circle, from a point before the one where it touches. -/
theorem boundaryStep_last_crossing_tangent :
    let x : Vector ℝ 2 := #v[-1, 1]
    let p : Vector ℝ 2 := #v[1, 0]
    p ≠ 0 ∧ (0 : ℝ) ≤ 1 ∧ Grazes x p 1 ∧ boundaryStep x p 1 = 0 ∧ crossings x p 1 = {1} := by
  intro x p
  have hp : p ≠ 0 := fun h => one_ne_zero (congrArg (·.get 0) h : (1 : ℝ) = _)
  have hgraze : Grazes x p 1 := by
    rw [grazes_iff hp zero_le_one]
    simp [discriminant, dot_eq_sum, Fin.sum_univ_two, get_eq_getElem, x, p]
  have hone : (1 : ℝ) ∈ crossings x p 1 := by
    refine ⟨zero_le_one, ?_⟩
    rw [norm_add_smul_eq_iff hp zero_le_one]
    simp [discriminant, dot_eq_sum, Fin.sum_univ_two, get_eq_getElem, x, p]
  obtain ⟨-, -, hgrazes⟩ := boundaryStep_last_crossing hp (zero_le_one' ℝ)
  obtain ⟨hstep, t, -, hset⟩ := hgrazes hgraze
  have ht : 1 = t := by rwa [hset] at hone
  exact ⟨hp, zero_le_one, hgraze, hstep, ht ▸ hset⟩

theorem coe_boundaryStep (x p : Vector ℝ n) (radius : ℝ) :
    boundaryStep (x : Vector Exact n) (p : Vector Exact n) (radius : Exact)
      = (boundaryStep x p radius : ℝ) := by
  unfold boundaryStep
  simp only [greater_real, sqrt_real, ← Exact.coe_dot, ← Exact.coe_mul, ← Exact.coe_sub, ← Exact.coe_add,
    ← Exact.coe_zero, ← Exact.coe_one, ← Exact.coe_greater, ← Exact.coe_sqrt (le_max_right _ _),
    Exact.coe_lt]
  have hroot := Real.sqrt_nonneg (max (dot p x * dot p x + dot p p * (radius * radius - dot x x)) 0)
  generalize √(max (dot p x * dot p x + dot p p * (radius * radius - dot x x)) 0) = root at *
  rw [Exact.coe_greater]
  congr 1
  split
  · rw [Exact.coe_div _ (by linarith)]
  · split
    · split
      · rw [Exact.coe_div _ (by linarith)]
      · rw [Exact.coe_div _ one_ne_zero]
    · rfl

end BoxNewton.TrustRegion
