/-
The stationarity measure as a rate. On the way from a real point to no other point of the box does the gradient
fall faster, for the length of the way, than the measure says, and the path of steepest descent falls as fast at
its start. So the measure is zero exactly where that path does not move.
-/
import BoxNewton.Proofs.Box.SteepestDescent
import Mathlib.Order.Bounds.Basic

namespace BoxNewton.Box

variable {n : ℕ} {b : Box Exact n} {x g : Vector ℝ n}

/-- The rates at which the gradient falls at most, for the length of the way, from `x` to the points of the box. -/
def descentRates (b : Box Exact n) (x g : Vector ℝ n) : Set ℝ :=
  {e | 0 ≤ e ∧ ∀ y : Vector ℝ n, b.Contains y → -(e * norm (y - x)) ≤ dot g (y - x)}

theorem norm_effective_mem_descentRates (hx : b.Contains x) : norm (b.effective x g) ∈ b.descentRates x g :=
  ⟨norm_nonneg _, fun _ hy => neg_norm_effective_le hx hy⟩

/-- A short step on the path of steepest descent is in the direction of the part of the gradient that counts. -/
theorem exists_descend_eq (hx : b.Contains x) (g : Vector ℝ n) :
    ∃ t > 0, b.descend x g t = -t • b.effective x g := by
  obtain ⟨κ, hκ, hmargin⟩ := exists_margin hx g
  have hg : 0 < norm g + 1 := add_pos_of_nonneg_of_pos (norm_nonneg g) one_pos
  have ht : 0 < κ / (norm g + 1) := div_pos hκ hg
  refine ⟨_, ht, hmargin.descend_eq hx ht ((norm_descend_le hx g ht.le).trans_lt ?_)⟩
  calc κ / (norm g + 1) * norm g < κ / (norm g + 1) * (norm g + 1) :=
        mul_lt_mul_of_pos_left (lt_add_one _) ht
    _ = κ := div_mul_cancel₀ κ hg.ne'

theorem norm_effective_le (hx : b.Contains x) {e : ℝ} (he : e ∈ b.descentRates x g) :
    norm (b.effective x g) ≤ e := by
  obtain ⟨t, ht, heq⟩ := exists_descend_eq hx g
  have hin : b.Contains (x + b.descend x g t : Vector ℝ n) := by
    rw [Exact.coe_add_vector]
    exact contains_add_shift hx g (-t)
  have hrate := he.2 _ hin
  rw [add_sub_cancel_left, heq, dot_smul_right, dot_effective_self, norm_smul, abs_neg, abs_of_pos ht] at hrate
  rcases (norm_nonneg (b.effective x g)).eq_or_lt with h0 | hpos
  · rw [← h0]
    exact he.1
  · -- both sides are multiples of the length of the step
    have hscaled : t * norm (b.effective x g) * norm (b.effective x g) ≤ t * norm (b.effective x g) * e := by
      linarith
    exact le_of_mul_le_mul_left hscaled (mul_pos ht hpos)

theorem displacement_eq_zero_iff (hx : b.Contains x) {t : ℝ} (ht : 0 < t) :
    b.displacement x g (-t : ℝ) = 0 ↔ b.effective x g = 0 := by
  rw [displacement_eq hx, ← Exact.coe_zero_vector, Exact.vector_injective.eq_iff]
  exact descend_eq_zero_iff hx ht

/-- At a point of the box the stationarity measure is the least rate at which the gradient falls at most on the way
to any other. It is zero if and only if the path of steepest descent never moves. -/
theorem stationarity_isLeast (hx : b.Contains x) (g : Vector ℝ n) :
    ∃ e : ℝ, b.stationarity x g = e ∧ IsLeast (b.descentRates x g) e ∧
      (e = 0 ↔ ∀ t : ℝ, 0 < t → b.displacement x g (-t : ℝ) = 0) := by
  refine ⟨norm (b.effective x g), stationarity_eq b x g,
    ⟨norm_effective_mem_descentRates hx, fun e he => norm_effective_le hx he⟩, fun h t ht => ?_, fun h => ?_⟩
  · rw [displacement_eq_zero_iff hx ht]
    exact eq_zero_of_norm_le h.le
  · rw [(displacement_eq_zero_iff hx one_pos).1 (h 1 one_pos), norm_zero]

/-- A coordinate at its lower bound and one at its upper bound, both sent into the box, and a fixed one. The other
bounds of the first two are infinite. -/
theorem stationarity_isLeast_corner :
    let b : Box Exact 3 := ⟨#v[0, .bot, 1], #v[.top, 1, 1]⟩
    let x : Vector ℝ 3 := #v[0, 1, 1]
    let g : Vector ℝ 3 := #v[-3, 4, 5]
    b.Contains x ∧ b.stationarity x g = (5 : ℝ) ∧ IsLeast (b.descentRates x g) 5 ∧
      ((5 : ℝ) = 0 ↔ ∀ t : ℝ, 0 < t → b.displacement x g (-t : ℝ) = 0) := by
  intro b x g
  have hone : (1 : Exact) ≤ 1 := Exact.coe_le.2 (le_refl (1 : ℝ))
  have hx : b.Contains x := by
    rintro (i : Fin 3)
    rw [Exact.get_coe]
    match i with
    | 0 => exact ⟨Exact.coe_le.2 (le_refl (0 : ℝ)), trivial⟩
    | 1 => exact ⟨trivial, hone⟩
    | 2 => exact ⟨hone, hone⟩
  have hlower : (b.effective x g).get 0 < 0 := (effective_neg_iff hx).2 ⟨show (-3 : ℝ) < 0 by norm_num, trivial⟩
  have hupper : 0 < (b.effective x g).get 1 := (effective_pos_iff hx).2 ⟨show (0 : ℝ) < 4 by norm_num, trivial⟩
  have hfixed : (b.effective x g).get 2 = 0 := by
    refine le_antisymm (not_lt.1 fun h => ?_) (not_lt.1 fun h => ?_)
    · exact lt_irrefl (1 : ℝ) ((effective_pos_iff hx).1 h).2
    · exact lt_irrefl (1 : ℝ) ((effective_neg_iff hx).1 h).2
  obtain ⟨e, he, hleast, hzero⟩ := stationarity_isLeast hx g
  have hfive : e = 5 := by
    rw [stationarity_eq, Exact.coe_inj] at he
    have hsq : dot (b.effective x g) (b.effective x g) = 5 ^ 2 := by
      rw [dot_eq_sum, Fin.sum_univ_three, effective_eq_of_ne_zero hlower.ne, effective_eq_of_ne_zero hupper.ne', hfixed]
      show (-3 : ℝ) * -3 + 4 * 4 + 0 * 0 = 5 ^ 2
      norm_num
    rw [← he, norm, hsq, sqrt_real, Real.sqrt_sq (by norm_num)]
  rw [hfive] at he hleast hzero
  exact ⟨hx, he, hleast, hzero⟩

end BoxNewton.Box
