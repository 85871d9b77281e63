/-
The part of a gradient that counts at a real point of the box. A coordinate counts where it can move
downhill without leaving the box (`descends_iff`), so no step that stays in the box falls more steeply
along the gradient than along that part of it (`dot_effective_le`).
-/
import BoxNewton.Box.Stationarity
import BoxNewton.Proofs.Exact.Vector

namespace BoxNewton.Box

variable {n : ℕ} {b : Box Exact n} {x g : Vector ℝ n}

/-! ## One coordinate -/

/-- The coordinates that count are those that can move downhill. -/
theorem descends_iff (hx : b.Contains x) {i : Fin n} (hg : g.get i ≠ 0) :
    b.Descends x g i ↔
      g.get i < 0 ∧ (x.get i : Exact) < b.upper.get i ∨ 0 < g.get i ∧ b.lower.get i < x.get i := by
  obtain ⟨hl, hu⟩ := hx i
  rw [Exact.get_coe] at hl hu
  have hxl : (x.get i : Exact) ≤ b.lower.get i ↔ ¬ b.lower.get i < x.get i :=
    (Exact.not_lt_iff (Exact.left_ne_nan hl) (Exact.coe_ne_nan _)).symm
  have hxu : b.upper.get i ≤ (x.get i : Exact) ↔ ¬ (x.get i : Exact) < b.upper.get i :=
    (Exact.not_lt_iff (Exact.coe_ne_nan _) (Exact.right_ne_nan hu)).symm
  -- between distinct bounds a coordinate is off one of them
  have hlu : b.lower.get i < b.upper.get i ↔ b.lower.get i < x.get i ∨ (x.get i : Exact) < b.upper.get i := by
    refine ⟨fun h => or_iff_not_imp_left.2 fun hle => Exact.lt_of_le_of_lt' (hxl.2 hle) h, ?_⟩
    rintro (h | h)
    · exact Exact.lt_of_lt_of_le' h hu
    · exact Exact.lt_of_le_of_lt' hl h
  unfold Descends Coincide
  simp only [Exact.get_coe, Exact.coe_lt_zero, Exact.coe_pos, hl, hu, hxl, hxu, hlu, and_true, true_and]
  rcases lt_or_gt_of_ne hg with hg | hg
  · by_cases hlower : b.lower.get i < x.get i <;> simp [hlower, hg, hg.not_gt]
  · by_cases hupper : (x.get i : Exact) < b.upper.get i <;> simp [hupper, hg, hg.not_gt]

/-! ## The gradient that counts -/

/-- The part of the gradient that counts at `x`, as a real vector. -/
noncomputable def effective (b : Box Exact n) (x g : Vector ℝ n) : Vector ℝ n :=
  .ofFn fun i => if b.Descends x g i then g.get i else 0

theorem get_effective (b : Box Exact n) (x g : Vector ℝ n) (i : Fin n) :
    (b.effective x g).get i = if b.Descends x g i then g.get i else 0 :=
  get_ofFn _ i

theorem projectedGradient_eq (b : Box Exact n) (x g : Vector ℝ n) :
    b.projectedGradient x g = (b.effective x g : Vector Exact n) := ext_get fun i => by
  rw [get_projectedGradient, Exact.get_coe, Exact.get_coe, get_effective]
  split <;> rfl

theorem projectedGradient_eq_zero_iff (b : Box Exact n) (x g : Vector ℝ n) :
    b.projectedGradient x g = 0 ↔ b.effective x g = 0 := by
  rw [projectedGradient_eq, ← Exact.coe_zero_vector]
  exact Exact.vector_injective.eq_iff

theorem stationarity_eq (b : Box Exact n) (x g : Vector ℝ n) :
    b.stationarity x g = (norm (b.effective x g) : ℝ) := by
  rw [stationarity, projectedGradient_eq, Exact.coe_norm]

theorem effective_ne_zero {i : Fin n} (h : (b.effective x g).get i ≠ 0) : b.effective x g ≠ 0 := fun h0 => by
  rw [h0, get_zero] at h
  exact h rfl

theorem effective_eq_of_ne_zero {i : Fin n} (h : (b.effective x g).get i ≠ 0) :
    (b.effective x g).get i = g.get i := by
  rw [get_effective] at h ⊢
  split at h
  · exact if_pos ‹_›
  · exact absurd rfl h

theorem effective_neg_iff (hx : b.Contains x) {i : Fin n} :
    (b.effective x g).get i < 0 ↔ g.get i < 0 ∧ (x.get i : Exact) < b.upper.get i := by
  rw [get_effective]
  constructor
  · intro h
    split at h
    · exact ((descends_iff hx h.ne).1 ‹_›).resolve_right fun h' => h'.1.not_gt h
    · exact absurd h (lt_irrefl 0)
  · rintro ⟨hg, hlt⟩
    rwa [if_pos ((descends_iff hx hg.ne).2 (.inl ⟨hg, hlt⟩))]

theorem effective_pos_iff (hx : b.Contains x) {i : Fin n} :
    0 < (b.effective x g).get i ↔ 0 < g.get i ∧ b.lower.get i < (x.get i : Exact) := by
  rw [get_effective]
  constructor
  · intro h
    split at h
    · exact ((descends_iff hx h.ne').1 ‹_›).resolve_left fun h' => h'.1.not_gt h
    · exact absurd h (lt_irrefl 0)
  · rintro ⟨hg, hlt⟩
    rwa [if_pos ((descends_iff hx hg.ne').2 (.inr ⟨hg, hlt⟩))]

/-- A coordinate that does not count stands at the bound that its gradient pushes it to. -/
theorem blocked_of_effective_eq_zero (hx : b.Contains x) {i : Fin n} (h : (b.effective x g).get i = 0) :
    (g.get i < 0 → b.upper.get i ≤ (x.get i : Exact)) ∧ (0 < g.get i → (x.get i : Exact) ≤ b.lower.get i) := by
  obtain ⟨hl, hu⟩ := hx i
  rw [Exact.get_coe] at hl hu
  refine ⟨fun hg => (Exact.not_lt_iff (Exact.coe_ne_nan _) (Exact.right_ne_nan hu)).1 fun hlt => ?_,
    fun hg => (Exact.not_lt_iff (Exact.left_ne_nan hl) (Exact.coe_ne_nan _)).1 fun hlt => ?_⟩
  · exact ((effective_neg_iff hx).2 ⟨hg, hlt⟩).ne h
  · exact ((effective_pos_iff hx).2 ⟨hg, hlt⟩).ne' h

/-- A free coordinate counts. -/
theorem effective_eq_of_free (hx : b.Contains x) {i : Fin n} (hfree : (b.free x).get i = true) :
    (b.effective x g).get i = g.get i := by
  rw [get_free, decide_eq_true_eq, Exact.get_coe] at hfree
  rcases lt_trichotomy (g.get i) 0 with hg | hg | hg
  · exact effective_eq_of_ne_zero ((effective_neg_iff hx).2 ⟨hg, hfree.2⟩).ne
  · rw [get_effective, hg, ite_self]
  · exact effective_eq_of_ne_zero ((effective_pos_iff hx).2 ⟨hg, hfree.1⟩).ne'

theorem dot_effective_self (b : Box Exact n) (x g : Vector ℝ n) :
    dot g (b.effective x g) = norm (b.effective x g) ^ 2 := by
  rw [norm_sq, dot_eq_sum, dot_eq_sum]
  refine Finset.sum_congr rfl fun i _ => ?_
  by_cases h : (b.effective x g).get i = 0
  · rw [h, mul_zero, mul_zero]
  · rw [effective_eq_of_ne_zero h]

/-- No step within the box falls more steeply along the gradient than along the part that counts. -/
theorem dot_effective_le {y : Vector ℝ n} (hx : b.Contains x) (hy : b.Contains y) :
    dot (b.effective x g) (y - x) ≤ dot g (y - x) := by
  rw [dot_eq_sum, dot_eq_sum]
  refine Finset.sum_le_sum fun i _ => ?_
  by_cases h : (b.effective x g).get i = 0
  · obtain ⟨hupper, hlower⟩ := blocked_of_effective_eq_zero hx h
    obtain ⟨hl, hu⟩ := hy i
    rw [Exact.get_coe] at hl hu
    rw [h, zero_mul, get_sub]
    -- the step cannot lead downhill
    rcases lt_trichotomy (g.get i) 0 with hg | hg | hg
    · have : y.get i ≤ x.get i := Exact.coe_le.1 (Exact.le_trans hu (hupper hg))
      exact mul_nonneg_of_nonpos_of_nonpos hg.le (by linarith)
    · rw [hg, zero_mul]
    · have : x.get i ≤ y.get i := Exact.coe_le.1 (Exact.le_trans (hlower hg) hl)
      exact mul_nonneg hg.le (by linarith)
  · rw [effective_eq_of_ne_zero h]

/-- So no step within the box falls faster, for its length, than the norm of that part says. -/
theorem neg_norm_effective_le {y : Vector ℝ n} (hx : b.Contains x) (hy : b.Contains y) :
    -(norm (b.effective x g) * norm (y - x)) ≤ dot g (y - x) :=
  (abs_le.1 (abs_dot_le (b.effective x g) (y - x))).1.trans (dot_effective_le hx hy)

end BoxNewton.Box
