/-
Boxed models of real data: the base point lies in the box and the model extends a real one, so the
trials of every search are those of the real model, at steps that keep to the box.
-/
import BoxNewton.Proofs.Box.Path
import BoxNewton.Subproblem.Basic

namespace BoxNewton

variable {n : ℕ}

/-- The model is given by real data around a point of the box. -/
structure BoxedModel.Extends (q : BoxedModel Exact n) (M : Model ℝ n) : Prop where
  model : q.model.Extends M
  base : q.box.Contains q.base

variable {q : BoxedModel Exact n} {M : Model ℝ n}

theorem BoxedModel.Extends.trial (h : q.Extends M) (w : Vector ℝ n) (t : ℝ) :
    q.trial w t = ⟨q.box.shift q.base w t, M.value (q.box.shift q.base w t), M.slope (q.box.shift q.base w t)⟩ := by
  simp only [BoxedModel.trial, Box.displacement_eq h.base, h.model.value, h.model.slope]

namespace SearchRule

variable {r : SearchRule Exact} {s : Vector Exact n} {μ value slope : ℝ}

theorem accepts_iff (h : r.decrease = μ) : r.Accepts ⟨s, value, slope⟩ ↔ value ≤ μ * slope := by
  unfold Accepts
  rw [h, ← Exact.coe_mul, Exact.coe_le]

theorem acceptsStrictly_iff (h : r.decrease = μ) : r.AcceptsStrictly ⟨s, value, slope⟩ ↔ value < μ * slope := by
  unfold AcceptsStrictly
  rw [h, ← Exact.coe_mul, Exact.coe_lt]

theorem refuses_iff (h : r.decrease = μ) : r.Refuses ⟨s, value, slope⟩ ↔ μ * slope ≤ value := by
  unfold Refuses
  rw [h, ← Exact.coe_mul, Exact.coe_le]

end SearchRule

end BoxNewton
