/-
What the summary of a run on a convex quadratic program certifies, wherever the run is stopped. The
gradient that a state holds belongs to its point, the program lies above its tangent there, and within
the box the tangent falls no more steeply than the stationarity measure says. So the measure bounds how
far the value is from the least one.
-/
import BoxNewton.Proofs.Box.Stationarity
import BoxNewton.Proofs.Minimizer.Quadratic

namespace BoxNewton

variable {n : ℕ}

/-- Within the box a function above its tangent falls no more steeply than its stationarity measure. -/
theorem Box.sub_effective_le {b : Box Exact n} {x z g : Vector ℝ n} {f f' : ℝ} (hx : b.Contains x)
    (hz : b.Contains z) (htangent : f + dot g (z - x) ≤ f') :
    f - norm (b.effective x g) * norm (z - x) ≤ f' := by
  have hle := neg_norm_effective_le (g := g) hx hz
  linarith

namespace QuadraticProgram

open Minimizer

/-- Wherever a run on a program without negative curvature is stopped, the summary gives a point of the
box with its value, and nowhere in the box is the value less than that by more than the stationarity
measure times the distance. Where the measure is zero, the point is a minimizer. -/
theorem run_certified {Q : SquareMatrix ℝ n} (hQ : ∀ i j, Q.entry i j = Q.entry j i)
    (hpos : ∀ v, 0 ≤ dot v (Q.apply v)) (c : Vector ℝ n) {b : Box Exact n}
    (hbox : ∃ p : Vector ℝ n, b.Contains p) (o : Options Exact) (y : Vector ℝ n) (k : ℕ) :
    let q := ofReal Q c b
    let r := (q.minimizer o).summarize ((q.minimizer o).stateAt y k) ()
    b.Contains r.point ∧ r.state.value = q.value r.point ∧
    (∀ z : Vector ℝ n, b.Contains z →
      r.state.value - r.stationarity * norm ((z : Vector Exact n) - r.point) ≤ q.value z) ∧
    (r.stationarity = 0 → ∀ z : Vector ℝ n, b.Contains z → q.value r.point ≤ q.value z) := by
  intro q r
  obtain ⟨x, h⟩ := (poses_model Q c b o).exists_standsAt hbox y k
  have hin : b.Contains x := h.project_eq ▸ h.contains
  have hpoint : r.point = x := h.project_eq
  have hvalue : r.state.value = ((model Q c).value x : ℝ) := h.value_eq
  have hmeasure : r.stationarity = (norm (b.effective x ((model Q c).around x).gradient) : ℝ) := by
    rw [← Box.stationarity_eq, ← h.project_eq, ← h.extends_around.model.gradient]; rfl
  have hbound : ∀ z : Vector ℝ n, b.Contains z →
      (model Q c).value x - norm (b.effective x ((model Q c).around x).gradient) * norm (z - x)
        ≤ (model Q c).value z := by
    intro z hz
    refine Box.sub_effective_le hin hz ?_
    exact Model.tangent_le (SquareMatrix.isSymmetric_linear hQ) (fun _ => rfl) hpos x z
  rw [hpoint, hvalue, hmeasure, value_ofReal]
  refine ⟨hin, rfl, fun z hz => ?_, fun h0 z hz => ?_⟩
  · rw [value_ofReal, ← Exact.coe_sub_vector, ← Exact.coe_norm, ← Exact.coe_mul, ← Exact.coe_sub, Exact.coe_le]
    exact hbound z hz
  · have hle := hbound z hz
    rw [Exact.coe_inj.1 h0, zero_mul, sub_zero] at hle
    rw [value_ofReal, Exact.coe_le]
    exact hle

/-- A program with a flat direction between bounds, from a point outside them. -/
theorem run_certified_flat :
    let b : Box Exact 2 := ⟨(Vector.replicate 2 (-1) : Vector ℝ 2), (Vector.replicate 2 1 : Vector ℝ 2)⟩
    let q := ofReal #v[#v[1, 1], #v[1, 1]] #v[-4, 1] b
    let r := (q.minimizer .default).summarize ((q.minimizer .default).stateAt (#v[3, 0] : Vector ℝ 2) 1) ()
    b.Contains r.point ∧ r.state.value = q.value r.point ∧
    (∀ z : Vector ℝ 2, b.Contains z →
      r.state.value - r.stationarity * norm ((z : Vector Exact 2) - r.point) ≤ q.value z) ∧
    (r.stationarity = 0 → ∀ z : Vector ℝ 2, b.Contains z → q.value r.point ≤ q.value z) := by
  refine run_certified ?_ (fun v => ?_) #v[-4, 1] ⟨0, Box.contains_coe_iff.2 fun i => ?_⟩ .default #v[3, 0] 1
  · exact Fin.forall_fin_two.2 ⟨Fin.forall_fin_two.2 ⟨rfl, rfl⟩, Fin.forall_fin_two.2 ⟨rfl, rfl⟩⟩
  · have hsquare : dot v (SquareMatrix.apply #v[#v[1, 1], #v[1, 1]] v) = (v.get 0 + v.get 1) ^ 2 := by
      refine (SquareMatrix.dot_linear_two _ v).trans ?_
      show (1 : ℝ) * v.get 0 ^ 2 + (1 + 1) * (v.get 0 * v.get 1) + 1 * v.get 1 ^ 2 = _
      ring
    rw [hsquare]
    exact sq_nonneg _
  · rw [get_replicate, get_replicate, get_zero]
    norm_num

end QuadraticProgram

end BoxNewton
