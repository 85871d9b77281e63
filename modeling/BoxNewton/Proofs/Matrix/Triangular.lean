/-
Triangular systems. Over the reals, where no entry of the diagonal is zero, both substitutions solve their
systems (`sum_solveLower`, `sum_solveTransposed`), so each is the adjoint of the other, and they are the products
with the inverses of the triangle and of its transpose. In exact arithmetic they do the same on real data, as
nothing is divided by but the diagonal.
-/
import BoxNewton.Matrix
import BoxNewton.Proofs.Problem.Quadratic
import Mathlib.LinearAlgebra.Matrix.Block

namespace BoxNewton

variable {n : ℕ}

theorem get_push_castSucc {α : Type} {k : ℕ} (y : Vector α k) (a : α) (j : Fin k) :
    (y.push a).get j.castSucc = y.get j :=
  Vector.getElem_push_lt j.isLt

theorem get_push_last {α : Type} {k : ℕ} (y : Vector α k) (a : α) : (y.push a).get (Fin.last k) = a :=
  Vector.getElem_push_eq

theorem get_reverse {α : Type} (x : Vector α n) (i : Fin n) : x.reverse.get i = x.get i.rev := by
  simp only [get_eq_getElem, Vector.getElem_reverse, Fin.val_rev]
  congr 1
  omega

namespace SquareMatrix

variable {L : SquareMatrix ℝ n}

/-- The lower triangle of the matrix is nonsingular. -/
def Nonsingular (L : SquareMatrix ℝ n) : Prop := ∀ i, L.entry i i ≠ 0

theorem Nonsingular.antitranspose (hL : L.Nonsingular) : L.antitranspose.Nonsingular := fun i => by
  rw [SquareMatrix.antitranspose, entry_ofEntries]
  exact hL i.rev

/-! ## The systems are solved -/

/-- Each entry solves its own equation, and the entries after it do not occur there. -/
theorem sum_leadingSolution (hL : L.Nonsingular) (b : Vector ℝ n) {k : ℕ} (h : k ≤ n) (i : Fin k) :
    ∑ j, (if j ≤ i then L.entry (i.castLE h) (j.castLE h) * (L.leadingSolution b k h).get j else 0) =
      b.get (i.castLE h) := by
  induction k with
  | zero => exact i.elim0
  | succ k ih =>
    have hk : k ≤ n := Nat.le_of_succ_le h
    rw [Fin.sum_univ_castSucc]
    simp only [leadingSolution, get_push_castSucc, get_push_last]
    cases i using Fin.lastCases with
    | last =>
      have hd : L.entry ⟨k, h⟩ ⟨k, h⟩ ≠ 0 := hL _
      rw [if_pos le_rfl, dot_eq_sum]
      simp only [Fin.le_last, if_true, get_ofFn]
      rw [show (Fin.last k).castLE h = ⟨k, h⟩ from rfl, mul_div_cancel₀ _ hd]
      exact add_sub_cancel _ _
    | cast i =>
      rw [if_neg (not_le.2 (Fin.castSucc_lt_last i)), add_zero]
      simp only [Fin.castSucc_le_castSucc_iff]
      exact ih hk i

theorem sum_solveLower (hL : L.Nonsingular) (b : Vector ℝ n) (i : Fin n) :
    ∑ j, (if j ≤ i then L.entry i j * (L.solveLower b).get j else 0) = b.get i :=
  sum_leadingSolution hL b le_rfl i

theorem sum_solveTransposed (hL : L.Nonsingular) (b : Vector ℝ n) (j : Fin n) :
    ∑ i, (if j ≤ i then L.entry i j * (L.solveTransposed b).get i else 0) = b.get j := by
  have h := sum_solveLower hL.antitranspose b.reverse j.rev
  rw [get_reverse, Fin.rev_rev] at h
  rw [← h, ← Equiv.sum_comp Fin.revPerm]
  refine Finset.sum_congr rfl fun i _ => ?_
  simp only [Fin.revPerm_apply, solveTransposed, get_reverse, SquareMatrix.antitranspose, entry_ofEntries, Fin.rev_rev,
    Fin.le_rev_iff (i := j)]

/-! ## Adjointness -/

/-- The product of the transposed lower triangle with a vector. -/
noncomputable def applyTransposed (L : SquareMatrix ℝ n) (y : Vector ℝ n) : Vector ℝ n :=
  .ofFn fun j => ∑ i, if j ≤ i then L.entry i j * y.get i else 0

theorem applyTransposed_solveTransposed (hL : L.Nonsingular) (b : Vector ℝ n) :
    L.applyTransposed (L.solveTransposed b) = b :=
  ext_get fun j => by rw [applyTransposed, get_ofFn, sum_solveTransposed hL]

theorem dot_applyTransposed_solveLower (hL : L.Nonsingular) (y v : Vector ℝ n) :
    dot (L.applyTransposed y) (L.solveLower v) = dot y v := by
  calc dot (L.applyTransposed y) (L.solveLower v)
      = ∑ j, (∑ i, if j ≤ i then L.entry i j * y.get i else 0) * (L.solveLower v).get j := by
        rw [dot_eq_sum]
        simp only [applyTransposed, get_ofFn]
    _ = ∑ i, y.get i * ∑ j, if j ≤ i then L.entry i j * (L.solveLower v).get j else 0 := by
        simp only [Finset.sum_mul, Finset.mul_sum]
        rw [Finset.sum_comm]
        refine Finset.sum_congr rfl fun i _ => Finset.sum_congr rfl fun j _ => ?_
        split <;> ring
    _ = dot y v := by
        rw [dot_eq_sum]
        simp only [sum_solveLower hL]

theorem dot_solveLower (hL : L.Nonsingular) (u v : Vector ℝ n) :
    dot u (L.solveLower v) = dot (L.solveTransposed u) v := by
  rw [← dot_applyTransposed_solveLower hL (L.solveTransposed u), applyTransposed_solveTransposed hL]

theorem solveTransposed_applyTransposed (hL : L.Nonsingular) (y : Vector ℝ n) :
    L.solveTransposed (L.applyTransposed y) = y :=
  eq_of_dot_eq fun v => by
    rw [dot_comm v, ← dot_solveLower hL, dot_applyTransposed_solveLower hL, dot_comm]

theorem solveLower_ne_zero (hL : L.Nonsingular) {v : Vector ℝ n} (hv : v ≠ 0) : L.solveLower v ≠ 0 := fun h => by
  refine hv (ext_get fun i => ?_)
  rw [← sum_solveLower hL v i, h, get_zero]
  simp

/-! ## Inverses -/

/-- The lower triangle of the matrix, with zeros above it. -/
def lowerTriangle (L : SquareMatrix ℝ n) : Matrix (Fin n) (Fin n) ℝ := .of fun i j => if j ≤ i then L.entry i j else 0

/-- The product with a matrix. -/
noncomputable def product (T : Matrix (Fin n) (Fin n) ℝ) : Operator ℝ n := fun v => .ofFn (T.mulVec v.get)

theorem Nonsingular.isUnit_det (hL : L.Nonsingular) : IsUnit L.lowerTriangle.det := by
  have hlower : L.lowerTriangle.IsLowerTriangular := fun i j hij => if_neg (not_le.2 hij)
  rw [Matrix.det_of_isLowerTriangular _ hlower, isUnit_iff_ne_zero]
  exact Finset.prod_ne_zero_iff.2 fun i _ => by
    rw [lowerTriangle, Matrix.of_apply, if_pos le_rfl]
    exact hL i

theorem eq_product_inv {T : Matrix (Fin n) (Fin n) ℝ} (hT : IsUnit T.det) {y b : Vector ℝ n}
    (h : ∀ i, T.mulVec y.get i = b.get i) : y = product T⁻¹ b := by
  refine ext_get fun i => ?_
  rw [product, get_ofFn, ← show T.mulVec y.get = b.get from funext h, Matrix.mulVec_mulVec,
    Matrix.nonsing_inv_mul T hT, Matrix.one_mulVec]

/-- Forward substitution is the product with the inverse of the triangle. -/
theorem solveLower_eq (hL : L.Nonsingular) (b : Vector ℝ n) : L.solveLower b = product L.lowerTriangle⁻¹ b :=
  eq_product_inv hL.isUnit_det fun i => by
    simp only [← sum_solveLower hL b i, Matrix.mulVec, dotProduct, lowerTriangle, Matrix.of_apply, ite_mul, zero_mul]

/-- Substitution in the transpose is the product with its inverse. -/
theorem solveTransposed_eq (hL : L.Nonsingular) (b : Vector ℝ n) :
    L.solveTransposed b = product L.lowerTriangle.transpose⁻¹ b :=
  eq_product_inv (L.lowerTriangle.det_transpose.symm ▸ hL.isUnit_det) fun j => by
    simp only [← sum_solveTransposed hL b j, Matrix.mulVec, dotProduct, lowerTriangle, Matrix.transpose_apply,
      Matrix.of_apply, ite_mul, zero_mul]

/-! ## Exact arithmetic -/

theorem entry_matrix (L : SquareMatrix ℝ n) (i j : Fin n) : (Exact.matrix L).entry i j = (L.entry i j : Exact) := by
  rw [entry, Exact.matrix, get_map, Exact.get_coe]; rfl

theorem coe_reverse (x : Vector ℝ n) : ((x.reverse : Vector ℝ n) : Vector Exact n) = (x : Vector Exact n).reverse :=
  ext_get fun i => by rw [get_reverse, Exact.get_coe, Exact.get_coe, get_reverse]

theorem leadingSolution_matrix (hL : L.Nonsingular) (b : Vector ℝ n) {k : ℕ} (h : k ≤ n) :
    leadingSolution (Exact.matrix L) (b : Vector Exact n) k h = (L.leadingSolution b k h : Vector Exact k) := by
  induction k with
  | zero => exact ext_get fun i => i.elim0
  | succ k ih =>
    have hrow : (Vector.ofFn fun j : Fin k => (Exact.matrix L).entry ⟨k, h⟩ (j.castLE (Nat.le_of_succ_le h))) =
        ((Vector.ofFn fun j : Fin k => L.entry ⟨k, h⟩ (j.castLE (Nat.le_of_succ_le h)) : Vector ℝ k) :
          Vector Exact k) :=
      ext_get fun j => by rw [get_ofFn, Exact.get_coe, get_ofFn, entry_matrix]
    simp only [leadingSolution]
    rw [ih, hrow, entry_matrix, Exact.get_coe, ← Exact.coe_dot, ← Exact.coe_sub, ← Exact.coe_div _ (hL _)]
    exact Vector.map_push.symm

theorem extends_solveLower (hL : L.Nonsingular) : Extends (Exact.matrix L).solveLower L.solveLower := fun b =>
  leadingSolution_matrix hL b le_rfl

theorem extends_solveTransposed (hL : L.Nonsingular) :
    Extends (Exact.matrix L).solveTransposed L.solveTransposed := fun b => by
  have hA : (Exact.matrix L).antitranspose = Exact.matrix L.antitranspose :=
    ext_get fun i => ext_get fun j => by
      show entry _ i j = entry _ i j
      rw [entry_matrix, SquareMatrix.antitranspose, SquareMatrix.antitranspose, entry_ofEntries, entry_ofEntries,
        entry_matrix]
  unfold solveTransposed
  rw [hA, ← coe_reverse, extends_solveLower hL.antitranspose, ← coe_reverse]

end SquareMatrix

end BoxNewton
