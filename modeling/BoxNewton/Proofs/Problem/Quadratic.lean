/-
Quadratic programs with real data over a box of exact numbers. Their values are those of the real model
`½ x · Q x + c · x`, and the program's own derivatives at a point are those of the model around it.
-/
import BoxNewton.Problem.Quadratic
import BoxNewton.Proofs.Exact.Vector
import BoxNewton.Proofs.Real.Model

namespace BoxNewton

variable {n : ℕ}

/-! ## Real matrices -/

namespace SquareMatrix

/-- The product with a real matrix as a linear map. -/
noncomputable def linear (Q : SquareMatrix ℝ n) : Vector ℝ n →ₗ[ℝ] Vector ℝ n where
  toFun := Q.apply
  map_add' x y := ext_get fun i => by simp only [get_apply, get_add, dot_add_right]
  map_smul' t x := ext_get fun i => by simp only [get_apply, get_smul, dot_smul_right, RingHom.id_apply]

theorem isSymmetric_linear {Q : SquareMatrix ℝ n} (hQ : ∀ i j, Q.entry i j = Q.entry j i) :
    IsSymmetric Q.linear := by
  have hdot : ∀ x y : Vector ℝ n, dot x (Q.apply y) = ∑ i, ∑ j, x.get i * (Q.entry i j * y.get j) := by
    intro x y
    rw [dot_eq_sum]
    refine Finset.sum_congr rfl fun i _ => ?_
    rw [get_apply, dot_eq_sum, Finset.mul_sum]; rfl
  intro x y
  show dot x (Q.apply y) = dot (Q.apply x) y
  rw [dot_comm _ y, hdot, hdot, Finset.sum_comm]
  refine Finset.sum_congr rfl fun j _ => Finset.sum_congr rfl fun i _ => ?_
  rw [hQ]; ring

theorem get_linear_two (Q : SquareMatrix ℝ 2) (v : Vector ℝ 2) (i : Fin 2) :
    (Q.linear v).get i = Q.entry i 0 * v.get 0 + Q.entry i 1 * v.get 1 :=
  (get_apply Q v i).trans ((dot_eq_sum _ _).trans (Fin.sum_univ_two _))

/-- The quadratic form of a matrix with two rows. -/
theorem dot_linear_two (Q : SquareMatrix ℝ 2) (v : Vector ℝ 2) : dot v (Q.linear v) =
    Q.entry 0 0 * v.get 0 ^ 2 + (Q.entry 0 1 + Q.entry 1 0) * (v.get 0 * v.get 1) + Q.entry 1 1 * v.get 1 ^ 2 := by
  rw [dot_eq_sum, Fin.sum_univ_two, get_linear_two, get_linear_two]
  ring

end SquareMatrix

/-- A real matrix as a matrix of exact numbers. -/
def Exact.matrix (Q : SquareMatrix ℝ n) : SquareMatrix Exact n := Q.map Exact.vector

theorem extends_matrix (Q : SquareMatrix ℝ n) : Extends (Exact.matrix Q).apply Q.linear := by
  intro v
  refine ext_get fun i => ?_
  rw [SquareMatrix.get_apply, Exact.get_coe, Exact.matrix, get_map, ← Exact.coe_dot]
  exact congrArg Exact.real (SquareMatrix.get_apply Q v i).symm

/-! ## Real programs -/

namespace QuadraticProgram

/-- The program of a real matrix and a real linear term over a box. -/
def ofReal (Q : SquareMatrix ℝ n) (c : Vector ℝ n) (b : Box Exact n) : QuadraticProgram Exact n :=
  ⟨Exact.matrix Q, c, b⟩

/-- The program as a model around the origin. -/
noncomputable def model (Q : SquareMatrix ℝ n) (c : Vector ℝ n) : Model ℝ n := ⟨c, Q.linear⟩

variable (Q : SquareMatrix ℝ n) (c : Vector ℝ n) (b : Box Exact n) (x : Vector ℝ n)

theorem extends_model : Model.Extends ⟨c, (Exact.matrix Q).apply⟩ (model Q c) := ⟨rfl, extends_matrix Q⟩

theorem value_ofReal : (ofReal Q c b).value x = ((model Q c).value x : ℝ) := (extends_model Q c).value x

theorem gradient_ofReal :
    (ofReal Q c b).derivatives.gradient x = (((model Q c).around x).gradient : Vector Exact n) := by
  show (Exact.matrix Q).apply x + (c : Vector Exact n) = ((c + Q.linear x : Vector ℝ n) : Vector Exact n)
  rw [extends_matrix, ← Exact.coe_add_vector, add_comm]

end QuadraticProgram

end BoxNewton
