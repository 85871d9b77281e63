/-
Real vectors as a vector space with an inner product: `dot` is bilinear, symmetric and positive
definite, and the linear maps of the space stand for the Hessians of the theory.
-/
import BoxNewton.Vector
import BoxNewton.Proofs.Exact.Basic
import Mathlib.Algebra.BigOperators.Fin
import Mathlib.Algebra.Module.LinearMap.Defs
import Mathlib.Algebra.Order.BigOperators.Ring.Finset

namespace BoxNewton

variable {n : ℕ}

/-! ## The vector space -/

theorem get_smul (t : ℝ) (x : Vector ℝ n) (i : Fin n) : (t • x).get i = t * x.get i := by
  simp [get_eq_getElem]

theorem get_injective : Function.Injective (Vector.get : Vector ℝ n → Fin n → ℝ) :=
  fun _ _ h => ext_get (congrFun h)

instance instAddCommGroupVector : AddCommGroup (Vector ℝ n) :=
  get_injective.addCommGroup Vector.get (funext get_zero) (fun x y => funext (get_add x y))
    (fun x => funext (get_neg x)) (fun x y => funext (get_sub x y))
    (fun k x => funext fun i => by simp [get_eq_getElem])
    (fun k x => funext fun i => by simp [get_eq_getElem])

instance instModuleVector : Module ℝ (Vector ℝ n) :=
  get_injective.module ℝ ⟨⟨Vector.get, funext get_zero⟩, fun x y => funext (get_add x y)⟩
    fun t x => funext (get_smul t x)

theorem hmul_eq_smul (t : ℝ) (x : Vector ℝ n) : t * x = t • x := rfl

/-! ## The inner product -/

theorem dot_eq_sum (x y : Vector ℝ n) : dot x y = ∑ i, x.get i * y.get i := by
  have h : x.zipWith (· * ·) y = .ofFn fun i => x.get i * y.get i := ext_get fun i => by
    simp [get_eq_getElem]
  unfold dot
  rw [h, ← Vector.foldl_toList, Vector.toList_ofFn, ← List.sum_ofFn, List.sum_eq_foldl]

theorem dot_comm (x y : Vector ℝ n) : dot x y = dot y x := by
  simp only [dot_eq_sum, mul_comm]

theorem dot_add_left (x y z : Vector ℝ n) : dot (x + y) z = dot x z + dot y z := by
  simp only [dot_eq_sum, get_add, add_mul, Finset.sum_add_distrib]

theorem dot_smul_left (t : ℝ) (x y : Vector ℝ n) : dot (t • x) y = t * dot x y := by
  simp only [dot_eq_sum, get_smul, mul_assoc, Finset.mul_sum]

theorem dot_neg_left (x y : Vector ℝ n) : dot (-x) y = -dot x y := by
  simp only [dot_eq_sum, get_neg, neg_mul, Finset.sum_neg_distrib]

theorem dot_sub_left (x y z : Vector ℝ n) : dot (x - y) z = dot x z - dot y z := by
  rw [sub_eq_add_neg, dot_add_left, dot_neg_left, ← sub_eq_add_neg]

theorem dot_zero_left (x : Vector ℝ n) : dot 0 x = 0 := by
  simp [dot_eq_sum]

theorem dot_add_right (x y z : Vector ℝ n) : dot x (y + z) = dot x y + dot x z := by
  rw [dot_comm, dot_add_left, dot_comm y, dot_comm z]

theorem dot_smul_right (t : ℝ) (x y : Vector ℝ n) : dot x (t • y) = t * dot x y := by
  rw [dot_comm, dot_smul_left, dot_comm]

theorem dot_neg_right (x y : Vector ℝ n) : dot x (-y) = -dot x y := by
  rw [dot_comm, dot_neg_left, dot_comm]

theorem dot_sub_right (x y z : Vector ℝ n) : dot x (y - z) = dot x y - dot x z := by
  rw [dot_comm, dot_sub_left, dot_comm y, dot_comm z]

theorem dot_zero_right (x : Vector ℝ n) : dot x 0 = 0 := by
  rw [dot_comm, dot_zero_left]

theorem dot_self_nonneg (x : Vector ℝ n) : 0 ≤ dot x x := by
  rw [dot_eq_sum]; exact Finset.sum_nonneg fun i _ => mul_self_nonneg _

theorem dot_self_eq_zero {x : Vector ℝ n} : dot x x = 0 ↔ x = 0 := by
  constructor
  · intro h
    rw [dot_eq_sum, Finset.sum_eq_zero_iff_of_nonneg fun i _ => mul_self_nonneg _] at h
    exact ext_get fun i => by simpa using h i (Finset.mem_univ i)
  · rintro rfl; exact dot_zero_left 0

theorem eq_of_dot_eq {x y : Vector ℝ n} (h : ∀ u, dot u x = dot u y) : x = y := by
  rw [← sub_eq_zero, ← dot_self_eq_zero, dot_sub_right, h, sub_self]

theorem dot_add_smul_self (x d : Vector ℝ n) (τ : ℝ) :
    dot (x + τ • d) (x + τ • d) = dot x x + τ * (τ * dot d d + 2 * dot d x) := by
  simp only [dot_add_left, dot_add_right, dot_smul_left, dot_smul_right, dot_comm x d]
  ring

theorem dot_self_pos {x : Vector ℝ n} (h : x ≠ 0) : 0 < dot x x :=
  lt_of_le_of_ne (dot_self_nonneg x) fun h0 => h (dot_self_eq_zero.1 h0.symm)

theorem norm_pos_of_ne_zero {x : Vector ℝ n} (h : x ≠ 0) : 0 < norm x := Real.sqrt_pos.2 (dot_self_pos h)

/-! ## The norm -/

theorem norm_nonneg (x : Vector ℝ n) : 0 ≤ norm x := Real.sqrt_nonneg _

theorem norm_sq (x : Vector ℝ n) : norm x ^ 2 = dot x x := Real.sq_sqrt (dot_self_nonneg x)

theorem norm_lt_norm_iff {x y : Vector ℝ n} : norm x < norm y ↔ dot x x < dot y y := by
  rw [← norm_sq, ← norm_sq]
  exact (pow_lt_pow_iff_left₀ (norm_nonneg x) (norm_nonneg y) two_ne_zero).symm

theorem norm_zero : norm (0 : Vector ℝ n) = 0 := by
  rw [norm, dot_zero_left, sqrt_real, Real.sqrt_zero]

theorem eq_zero_of_norm_le {x : Vector ℝ n} (h : norm x ≤ 0) : x = 0 :=
  by_contra fun hne => (norm_pos_of_ne_zero hne).not_ge h

theorem norm_neg (x : Vector ℝ n) : norm (-x) = norm x := by
  rw [norm, norm, dot_neg_left, dot_neg_right, neg_neg]

theorem norm_smul (t : ℝ) (x : Vector ℝ n) : norm (t • x) = |t| * norm x := by
  rw [norm, norm, dot_smul_left, dot_smul_right, ← mul_assoc, sqrt_real, sqrt_real,
    Real.sqrt_mul (mul_self_nonneg t), Real.sqrt_mul_self_eq_abs]

theorem norm_le_of_dot_le {x : Vector ℝ n} {a : ℝ} (ha : 0 ≤ a) (h : dot x x ≤ a ^ 2) : norm x ≤ a := by
  rw [← norm_sq] at h
  exact le_of_sq_le_sq h ha

theorem norm_le_norm_of_abs_le {x y : Vector ℝ n} (h : ∀ i, |x.get i| ≤ |y.get i|) : norm x ≤ norm y := by
  refine norm_le_of_dot_le (norm_nonneg y) ?_
  rw [norm_sq, dot_eq_sum, dot_eq_sum]
  exact Finset.sum_le_sum fun i _ => abs_le_iff_mul_self_le.1 (h i)

theorem abs_get_le_norm (x : Vector ℝ n) (i : Fin n) : |x.get i| ≤ norm x := by
  refine abs_le_of_sq_le_sq ?_ (norm_nonneg x)
  rw [norm_sq, dot_eq_sum, sq]
  exact Finset.single_le_sum (f := fun j => x.get j * x.get j) (fun j _ => mul_self_nonneg _) (Finset.mem_univ i)

/-- The inequality of Cauchy and Schwarz. -/
theorem abs_dot_le (x y : Vector ℝ n) : |dot x y| ≤ norm x * norm y := by
  refine abs_le_of_sq_le_sq ?_ (mul_nonneg (norm_nonneg x) (norm_nonneg y))
  have h := Finset.sum_mul_sq_le_sq_mul_sq Finset.univ x.get y.get
  rw [mul_pow, norm_sq, norm_sq, dot_eq_sum, dot_eq_sum, dot_eq_sum]
  simpa only [sq] using h

theorem norm_add_le (x y : Vector ℝ n) : norm (x + y) ≤ norm x + norm y := by
  refine norm_le_of_dot_le (add_nonneg (norm_nonneg x) (norm_nonneg y)) ?_
  have h := (abs_le.1 (abs_dot_le x y)).2
  have hx := norm_sq x
  have hy := norm_sq y
  simp only [dot_add_left, dot_add_right, dot_comm y x]
  nlinarith

/-- A vector that is off by at most half of the norm of `e` is at least half as long as `e`. -/
theorem norm_le_of_near {e h : Vector ℝ n} (hnear : 2 * norm (h - e) ≤ norm e) : norm e ≤ 2 * norm h := by
  have htriangle := norm_add_le h (-(h - e))
  rw [norm_neg, neg_sub, add_sub_cancel] at htriangle
  linarith

/-- Such a vector points to the same side as `e`. -/
theorem mul_norm_le_dot_of_near {e h : Vector ℝ n} (hnear : 2 * norm (h - e) ≤ norm e) :
    norm e * norm h ≤ 3 * dot e h := by
  have htriangle := norm_add_le e (h - e)
  have hcauchy := (abs_le.1 (abs_dot_le e (h - e))).1
  rw [add_sub_cancel] at htriangle
  rw [dot_sub_right, ← norm_sq] at hcauchy
  nlinarith [norm_nonneg e]

/-! ## Hessians -/

/-- The linear map is symmetric under the inner product. -/
def IsSymmetric (A : Vector ℝ n →ₗ[ℝ] Vector ℝ n) : Prop := ∀ x y, dot x (A y) = dot (A x) y

/-- The linear map has no direction of negative curvature. -/
def IsPositive (A : Vector ℝ n →ₗ[ℝ] Vector ℝ n) : Prop := ∀ x, 0 ≤ dot x (A x)

/-- The linear map has positive curvature in every direction. -/
def IsDefinite (A : Vector ℝ n →ₗ[ℝ] Vector ℝ n) : Prop := ∀ x, x ≠ 0 → 0 < dot x (A x)

theorem IsDefinite.injective {A : Vector ℝ n →ₗ[ℝ] Vector ℝ n} (h : IsDefinite A) {x y : Vector ℝ n} (hxy : A x = A y) :
    x = y := by
  by_contra hne
  have hpos := h (x - y) (sub_ne_zero.2 hne)
  rw [map_sub, hxy, sub_self, dot_zero_right] at hpos
  exact lt_irrefl _ hpos

/-- No direction has a curvature above `M`. -/
def IsCurvatureBound (A : Vector ℝ n →ₗ[ℝ] Vector ℝ n) (M : ℝ) : Prop := ∀ x, dot x (A x) ≤ M * norm x ^ 2

theorem IsCurvatureBound.mono {A : Vector ℝ n →ₗ[ℝ] Vector ℝ n} {M M' : ℝ} (h : IsCurvatureBound A M)
    (hle : M ≤ M') : IsCurvatureBound A M' :=
  fun x => (h x).trans (mul_le_mul_of_nonneg_right hle (sq_nonneg _))

/-- Where the curvatures lie between zero and `M`, no vector grows by more than the factor `M`. -/
theorem norm_apply_le {A : Vector ℝ n →ₗ[ℝ] Vector ℝ n} {M : ℝ} (hA : IsSymmetric A) (hpos : IsPositive A)
    (hbound : IsCurvatureBound A M) (hM : 0 < M) (v : Vector ℝ n) : norm (A v) ≤ M * norm v := by
  refine norm_le_of_dot_le (mul_nonneg hM.le (norm_nonneg v)) ?_
  -- the curvature along `v - A v / M` is not negative
  have hcurv := hpos (v - M⁻¹ • A v)
  have huv : dot v (A (A v)) = dot (A v) (A v) := hA v (A v)
  simp only [map_sub, map_smul, dot_sub_left, dot_sub_right, dot_smul_left, dot_smul_right, huv] at hcurv
  have hv := hbound v
  have hu := hbound (A v)
  rw [norm_sq (A v)] at hu
  have hinv : M⁻¹ * (M⁻¹ * dot (A v) (A (A v))) ≤ M⁻¹ * dot (A v) (A v) := by
    refine mul_le_mul_of_nonneg_left ?_ (inv_nonneg.2 hM.le)
    rw [inv_mul_le_iff₀ hM]
    exact hu
  have hsq : M⁻¹ * dot (A v) (A v) ≤ M * norm v ^ 2 := by linarith
  rw [inv_mul_le_iff₀ hM] at hsq
  calc dot (A v) (A v) ≤ M * (M * norm v ^ 2) := hsq
    _ = (M * norm v) ^ 2 := by ring

end BoxNewton
