/-
Real vectors among the vectors of exact numbers: they are the vectors with finite entries
(`allFinite_iff`), and sums, multiples, inner products, norms and selections of them are real again.
An exact operator or model *extends* a real one when it does the same on real vectors, so
whatever is computed from real data alone can be computed over the reals.
-/
import BoxNewton.Model
import BoxNewton.Proofs.Real.Vector

namespace BoxNewton

variable {n : ℕ}

/-- A real vector as a vector of exact numbers. -/
@[coe] def Exact.vector (x : Vector ℝ n) : Vector Exact n := x.map Exact.real

namespace Exact

instance : Coe (Vector ℝ n) (Vector Exact n) := ⟨vector⟩

/-! ## Operations on real vectors -/

@[simp, norm_cast] theorem get_coe (x : Vector ℝ n) (i : Fin n) :
    (x : Vector Exact n).get i = (x.get i : Exact) := get_map real x i

theorem vector_injective : Function.Injective (vector : Vector ℝ n → Vector Exact n) := fun x y h =>
  ext_get fun i => by
    have hi : (x : Vector Exact n).get i = (y : Vector Exact n).get i := congrArg (·.get i) h
    rwa [get_coe, get_coe, coe_inj] at hi

@[norm_cast] theorem coe_zero_vector : ((0 : Vector ℝ n) : Vector Exact n) = 0 :=
  ext_get fun i => by simp

@[norm_cast] theorem coe_add_vector (x y : Vector ℝ n) :
    ((x + y : Vector ℝ n) : Vector Exact n) = (x : Vector Exact n) + y :=
  ext_get fun i => by simp

@[norm_cast] theorem coe_sub_vector (x y : Vector ℝ n) :
    ((x - y : Vector ℝ n) : Vector Exact n) = (x : Vector Exact n) - y :=
  ext_get fun i => by simp

@[norm_cast] theorem coe_neg_vector (x : Vector ℝ n) :
    ((-x : Vector ℝ n) : Vector Exact n) = -(x : Vector Exact n) :=
  ext_get fun i => by simp

@[norm_cast] theorem coe_hmul_vector (t : ℝ) (x : Vector ℝ n) :
    ((t * x : Vector ℝ n) : Vector Exact n) = (t : Exact) * (x : Vector Exact n) :=
  ext_get fun i => by simp

@[norm_cast] theorem coe_dot (x y : Vector ℝ n) :
    ((dot x y : ℝ) : Exact) = dot (x : Vector Exact n) (y : Vector Exact n) := by
  have h : (x : Vector Exact n).zipWith (· * ·) (y : Vector Exact n)
      = (x.zipWith (· * ·) y).map real := by
    rw [vector, vector, Vector.zipWith_map, Vector.map_zipWith]; rfl
  unfold dot
  rw [h]
  exact (Vector.foldl_map_hom fun _ _ => rfl).symm

@[norm_cast] theorem coe_norm (x : Vector ℝ n) :
    ((norm x : ℝ) : Exact) = norm (x : Vector Exact n) := by
  unfold norm
  rw [← coe_dot]
  exact coe_sqrt (dot_self_nonneg x)

@[norm_cast] theorem coe_select (m : Mask n) (x y : Vector ℝ n) :
    ((m.select x y : Vector ℝ n) : Vector Exact n) = m.select (x : Vector Exact n) y :=
  ext_get fun i => by simp only [get_coe, Mask.get_select]; split <;> rfl

@[norm_cast] theorem coe_restrict (m : Mask n) (x : Vector ℝ n) :
    ((m.restrict x : Vector ℝ n) : Vector Exact n) = m.restrict (x : Vector Exact n) :=
  ext_get fun i => by simp only [get_coe, Mask.get_restrict]; split <;> rfl

/-- The finite vectors are the real ones. -/
theorem allFinite_iff {x : Vector Exact n} : allFinite x = true ↔ ∃ u : Vector ℝ n, x = u := by
  simp only [allFinite, Vector.all_eq_true, decide_eq_true_eq]
  constructor
  · intro h
    have h' : ∀ i : Fin n, ∃ r : ℝ, x.get i = r := fun i => isFinite_iff.1 (h i i.isLt)
    choose u hu using h'
    exact ⟨.ofFn u, ext_get fun i => by rw [get_coe, get_ofFn, hu]⟩
  · rintro ⟨u, rfl⟩ i hi
    have := get_coe u ⟨i, hi⟩
    rw [get_eq_getElem] at this
    rw [this]; exact isFinite_coe _

end Exact

/-! ## Operators and models -/

/-- The exact operator does on real vectors what the real one does. -/
def Extends (A : Operator Exact n) (B : Operator ℝ n) : Prop :=
  ∀ v : Vector ℝ n, A v = (B v : Vector Exact n)

/-- An operator that keeps vectors finite extends a real one. -/
theorem exists_extends {A : Operator Exact n}
    (h : ∀ v, allFinite v = true → allFinite (A v) = true) : ∃ B, Extends A B := by
  have h' : ∀ v : Vector ℝ n, ∃ u : Vector ℝ n, A v = u :=
    fun v => Exact.allFinite_iff.1 (h v (Exact.allFinite_iff.2 ⟨v, rfl⟩))
  choose B hB using h'
  exact ⟨B, hB⟩

theorem Extends.confine {A : Operator Exact n} {B : Operator ℝ n} (h : Extends A B) (m : Mask n) :
    Extends (m.confine A) (m.confine B) := by
  intro v
  unfold Mask.confine
  rw [← Exact.coe_restrict, h, Exact.coe_restrict]

namespace Model

/-- The gradient of the exact model is that of the real one, and so are the products with real
vectors. -/
structure Extends (m : Model Exact n) (M : Model ℝ n) : Prop where
  gradient : m.gradient = M.gradient
  hessian : BoxNewton.Extends m.hessian M.hessian

variable {m : Model Exact n} {M : Model ℝ n}

theorem Extends.slope (h : m.Extends M) (s : Vector ℝ n) : m.slope s = (M.slope s : Exact) := by
  unfold Model.slope
  rw [h.gradient, Exact.coe_dot]

theorem Extends.value (h : m.Extends M) (s : Vector ℝ n) : m.value s = (M.value s : Exact) := by
  have hs := h.slope s
  unfold Model.value
  rw [h.hessian, hs, ← Exact.coe_dot]; rfl

end Model

end BoxNewton
