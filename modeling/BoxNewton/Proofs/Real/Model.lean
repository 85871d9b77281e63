/-
Quadratic models over the reals, and their restrictions to the coordinates of a mask. Where the
Hessian is a symmetric linear map, a model gains along a mask what its restriction around the current
point predicts (`value_add_restrict`).
-/
import BoxNewton.Model
import BoxNewton.Proofs.Real.Vector
import Mathlib.Algebra.Module.Submodule.Basic

namespace BoxNewton

variable {n : ℕ}

/-! ## Masks -/

namespace Mask

variable (m : Mask n)

/-- The coordinates of a mask. -/
def support (m : Mask n) : Finset (Fin n) := {i | m.get i = true}

@[simp] theorem mem_support {m : Mask n} {i : Fin n} : i ∈ m.support ↔ m.get i = true := by
  simp [support]

theorem dot_restrict (x y : Vector ℝ n) : dot x (m.restrict y) = dot (m.restrict x) y := by
  rw [dot_eq_sum, dot_eq_sum]
  refine Finset.sum_congr rfl fun i _ => ?_
  rw [get_restrict, get_restrict]
  split
  · rfl
  · rw [mul_zero, zero_mul]

theorem restrict_add (x y : Vector ℝ n) : m.restrict (x + y) = m.restrict x + m.restrict y :=
  ext_get fun i => by
    simp only [get_restrict, get_add]
    split <;> simp

theorem restrict_smul (t : ℝ) (x : Vector ℝ n) : m.restrict (t • x) = t • m.restrict x :=
  ext_get fun i => by
    simp only [get_restrict, get_smul]
    split <;> simp

theorem select_add_self (x d : Vector ℝ n) : m.select (x + d) x = x + m.restrict d :=
  ext_get fun i => by
    simp only [get_select, get_restrict, get_add]
    split <;> simp

theorem restrict_zero : m.restrict (0 : Vector ℝ n) = 0 :=
  ext_get fun i => by rw [get_restrict, get_zero, ite_self]

theorem restrict_eq_restrict {m : Mask n} {x y : Vector ℝ n} (h : ∀ i, m.get i = true → x.get i = y.get i) :
    m.restrict x = m.restrict y :=
  ext_get fun i => by
    rw [get_restrict, get_restrict]
    split
    · exact h i ‹_›
    · rfl

theorem norm_restrict_le (x : Vector ℝ n) : norm (m.restrict x) ≤ norm x :=
  norm_le_norm_of_abs_le fun i => by
    rw [get_restrict]
    split
    · exact le_rfl
    · rw [abs_zero]; exact abs_nonneg _

/-- The real vectors that vanish off a mask. -/
def subspace : Submodule ℝ (Vector ℝ n) where
  carrier := {x | ∀ i, m.get i = false → x.get i = 0}
  zero_mem' := fun i _ => get_zero i
  add_mem' := fun hx hy i hi => by rw [get_add, hx i hi, hy i hi, add_zero]
  smul_mem' := fun t x hx i hi => by rw [get_smul, hx i hi, mul_zero]

theorem restrict_mem_subspace (x : Vector ℝ n) : m.restrict x ∈ m.subspace := fun i hi => by
  rw [get_restrict, hi]; rfl

/-- A linear map confined to a mask. -/
def confineLinear (A : Vector ℝ n →ₗ[ℝ] Vector ℝ n) : Vector ℝ n →ₗ[ℝ] Vector ℝ n where
  toFun := m.confine A
  map_add' x y := by simp only [confine, restrict_add, map_add]
  map_smul' t x := by simp only [confine, restrict_smul, map_smul, RingHom.id_apply]

theorem isSymmetric_confineLinear {A : Vector ℝ n →ₗ[ℝ] Vector ℝ n} (hA : IsSymmetric A) :
    IsSymmetric (m.confineLinear A) := by
  intro x y
  show dot x (m.restrict (A (m.restrict y))) = dot (m.restrict (A (m.restrict x))) y
  rw [dot_restrict, hA, dot_restrict]

end Mask

/-! ## Models -/

namespace Model

theorem value_eq (M : Model ℝ n) (s : Vector ℝ n) :
    M.value s = dot s (M.hessian s) / 2 + dot M.gradient s := by
  have : M.value s = 0.5 * dot s (M.hessian s) + dot M.gradient s := rfl
  rw [this]; ring

theorem norm_pos_of_value_neg {M : Model ℝ n} {d : Vector ℝ n} (h : M.value d < 0) : 0 < norm d := by
  refine norm_pos_of_ne_zero fun h0 => ?_
  rw [h0, value_eq, dot_zero_left, dot_zero_right] at h
  simp at h

/-- The model around the point that the step `s` leads to. -/
noncomputable def around (M : Model ℝ n) (s : Vector ℝ n) : Model ℝ n := ⟨M.gradient + M.hessian s, M.hessian⟩

/-- The model around the point that the step `s` leads to, confined to the coordinates of a mask. -/
noncomputable def face (M : Model ℝ n) (m : Mask n) (s : Vector ℝ n) : Model ℝ n where
  gradient := m.restrict (M.gradient + M.hessian s)
  hessian := m.confine M.hessian

variable {M : Model ℝ n}

theorem value_face (M : Model ℝ n) (m : Mask n) (s d : Vector ℝ n) :
    (M.face m s).value d = (M.around s).value (m.restrict d) := by
  rw [value_eq, value_eq]
  show dot d (m.restrict (M.hessian (m.restrict d))) / 2 + dot (m.restrict (M.gradient + M.hessian s)) d = _
  rw [m.dot_restrict d, ← m.dot_restrict _ d]; rfl

/-- What the model around a point predicts is what the model gains from there. -/
theorem value_add {A : Vector ℝ n →ₗ[ℝ] Vector ℝ n} (hA : IsSymmetric A) (hM : ∀ v, M.hessian v = A v)
    (s d : Vector ℝ n) : M.value (s + d) = M.value s + (M.around s).value d := by
  simp only [value_eq, around, hM, map_add, dot_add_left, dot_add_right]
  rw [hA s d, dot_comm d (A s)]
  ring

/-- Without negative curvature a model lies above its tangents. -/
theorem tangent_le {A : Vector ℝ n →ₗ[ℝ] Vector ℝ n} (hA : IsSymmetric A) (hM : ∀ v, M.hessian v = A v)
    (hpos : IsPositive A) (x y : Vector ℝ n) :
    M.value x + dot (M.around x).gradient (y - x) ≤ M.value y := by
  have hadd := value_add hA hM x (y - x)
  rw [add_sub_cancel, value_eq (M.around x)] at hadd
  have hcurv : 0 ≤ dot (y - x) ((M.around x).hessian (y - x)) := (hM (y - x)).symm ▸ hpos (y - x)
  linarith

/-- The models of the faces fit together: what the model of a face predicts is what the model gains. -/
theorem value_add_restrict {A : Vector ℝ n →ₗ[ℝ] Vector ℝ n} (hA : IsSymmetric A)
    (hM : ∀ v, M.hessian v = A v) (m : Mask n) (s d : Vector ℝ n) :
    M.value (s + m.restrict d) = M.value s + (M.face m s).value d := by
  rw [value_face, value_add hA hM]

theorem hessian_face {A : Vector ℝ n →ₗ[ℝ] Vector ℝ n} (hM : ∀ v, M.hessian v = A v) (m : Mask n)
    (s v : Vector ℝ n) : (M.face m s).hessian v = m.confineLinear A v := by
  show m.restrict (M.hessian (m.restrict v)) = m.restrict (A (m.restrict v))
  rw [hM]

/-- Along a multiple of `w` the model of a face is the parabola of a descent along `w`. -/
theorem value_face_smul {A : Vector ℝ n →ₗ[ℝ] Vector ℝ n} (hM : ∀ v, M.hessian v = A v) (m : Mask n)
    (s w : Vector ℝ n) (t : ℝ) :
    (M.face m s).value (t • w) =
      t * t * dot w (m.confineLinear A w) / 2 - t * dot (-(M.face m s).gradient) w := by
  rw [value_eq, hessian_face hM, map_smul, dot_smul_left, dot_smul_right, dot_smul_right, dot_neg_left]
  ring

end Model

end BoxNewton
