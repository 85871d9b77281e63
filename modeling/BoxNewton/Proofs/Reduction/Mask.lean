/-
The coordinates of a mask as a space of their own. `compress` reads the entries on the mask, in order, and
`pad` puts entries there, with zeros off the mask. Neither a sum nor a product of real vectors sees the zeros
(`padLinear`, `dot_pad`), so what is computed from them is the same before and after padding.
-/
import BoxNewton.Proofs.Exact.Vector
import BoxNewton.Proofs.Real.Model
import Mathlib.Data.Finset.Sort

namespace BoxNewton

variable {α : Type} {n : ℕ}

namespace Mask

variable (m : Mask n)

/-! ## Positions -/

/-- How many coordinates a mask has. -/
def count : ℕ := m.support.card

/-- The coordinates of a mask, in order. -/
def position : Fin m.count ↪o Fin n := m.support.orderEmbOfFin rfl

theorem get_position (k : Fin m.count) : m.get (m.position k) = true :=
  mem_support.1 (m.support.orderEmbOfFin_mem rfl k)

theorem exists_position {m : Mask n} {i : Fin n} (hi : m.get i = true) : ∃ k, m.position k = i := by
  have hrange : i ∈ Set.range (m.support.orderEmbOfFin rfl) := by
    rw [Finset.range_orderEmbOfFin]
    exact mem_support.2 hi
  exact hrange

/-! ## Vectors -/

/-- The entries on the mask. -/
def compress (x : Vector α n) : Vector α m.count := .ofFn fun k => x.get (m.position k)

/-- The vector with these entries on the mask, and zeros off it. -/
noncomputable def pad [Zero α] (u : Vector α m.count) : Vector α n :=
  .ofFn (Function.extend m.position u.get 0)

@[simp] theorem get_compress (x : Vector α n) (k : Fin m.count) : (m.compress x).get k = x.get (m.position k) :=
  get_ofFn _ k

/-- Vectors that agree on the mask and off it are equal. -/
theorem ext_position {x y : Vector α n} (hon : ∀ k, x.get (m.position k) = y.get (m.position k))
    (hoff : ∀ i, m.get i = false → x.get i = y.get i) : x = y :=
  ext_get fun i => by
    cases hi : m.get i with
    | false => exact hoff i hi
    | true =>
      obtain ⟨k, rfl⟩ := exists_position hi
      exact hon k

section Zero

variable [Zero α]

@[simp] theorem get_pad_position (u : Vector α m.count) (k : Fin m.count) : (m.pad u).get (m.position k) = u.get k := by
  rw [pad, get_ofFn, m.position.injective.extend_apply]

theorem get_pad_of_not {m : Mask n} {i : Fin n} (hi : m.get i = false) (u : Vector α m.count) :
    (m.pad u).get i = 0 := by
  have hno : ¬ ∃ k, m.position k = i := fun ⟨k, hk⟩ => by
    rw [← hk, m.get_position] at hi
    cases hi
  rw [pad, get_ofFn, Function.extend_apply' _ _ _ hno]
  rfl

theorem compress_pad (u : Vector α m.count) : m.compress (m.pad u) = u :=
  ext_get fun k => by rw [get_compress, get_pad_position]

theorem pad_compress (x : Vector α n) : m.pad (m.compress x) = m.restrict x :=
  m.ext_position (fun k => by rw [get_pad_position, get_compress, get_restrict, if_pos (m.get_position k)])
    fun i hi => by rw [get_pad_of_not hi, get_restrict, hi]; rfl

theorem restrict_pad (u : Vector α m.count) : m.restrict (m.pad u) = m.pad u := by
  rw [← pad_compress, compress_pad]

end Zero

theorem compress_add [Add α] (x y : Vector α n) : m.compress (x + y) = m.compress x + m.compress y :=
  ext_get fun k => by simp only [get_compress, get_add]

/-! ## Real vectors -/

/-- Padding as a linear map. -/
noncomputable def padLinear : Vector ℝ m.count →ₗ[ℝ] Vector ℝ n where
  toFun := m.pad
  map_add' u v := m.ext_position (fun k => by simp only [get_pad_position, get_add])
    fun i hi => by simp only [get_pad_of_not hi, get_add, add_zero]
  map_smul' t u := m.ext_position (fun k => by simp only [get_pad_position, get_smul, RingHom.id_apply])
    fun i hi => by simp only [get_pad_of_not hi, get_smul, RingHom.id_apply, mul_zero]

theorem pad_zero : m.pad (0 : Vector ℝ m.count) = 0 := map_zero m.padLinear

theorem pad_neg (u : Vector ℝ m.count) : m.pad (-u) = -m.pad u := map_neg m.padLinear u

theorem pad_add_hmul (u v : Vector ℝ m.count) (t : ℝ) : m.pad (u + t * v) = m.pad u + t * m.pad v := by
  rw [hmul_eq_smul, hmul_eq_smul]
  exact (map_add m.padLinear u (t • v)).trans (congrArg (_ + ·) (map_smul m.padLinear t v))

theorem pad_sub_hmul (u v : Vector ℝ m.count) (t : ℝ) : m.pad (u - t * v) = m.pad u - t * m.pad v := by
  rw [hmul_eq_smul, hmul_eq_smul]
  exact (map_sub m.padLinear u (t • v)).trans (congrArg (_ - ·) (map_smul m.padLinear t v))

theorem dot_pad (u v : Vector ℝ m.count) : dot (m.pad u) (m.pad v) = dot u v := by
  rw [dot_eq_sum, dot_eq_sum]
  refine (Fintype.sum_of_injective m.position m.position.injective _ _ (fun i hi => ?_) fun k => ?_).symm
  · cases h : m.get i with
    | false => rw [get_pad_of_not h, zero_mul]
    | true => exact absurd (exists_position h) hi
  · rw [get_pad_position, get_pad_position]

theorem norm_pad (u : Vector ℝ m.count) : norm (m.pad u) = norm u := by rw [norm, dot_pad]; rfl

end Mask

/-! ## Exact arithmetic -/

namespace Exact

variable (m : Mask n)

theorem coe_compress (x : Vector ℝ n) :
    ((m.compress x : Vector ℝ m.count) : Vector Exact m.count) = m.compress (x : Vector Exact n) :=
  ext_get fun k => by rw [get_coe, Mask.get_compress, Mask.get_compress, get_coe]

theorem coe_pad (u : Vector ℝ m.count) : ((m.pad u : Vector ℝ n) : Vector Exact n) = m.pad (u : Vector Exact m.count) :=
  m.ext_position (fun k => by rw [get_coe, Mask.get_pad_position, Mask.get_pad_position, get_coe])
    fun i hi => by rw [get_coe, Mask.get_pad_of_not hi, Mask.get_pad_of_not hi]; rfl

end Exact

end BoxNewton
