/-
Motions: changes of coordinates that take boxes to boxes. Coordinates are relabelled, some of them are
reflected, and all are shifted. Points move as a whole, while steps, directions and gradients only turn.
Inner products are blind to both, and what a model says of a step does not change when they move
together. All of this holds of vectors of any exact numbers.
-/
import BoxNewton.Model
import BoxNewton.Proofs.Exact.Laws
import BoxNewton.Proofs.Exact.Vector
import Mathlib.Data.List.FinRange

namespace BoxNewton

variable {n : ℕ}

/-! ## Signs -/

/-- The number with its sign changed, if `r` says so. -/
noncomputable def Exact.turn (r : Bool) (a : Exact) : Exact := if r then -a else a

namespace Exact

theorem turn_add (r : Bool) (a b : Exact) : turn r (a + b) = turn r a + turn r b := by
  cases r
  · rfl
  · exact Exact.neg_add a b

theorem turn_neg (r : Bool) (a : Exact) : turn r (-a) = -turn r a := by cases r <;> rfl

theorem turn_zero (r : Bool) : turn r 0 = 0 := by
  cases r
  · rfl
  · exact Exact.neg_zero

theorem turn_mul (r : Bool) (t a : Exact) : turn r (t * a) = t * turn r a := by
  cases r
  · rfl
  · exact (Exact.mul_neg t a).symm

theorem turn_turn (r : Bool) (a : Exact) : turn r (turn r a) = a := by
  cases r
  · rfl
  · exact Exact.neg_neg a

theorem turn_mul_turn (r : Bool) (a b : Exact) : turn r a * turn r b = a * b := by
  cases r
  · rfl
  · exact Exact.neg_mul_neg a b

theorem isFinite_turn_iff (r : Bool) (a : Exact) : IsFinite (turn r a) ↔ IsFinite a := by
  cases r with
  | false => exact Iff.rfl
  | true =>
    cases a with
    | real r => exact iff_of_true (isFinite_coe _) (isFinite_coe r)
    | top => exact iff_of_false (fun h => h.1) fun h => h.2
    | bot => exact iff_of_false (fun h => h.2) fun h => h.1
    | nan => exact Iff.rfl

end Exact

open Exact

/-! ## Vectors -/

/-- A change of coordinates that takes boxes to boxes. -/
structure Motion (n : ℕ) where
  /-- Where each coordinate is taken from. -/
  source : Equiv.Perm (Fin n)
  /-- The coordinates that are reflected. -/
  reflected : Fin n → Bool
  shift : Vector ℝ n

namespace Motion

variable (τ : Motion n)

/-- The turned vector `D v`. -/
noncomputable def vector (v : Vector Exact n) : Vector Exact n :=
  .ofFn fun i => turn (τ.reflected i) (v.get (τ.source i))

/-- The vector `Dᵀ v`, turned back. -/
noncomputable def vectorBack (v : Vector Exact n) : Vector Exact n :=
  .ofFn fun j => turn (τ.reflected (τ.source.symm j)) (v.get (τ.source.symm j))

/-- The moved point `D x + c`. -/
noncomputable def point (x : Vector Exact n) : Vector Exact n := τ.vector x + (τ.shift : Vector Exact n)

/-- The point `Dᵀ (x - c)`, moved back. -/
noncomputable def pointBack (x : Vector Exact n) : Vector Exact n := τ.vectorBack (x - (τ.shift : Vector Exact n))

@[simp] theorem get_vector (v : Vector Exact n) (i : Fin n) :
    (τ.vector v).get i = turn (τ.reflected i) (v.get (τ.source i)) :=
  get_ofFn _ i

@[simp] theorem get_vectorBack (v : Vector Exact n) (j : Fin n) :
    (τ.vectorBack v).get j = turn (τ.reflected (τ.source.symm j)) (v.get (τ.source.symm j)) :=
  get_ofFn _ j

@[simp] theorem get_point (x : Vector Exact n) (i : Fin n) :
    (τ.point x).get i = turn (τ.reflected i) (x.get (τ.source i)) + (τ.shift.get i : Exact) := by
  rw [point, get_add, get_vector, get_coe]

theorem vectorBack_vector (v : Vector Exact n) : τ.vectorBack (τ.vector v) = v :=
  ext_get fun j => by rw [get_vectorBack, get_vector, Equiv.apply_symm_apply, turn_turn]

theorem vector_vectorBack (v : Vector Exact n) : τ.vector (τ.vectorBack v) = v :=
  ext_get fun i => by rw [get_vector, get_vectorBack, Equiv.symm_apply_apply, turn_turn]

theorem pointBack_point (x : Vector Exact n) : τ.pointBack (τ.point x) = x := by
  have h : τ.point x - (τ.shift : Vector Exact n) = τ.vector x :=
    ext_get fun i => by rw [get_sub, get_point, get_coe, add_coe_sub_coe, get_vector]
  rw [pointBack, h, vectorBack_vector]

theorem vector_zero : τ.vector 0 = 0 :=
  ext_get fun i => by rw [get_vector, get_zero, get_zero, turn_zero]

theorem vector_add (v w : Vector Exact n) : τ.vector (v + w) = τ.vector v + τ.vector w :=
  ext_get fun i => by simp only [get_vector, get_add, turn_add]

theorem vector_neg (v : Vector Exact n) : τ.vector (-v) = -τ.vector v :=
  ext_get fun i => by simp only [get_vector, get_neg, turn_neg]

theorem vector_sub (v w : Vector Exact n) : τ.vector (v - w) = τ.vector v - τ.vector w :=
  ext_get fun i => by simp only [get_vector, get_sub, Exact.sub_eq, turn_add, turn_neg]

theorem vector_hmul (t : Exact) (v : Vector Exact n) : τ.vector (t * v) = t * τ.vector v :=
  ext_get fun i => by simp only [get_vector, get_hmul, turn_mul]

theorem point_add (x v : Vector Exact n) : τ.point (x + v) = τ.point x + τ.vector v :=
  ext_get fun i => by simp only [get_point, get_add, get_vector, turn_add, Exact.add_right_comm]

/-! ## Inner product and norm -/

theorem perm_map_source (f : Fin n → Exact) :
    ((List.finRange n).map fun i => f (τ.source i)).Perm ((List.finRange n).map f) := by
  have h := (Equiv.Perm.map_finRange_perm τ.source).map f
  rwa [List.map_map] at h

theorem dot_eq_foldl (v w : Vector Exact n) :
    dot v w = ((List.finRange n).map fun i => v.get i * w.get i).foldl (· + ·) 0 := by
  have h : v.zipWith (· * ·) w = .ofFn fun i => v.get i * w.get i :=
    ext_get fun i => by simp [get_eq_getElem]
  unfold dot
  rw [h, ← Vector.foldl_toList, Vector.toList_ofFn, List.ofFn_eq_map]

theorem dot_vector (v w : Vector Exact n) : dot (τ.vector v) (τ.vector w) = dot v w := by
  simp only [dot_eq_foldl, get_vector, turn_mul_turn]
  exact (τ.perm_map_source fun i => v.get i * w.get i).foldl_eq' (fun _ _ _ _ _ => Exact.add_right_comm _ _ _) 0

theorem norm_vector (v : Vector Exact n) : norm (τ.vector v) = norm v := by
  rw [norm, dot_vector]; rfl

theorem allFinite_vector (v : Vector Exact n) : allFinite (τ.vector v) = allFinite v := by
  have h : ∀ w : Vector Exact n, allFinite w = true ↔ ∀ i, IsFinite (w.get i) := fun w => by
    simp only [allFinite, Vector.all_eq_true, decide_eq_true_eq]
    exact ⟨fun hw i => hw i i.isLt, fun hw i hi => hw ⟨i, hi⟩⟩
  rw [Bool.eq_iff_iff, h, h]
  simp only [get_vector, isFinite_turn_iff]
  exact (τ.source.surjective.forall (p := fun i => IsFinite (v.get i))).symm

/-! ## Masks -/

/-- The mask of the coordinates that were taken from those of `m`. -/
def mask (m : Mask n) : Mask n := .ofFn fun i => m.get (τ.source i)

@[simp] theorem get_mask (m : Mask n) (i : Fin n) : (τ.mask m).get i = m.get (τ.source i) := get_ofFn _ i

theorem nonempty_mask (m : Mask n) : (τ.mask m).nonempty = m.nonempty := by
  rw [Bool.eq_iff_iff, Mask.nonempty_iff, Mask.nonempty_iff]
  simp only [get_mask]
  exact (τ.source.surjective.exists (p := fun i => m.get i = true)).symm

theorem select_vector (m : Mask n) (v w : Vector Exact n) :
    (τ.mask m).select (τ.vector v) (τ.vector w) = τ.vector (m.select v w) :=
  ext_get fun i => by
    simp only [Mask.get_select, get_mask, get_vector]
    split <;> rfl

theorem select_point (m : Mask n) (x y : Vector Exact n) :
    (τ.mask m).select (τ.point x) (τ.point y) = τ.point (m.select x y) :=
  ext_get fun i => by
    simp only [Mask.get_select, get_mask, get_point]
    split <;> rfl

theorem restrict_vector (m : Mask n) (v : Vector Exact n) :
    (τ.mask m).restrict (τ.vector v) = τ.vector (m.restrict v) := by
  rw [Mask.restrict, Mask.restrict, ← select_vector, vector_zero]

/-! ## Operators and models -/

/-- The operator `D A Dᵀ`. -/
noncomputable def operator (A : Operator Exact n) : Operator Exact n := fun v => τ.vector (A (τ.vectorBack v))

theorem operator_vector (A : Operator Exact n) (v : Vector Exact n) :
    τ.operator A (τ.vector v) = τ.vector (A v) := by
  rw [operator, vectorBack_vector]

theorem confine_operator (m : Mask n) (A : Operator Exact n) :
    (τ.mask m).confine (τ.operator A) = τ.operator (m.confine A) := by
  funext v
  rw [← τ.vector_vectorBack v, operator_vector, Mask.confine, restrict_vector, operator_vector, restrict_vector]
  rfl

/-- The model that says of turned steps what `M` says of steps. -/
noncomputable def model (M : Model Exact n) : Model Exact n := ⟨τ.vector M.gradient, τ.operator M.hessian⟩

theorem slope_model (M : Model Exact n) (v : Vector Exact n) : (τ.model M).slope (τ.vector v) = M.slope v :=
  τ.dot_vector M.gradient v

theorem value_model (M : Model Exact n) (v : Vector Exact n) : (τ.model M).value (τ.vector v) = M.value v := by
  have h : (τ.model M).hessian (τ.vector v) = τ.vector (M.hessian v) := τ.operator_vector M.hessian v
  rw [Model.value, slope_model, h, dot_vector]; rfl

end Motion

end BoxNewton
