/-
Vectors of a fixed length: entries, inner product, Euclidean norm, and masks that select
coordinates. Addition, subtraction, negation and multiples are those of `Vector`. A vector is seen
through its entries `x.get i` at the positions `i : Fin n`, and every operation says what it does
to them.
-/
import BoxNewton.Scalar

namespace BoxNewton

variable {α : Type} {n : Nat}

/-- A map from vectors to vectors of the same length. A Hessian is known only as one. -/
abbrev Operator (α : Type) (n : Nat) := Vector α n → Vector α n

/-! ## Entries -/

theorem get_eq_getElem (x : Vector α n) (i : Fin n) : x.get i = x[i.val] := rfl

theorem ext_get {x y : Vector α n} (h : ∀ i, x.get i = y.get i) : x = y :=
  Vector.ext fun i hi => h ⟨i, hi⟩

@[simp] theorem get_ofFn (f : Fin n → α) (i : Fin n) : (Vector.ofFn f).get i = f i := by
  simp [get_eq_getElem]

@[simp] theorem get_map {β : Type} (f : α → β) (x : Vector α n) (i : Fin n) :
    (x.map f).get i = f (x.get i) := by
  simp [get_eq_getElem]

@[simp] theorem get_replicate (a : α) (i : Fin n) : (Vector.replicate n a).get i = a := by
  simp [get_eq_getElem]

@[simp] theorem get_zero [Zero α] (i : Fin n) : (0 : Vector α n).get i = 0 := by
  simp [get_eq_getElem]

@[simp] theorem get_add [Add α] (x y : Vector α n) (i : Fin n) :
    (x + y).get i = x.get i + y.get i := by
  simp [get_eq_getElem]

@[simp] theorem get_sub [Sub α] (x y : Vector α n) (i : Fin n) :
    (x - y).get i = x.get i - y.get i := by
  simp [get_eq_getElem]

@[simp] theorem get_neg [Neg α] (x : Vector α n) (i : Fin n) : (-x).get i = -x.get i := by
  simp [get_eq_getElem]

@[simp] theorem get_hmul [Mul α] (t : α) (x : Vector α n) (i : Fin n) :
    (t * x).get i = t * x.get i := by
  simp [get_eq_getElem]

/-! ## Inner product and norm -/

/-- The inner product, summed in the order of the indices. -/
def dot [Scalar α] (x y : Vector α n) : α := (x.zipWith (· * ·) y).foldl (· + ·) 0

def norm [Scalar α] (x : Vector α n) : α := Scalar.sqrt (dot x x)

def allFinite [ExtendedScalar α] (x : Vector α n) : Bool :=
  x.all fun a => decide (IsFinite a)

/-! ## Masks -/

/-- A set of coordinates. -/
abbrev Mask (n : Nat) := Vector Bool n

namespace Mask

/-- The entries of `x` on the mask and those of `y` off it. -/
def select (m : Mask n) (x y : Vector α n) : Vector α n :=
  .ofFn fun i => if m.get i then x.get i else y.get i

/-- The vector that agrees with `x` on the mask and is zero off it. -/
def restrict [Zero α] (m : Mask n) (x : Vector α n) : Vector α n := m.select x 0

/-- The mask holds some coordinate. -/
def nonempty (m : Mask n) : Bool := m.any id

/-- The operator confined to the coordinates of the mask: what lies off the mask is neither read
nor written. -/
def confine [Zero α] (m : Mask n) (A : Operator α n) : Operator α n :=
  fun v => m.restrict (A (m.restrict v))

@[simp] theorem get_select (m : Mask n) (x y : Vector α n) (i : Fin n) :
    (m.select x y).get i = if m.get i then x.get i else y.get i := by
  simp [select]

@[simp] theorem get_restrict [Zero α] (m : Mask n) (x : Vector α n) (i : Fin n) :
    (m.restrict x).get i = if m.get i then x.get i else 0 := by
  simp [restrict]

theorem nonempty_iff (m : Mask n) : m.nonempty = true ↔ ∃ i, m.get i = true := by
  simp only [nonempty, Vector.any_eq_true, id, get_eq_getElem]
  exact ⟨fun ⟨i, h, hm⟩ => ⟨⟨i, h⟩, hm⟩, fun ⟨i, hm⟩ => ⟨i.val, i.isLt, hm⟩⟩

end Mask

end BoxNewton
