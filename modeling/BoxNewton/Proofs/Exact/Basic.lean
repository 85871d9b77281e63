/-
Exact numbers: the reals with two infinities and a value that is no number. Sums, products and
comparisons follow the rules of floating-point arithmetic for the three special values and are those
of the reals otherwise, so the algorithms run over these numbers without rounding. Zero has no sign.

The reals are the finite exact numbers (`isFinite_iff`), and the coercion keeps every operation that
does not divide by zero or take the root of a negative number.
-/
import BoxNewton.Scalar
import Mathlib.Analysis.Real.Sqrt
import Mathlib.Tactic.Linarith
import Mathlib.Tactic.Ring
import Mathlib.Tactic.NormNum

namespace BoxNewton

/-! ## The reals as scalars -/

noncomputable instance : Scalar ℝ where
  sqrt := Real.sqrt
  decidableLT := inferInstance
  decidableLE := inferInstance

-- The division and the literals of real formulas stay those of the field, whatever is imported first.
noncomputable instance instDivReal : Div ℝ := DivInvMonoid.toDiv

noncomputable instance instOfScientificReal : OfScientific ℝ := NNRatCast.toOfScientific

theorem sqrt_real (a : ℝ) : Scalar.sqrt a = √a := rfl

/-- A real number, an infinity, or no number. -/
inductive Exact where
  | real (r : ℝ)
  | top
  | bot
  | nan

namespace Exact

attribute [coe] real

instance : Coe ℝ Exact := ⟨real⟩

/-! ## Operations -/

/-- The product of `r` with the positive infinity. -/
noncomputable def signed (r : ℝ) : Exact := if 0 < r then top else if r < 0 then bot else nan

noncomputable instance : Zero Exact := ⟨real 0⟩

noncomputable instance : One Exact := ⟨real 1⟩

noncomputable instance : Neg Exact where
  neg
    | real a => real (-a)
    | top => bot
    | bot => top
    | nan => nan

noncomputable instance : Add Exact where
  add
    | real a, real b => real (a + b)
    | nan, _ | _, nan | top, bot | bot, top => nan
    | top, _ | _, top => top
    | bot, _ | _, bot => bot

noncomputable instance : Sub Exact := ⟨fun a b => a + -b⟩

noncomputable instance : Mul Exact where
  mul
    | real a, real b => real (a * b)
    | nan, _ | _, nan => nan
    | real a, top | top, real a => signed a
    | real a, bot | bot, real a => signed (-a)
    | top, top | bot, bot => top
    | top, bot | bot, top => bot

/-- The reciprocal, infinite for zero and zero for the infinities. -/
noncomputable def inv : Exact → Exact
  | real a => if a = 0 then top else real a⁻¹
  | top | bot => real 0
  | nan => nan

noncomputable instance : Div Exact := ⟨fun a b => a * inv b⟩

instance : LT Exact where
  lt
    | real a, real b => a < b
    | bot, real _ | bot, top | real _, top => True
    | _, _ => False

instance : LE Exact where
  le
    | real a, real b => a ≤ b
    | nan, _ | _, nan => False
    | bot, _ | _, top => True
    | _, _ => False

noncomputable instance : OfScientific Exact := ⟨fun m s e => real (OfScientific.ofScientific m s e)⟩

/-- The square root, which a negative number does not have. -/
noncomputable def sqrt : Exact → Exact
  | real a => if a < 0 then nan else real √a
  | top => top
  | bot | nan => nan

noncomputable instance : ExtendedScalar Exact where
  sqrt := sqrt
  decidableLT := fun _ _ => Classical.propDecidable _
  decidableLE := fun _ _ => Classical.propDecidable _
  infinity := top

/-! ## The coercion -/

@[simp, norm_cast] theorem coe_inj {a b : ℝ} : (a : Exact) = b ↔ a = b :=
  ⟨fun h => by injection h, fun h => h ▸ rfl⟩

@[simp, norm_cast] theorem coe_zero : ((0 : ℝ) : Exact) = 0 := rfl

@[simp, norm_cast] theorem coe_one : ((1 : ℝ) : Exact) = 1 := rfl

@[simp, norm_cast] theorem coe_neg (a : ℝ) : ((-a : ℝ) : Exact) = -(a : Exact) := rfl

@[simp, norm_cast] theorem coe_add (a b : ℝ) : ((a + b : ℝ) : Exact) = (a : Exact) + b := rfl

@[simp, norm_cast] theorem coe_sub (a b : ℝ) : ((a - b : ℝ) : Exact) = (a : Exact) - b := by
  rw [sub_eq_add_neg]; rfl

@[simp, norm_cast] theorem coe_mul (a b : ℝ) : ((a * b : ℝ) : Exact) = (a : Exact) * b := rfl

theorem coe_div (a : ℝ) {b : ℝ} (h : b ≠ 0) : ((a / b : ℝ) : Exact) = (a : Exact) / b := by
  show _ = (a : Exact) * inv b
  rw [inv, if_neg h, div_eq_mul_inv]; rfl

@[simp, norm_cast] theorem coe_lt {a b : ℝ} : (a : Exact) < b ↔ a < b := Iff.rfl

@[simp, norm_cast] theorem coe_pos {a : ℝ} : 0 < (a : Exact) ↔ 0 < a := Iff.rfl

@[simp, norm_cast] theorem coe_lt_zero {a : ℝ} : (a : Exact) < 0 ↔ a < 0 := Iff.rfl

@[simp, norm_cast] theorem coe_le {a b : ℝ} : (a : Exact) ≤ b ↔ a ≤ b := Iff.rfl

theorem coe_sqrt {a : ℝ} (h : 0 ≤ a) : ((√a : ℝ) : Exact) = Scalar.sqrt (a : Exact) := by
  show _ = sqrt a
  rw [sqrt, if_neg (not_lt.2 h)]

/-- A decimal literal is the real number it denotes. -/
theorem ofScientific_eq (m : ℕ) (s : Bool) (e : ℕ) :
    (OfScientific.ofScientific m s e : Exact) = ((OfScientific.ofScientific m s e : ℝ) : Exact) := rfl

/-! ## Finite values -/

theorem isFinite_coe (r : ℝ) : IsFinite (r : Exact) := ⟨trivial, trivial⟩

/-- The finite exact numbers are the reals. -/
theorem isFinite_iff {a : Exact} : IsFinite a ↔ ∃ r : ℝ, a = r := by
  constructor
  · rintro ⟨h1, h2⟩
    cases a with
    | real r => exact ⟨r, rfl⟩
    | top => exact absurd h2 id
    | bot => exact absurd h1 id
    | nan => exact absurd h1 id
  · rintro ⟨r, rfl⟩; exact isFinite_coe r

/-- The real number that a finite value is. -/
def toReal : Exact → ℝ
  | real r => r
  | _ => 0

@[simp] theorem toReal_coe (r : ℝ) : (r : Exact).toReal = r := rfl

/-! ## Order -/

theorem left_ne_nan {a b : Exact} (h : a ≤ b) : a ≠ nan := by
  rintro rfl; cases b <;> exact h

theorem right_ne_nan {a b : Exact} (h : a ≤ b) : b ≠ nan := by
  rintro rfl; cases a <;> exact h

theorem coe_ne_nan (r : ℝ) : (r : Exact) ≠ nan := fun h => by injection h

theorem not_lt_iff {a b : Exact} (ha : a ≠ nan) (hb : b ≠ nan) : ¬ a < b ↔ b ≤ a := by
  cases a <;> cases b <;>
    first
    | exact absurd rfl ha
    | exact absurd rfl hb
    | exact coe_lt.not.trans (not_lt.trans coe_le.symm)
    | exact iff_of_true id trivial
    | exact iff_of_false (fun h => h trivial) id

theorem not_le_iff {a b : Exact} (ha : a ≠ nan) (hb : b ≠ nan) : ¬ a ≤ b ↔ b < a := by
  rw [← not_lt_iff hb ha, not_not]

theorem le_refl_of_ne {a : Exact} (h : a ≠ nan) : a ≤ a := by
  cases a <;> first | exact coe_le.2 le_rfl | trivial

protected theorem le_trans {a b c : Exact} (h1 : a ≤ b) (h2 : b ≤ c) : a ≤ c := by
  cases a <;> cases b <;> cases c <;>
    first | trivial | exact h1.elim | exact h2.elim | exact coe_le.2 ((coe_le.1 h1).trans (coe_le.1 h2))

theorem le_of_lt' {a b : Exact} (h : a < b) : a ≤ b := by
  cases a <;> cases b <;> first | exact h.elim | trivial | exact coe_le.2 (coe_lt.1 h).le

protected theorem le_antisymm {a b : Exact} (h1 : a ≤ b) (h2 : b ≤ a) : a = b := by
  cases a <;> cases b <;>
    first | rfl | exact h1.elim | exact h2.elim | exact coe_inj.2 (le_antisymm (coe_le.1 h1) (coe_le.1 h2))

theorem lt_of_lt_of_le' {a b c : Exact} (h1 : a < b) (h2 : b ≤ c) : a < c := by
  cases a <;> cases b <;> cases c <;>
    first | trivial | exact h1.elim | exact h2.elim | exact coe_lt.2 ((coe_lt.1 h1).trans_le (coe_le.1 h2))

theorem lt_of_le_of_lt' {a b c : Exact} (h1 : a ≤ b) (h2 : b < c) : a < c := by
  cases a <;> cases b <;> cases c <;>
    first | trivial | exact h1.elim | exact h2.elim | exact coe_lt.2 ((coe_le.1 h1).trans_lt (coe_lt.1 h2))

theorem add_coe_ne_nan {a : Exact} (h : a ≠ nan) (d : ℝ) : a + d ≠ nan := by
  cases a <;> first | exact absurd rfl h | exact fun h => by injection h

theorem le_add_coe {a b : Exact} (h : a ≤ b) {d : ℝ} (hd : 0 ≤ d) : a ≤ b + d := by
  cases a <;> cases b <;> first | exact h.elim | trivial | exact coe_le.2 (le_add_of_le_of_nonneg (coe_le.1 h) hd)

theorem add_coe_le {a b : Exact} (h : a ≤ b) {d : ℝ} (hd : d ≤ 0) : a + d ≤ b := by
  cases a <;> cases b <;> first | exact h.elim | trivial | exact coe_le.2 (add_le_of_le_of_nonpos (coe_le.1 h) hd)

/-- What lies strictly between two numbers is real. -/
theorem exists_coe_of_lt {a b c : Exact} (h1 : a < b) (h2 : b < c) : ∃ r : ℝ, b = r := by
  cases b with
  | real r => exact ⟨r, rfl⟩
  | top => exact h2.elim
  | bot => cases a <;> exact h1.elim
  | nan => exact h2.elim

/-- There is room above a real number that lies below another number. -/
theorem exists_add_le {a : ℝ} {b : Exact} (h : (a : Exact) < b) :
    ∃ r > 0, ∀ r' ≤ r, ((a + r' : ℝ) : Exact) ≤ b := by
  cases b with
  | real b => exact ⟨b - a, sub_pos.2 (coe_lt.1 h), fun r' hr => coe_le.2 (by linarith)⟩
  | top => exact ⟨1, one_pos, fun _ _ => trivial⟩
  | bot | nan => exact h.elim

theorem exists_le_sub {a : ℝ} {b : Exact} (h : b < (a : Exact)) :
    ∃ r > 0, ∀ r' ≤ r, b ≤ ((a - r' : ℝ) : Exact) := by
  cases b with
  | real b => exact ⟨a - b, sub_pos.2 (coe_lt.1 h), fun r' hr => coe_le.2 (by linarith)⟩
  | bot => exact ⟨1, one_pos, fun _ _ => trivial⟩
  | top | nan => exact h.elim

/-- Moves by real numbers add up, from wherever they start. -/
theorem add_coe_add (a : Exact) (b c : ℝ) : a + b + c = a + (b + c : ℝ) := by
  cases a with
  | real a => exact coe_inj.2 (add_assoc a b c)
  | top | bot | nan => rfl

end Exact

/-! ## Extrema -/

theorem lesser_of_le {α : Type} [Scalar α] {a b : α} (h : a ≤ b) : lesser a b = a := if_pos h

theorem greater_of_le {α : Type} [Scalar α] {a b : α} (h : b ≤ a) : greater a b = a := if_pos h

theorem greater_real (a b : ℝ) : greater a b = max a b := by
  unfold greater
  split
  · exact (max_eq_left ‹_›).symm
  · rw [if_pos (le_of_not_ge ‹_›), max_eq_right (le_of_not_ge ‹_›)]

namespace Exact

@[norm_cast] theorem coe_lesser (a b : ℝ) : ((min a b : ℝ) : Exact) = lesser (a : Exact) b := by
  rcases le_total a b with h | h
  · rw [min_eq_left h, lesser_of_le (coe_le.2 h)]
  · unfold lesser
    rw [min_eq_right h, if_pos (coe_le.2 h)]
    split
    · exact coe_inj.2 (le_antisymm h (coe_le.1 ‹_›))
    · rfl

@[norm_cast] theorem coe_greater (a b : ℝ) : ((max a b : ℝ) : Exact) = greater (a : Exact) b := by
  rcases le_total b a with h | h
  · rw [max_eq_left h, greater_of_le (coe_le.2 h)]
  · unfold greater
    rw [max_eq_right h, if_pos (coe_le.2 h)]
    split
    · exact coe_inj.2 (le_antisymm (coe_le.1 ‹_›) h)
    · rfl

@[norm_cast] theorem coe_abs (a : ℝ) : ((|a| : ℝ) : Exact) = magnitude (a : Exact) := by
  unfold magnitude
  split
  · rw [abs_of_neg (coe_lt_zero.1 ‹_›), coe_neg]
  · rw [abs_of_nonneg (not_lt.1 (mt coe_lt_zero.2 ‹_›))]

end Exact

end BoxNewton
