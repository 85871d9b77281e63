/-
Laws that all exact numbers obey, the infinities and the value that is no number included: sums do not
depend on the order of their terms, a change of sign reverses the order and exchanges the extrema, and
a shift by a real number keeps both.
-/
import BoxNewton.Proofs.Exact.Basic

namespace BoxNewton.Exact

/-! ## Sums and products -/

protected theorem add_comm (a b : Exact) : a + b = b + a := by
  cases a <;> cases b <;> first | rfl | exact coe_inj.2 (add_comm _ _)

protected theorem add_assoc (a b c : Exact) : a + b + c = a + (b + c) := by
  cases a <;> cases b <;> cases c <;> first | rfl | exact coe_inj.2 (add_assoc _ _ _)

protected theorem add_right_comm (a b c : Exact) : a + b + c = a + c + b := by
  rw [Exact.add_assoc, Exact.add_comm b, ← Exact.add_assoc]

protected theorem sub_eq (a b : Exact) : a - b = a + -b := rfl

protected theorem add_zero (a : Exact) : a + 0 = a := by
  cases a <;> first | rfl | exact coe_inj.2 (add_zero _)

theorem add_nan (a : Exact) : a + nan = nan := by cases a <;> rfl

theorem nan_add (a : Exact) : nan + a = nan := by cases a <;> rfl

protected theorem neg_neg (a : Exact) : - -a = a := by
  cases a <;> first | rfl | exact coe_inj.2 (neg_neg _)

protected theorem neg_zero : -(0 : Exact) = 0 := coe_inj.2 neg_zero

protected theorem neg_add (a b : Exact) : -(a + b) = -a + -b := by
  cases a <;> cases b <;> first | rfl | exact coe_inj.2 (neg_add _ _)

protected theorem neg_sub (a b : Exact) : -(a - b) = -a - -b := Exact.neg_add a (-b)

theorem signed_neg (r : ℝ) : signed (-r) = -signed r := by
  rcases lt_trichotomy r 0 with h | rfl | h
  · simp only [signed, neg_pos, h, h.not_gt, if_true, if_false]; rfl
  · simp only [signed, neg_zero, lt_irrefl, if_false]; rfl
  · simp only [signed, neg_pos, neg_lt_zero, h, h.not_gt, if_true, if_false]; rfl

protected theorem mul_neg (a b : Exact) : a * -b = -(a * b) := by
  cases a <;> cases b <;>
    first
    | rfl
    | exact coe_inj.2 (mul_neg _ _)
    | exact signed_neg _
    | exact (Exact.neg_neg _).symm.trans (congrArg _ (signed_neg _).symm)

protected theorem mul_comm (a b : Exact) : a * b = b * a := by
  cases a <;> cases b <;> first | rfl | exact coe_inj.2 (mul_comm _ _)

protected theorem neg_mul_neg (a b : Exact) : -a * -b = a * b := by
  rw [Exact.mul_neg, Exact.mul_comm (-a), Exact.mul_neg, Exact.neg_neg, Exact.mul_comm]

protected theorem inv_neg {a : Exact} (h : a ≠ 0) : inv (-a) = -inv a := by
  cases a with
  | real r =>
    have hr : r ≠ 0 := fun h0 => h (coe_inj.2 h0)
    show inv (real (-r)) = _
    rw [inv, inv, if_neg (neg_ne_zero.2 hr), if_neg hr]
    exact coe_inj.2 inv_neg
  | top | bot => exact Exact.neg_zero.symm
  | nan => rfl

/-- A quotient keeps its value when both of its terms change sign. -/
protected theorem neg_div_neg (a : Exact) {b : Exact} (h : b ≠ 0) : -a / -b = a / b := by
  show -a * inv (-b) = a * inv b
  rw [Exact.inv_neg h, Exact.neg_mul_neg]

/-! ## Order -/

protected theorem neg_lt_neg_iff {a b : Exact} : -a < -b ↔ b < a := by
  cases a <;> cases b <;> first | exact Iff.rfl | exact coe_lt.trans (neg_lt_neg_iff.trans coe_lt.symm)

protected theorem neg_le_neg_iff {a b : Exact} : -a ≤ -b ↔ b ≤ a := by
  cases a <;> cases b <;> first | exact Iff.rfl | exact coe_le.trans (neg_le_neg_iff.trans coe_le.symm)

theorem zero_lt_neg_iff {a : Exact} : 0 < -a ↔ a < 0 := by
  rw [← Exact.neg_lt_neg_iff, Exact.neg_neg, Exact.neg_zero]

theorem neg_lt_zero_iff {a : Exact} : -a < 0 ↔ 0 < a := by
  rw [← Exact.neg_lt_neg_iff, Exact.neg_neg, Exact.neg_zero]

protected theorem lt_trans {a b c : Exact} (h1 : a < b) (h2 : b < c) : a < c :=
  lt_of_lt_of_le' h1 (le_of_lt' h2)

protected theorem lt_irrefl (a : Exact) : ¬ a < a := by
  cases a with
  | real r => exact fun h => lt_irrefl r (coe_lt.1 h)
  | top | bot | nan => exact id

protected theorem lt_asymm {a b : Exact} (h : a < b) : ¬ b < a := fun h' => Exact.lt_irrefl a (Exact.lt_trans h h')

protected theorem ne_of_lt {a b : Exact} (h : a < b) : a ≠ b := fun h' => Exact.lt_irrefl b (h' ▸ h)

theorem add_coe_lt_iff {a b : Exact} (c : ℝ) : a + c < b + c ↔ a < b := by
  cases a <;> cases b <;>
    first | exact Iff.rfl | exact coe_lt.trans ((add_lt_add_iff_right c).trans coe_lt.symm)

theorem add_coe_le_iff {a b : Exact} (c : ℝ) : a + c ≤ b + c ↔ a ≤ b := by
  cases a <;> cases b <;>
    first | exact Iff.rfl | exact coe_le.trans ((add_le_add_iff_right c).trans coe_le.symm)

/-- Differences are blind to a shift by a real number. -/
theorem add_coe_sub_add_coe (a b : Exact) (c : ℝ) : a + c - (b + c) = a - b := by
  cases a <;> cases b <;>
    first
    | rfl
    | exact coe_inj.2 (by ring)

theorem add_coe_sub_coe (a : Exact) (c : ℝ) : a + c - (c : Exact) = a := by
  cases a <;> first | rfl | exact coe_inj.2 (add_sub_cancel_right _ _)

theorem le_or_le {a b : Exact} (ha : a ≠ nan) (hb : b ≠ nan) : a ≤ b ∨ b ≤ a := by
  by_cases h : a ≤ b
  · exact .inl h
  · exact .inr (le_of_lt' ((not_le_iff ha hb).1 h))

/-! ## Extrema -/

theorem nan_lesser (a : Exact) : lesser nan a = nan := by
  unfold lesser
  rw [if_neg fun h => left_ne_nan h rfl, if_neg fun h => right_ne_nan h rfl, nan_add]

theorem lesser_nan (a : Exact) : lesser a nan = nan := by
  unfold lesser
  rw [if_neg fun h => right_ne_nan h rfl, if_neg fun h => left_ne_nan h rfl, add_nan]

theorem lesser_eq_right {a b : Exact} (h : b ≤ a) : lesser a b = b := by
  unfold lesser
  rw [if_pos h]
  split
  · exact Exact.le_antisymm ‹_› h
  · rfl

protected theorem neg_lesser (a b : Exact) : -lesser a b = greater (-a) (-b) := by
  simp only [lesser, greater, Exact.neg_le_neg_iff]
  split
  · rfl
  · split
    · rfl
    · exact Exact.neg_add a b

theorem greater_eq_neg (a b : Exact) : greater a b = -lesser (-a) (-b) := by
  rw [Exact.neg_lesser, Exact.neg_neg, Exact.neg_neg]

theorem lesser_comm (a b : Exact) : lesser a b = lesser b a := by
  unfold lesser
  by_cases h : a ≤ b <;> by_cases h' : b ≤ a
  · rw [if_pos h, if_pos h', Exact.le_antisymm h h']
  · rw [if_pos h, if_neg h', if_pos h]
  · rw [if_neg h, if_pos h', if_pos h']
  · rw [if_neg h, if_neg h', if_neg h', if_neg h, Exact.add_comm]

theorem lesser_assoc (a b c : Exact) : lesser (lesser a b) c = lesser a (lesser b c) := by
  rcases eq_or_ne a nan with rfl | ha
  · rw [nan_lesser, nan_lesser, nan_lesser]
  rcases eq_or_ne b nan with rfl | hb
  · rw [lesser_nan, nan_lesser, lesser_nan]
  rcases eq_or_ne c nan with rfl | hc
  · rw [lesser_nan, lesser_nan, lesser_nan]
  rcases le_or_le ha hb with hab | hab <;> rcases le_or_le hb hc with hbc | hbc
  · rw [lesser_of_le hab, lesser_of_le hbc, lesser_of_le hab, lesser_of_le (Exact.le_trans hab hbc)]
  · rw [lesser_of_le hab, lesser_eq_right hbc]
  · rw [lesser_eq_right hab, lesser_of_le hbc, lesser_eq_right hab]
  · rw [lesser_eq_right hab, lesser_eq_right hbc, lesser_eq_right (Exact.le_trans hbc hab)]

theorem lesser_right_comm (a b c : Exact) : lesser (lesser a b) c = lesser (lesser a c) b := by
  rw [lesser_assoc, lesser_comm b, ← lesser_assoc]

theorem top_lesser (a : Exact) : lesser top a = a := by
  rcases eq_or_ne a nan with rfl | ha
  · exact lesser_nan top
  · cases a <;> first | exact lesser_eq_right trivial | exact absurd rfl ha

theorem lesser_add_coe (a b : Exact) (c : ℝ) : lesser (a + c) (b + c) = lesser a b + c := by
  simp only [lesser, add_coe_le_iff]
  by_cases h : a ≤ b
  · rw [if_pos h, if_pos h]
  by_cases h' : b ≤ a
  · rw [if_neg h, if_pos h', if_neg h, if_pos h']
  · -- numbers compare, so one of the two is none
    rw [if_neg h, if_neg h', if_neg h, if_neg h']
    rcases eq_or_ne a nan with rfl | ha
    · rw [nan_add, nan_add, nan_add, nan_add]
    · obtain rfl : b = nan := by
        by_contra hb
        exact (le_or_le ha hb).elim h h'
      rw [nan_add, add_nan, add_nan, nan_add]

theorem nan_greater (a : Exact) : greater nan a = nan := by
  rw [greater_eq_neg]
  exact congrArg _ (nan_lesser _)

theorem greater_nan (a : Exact) : greater a nan = nan := by
  rw [greater_eq_neg]
  exact congrArg _ (lesser_nan _)

theorem greater_eq_right {a b : Exact} (h : a ≤ b) : greater a b = b := by
  rw [greater_eq_neg, lesser_eq_right (Exact.neg_le_neg_iff.2 h), Exact.neg_neg]

theorem greater_comm (a b : Exact) : greater a b = greater b a := by
  rw [greater_eq_neg, lesser_comm, ← greater_eq_neg]

theorem greater_assoc (a b c : Exact) : greater (greater a b) c = greater a (greater b c) := by
  simp only [greater_eq_neg, Exact.neg_neg, lesser_assoc]

theorem greater_right_comm (a b c : Exact) : greater (greater a b) c = greater (greater a c) b := by
  rw [greater_assoc, greater_comm b, ← greater_assoc]

theorem bot_greater (a : Exact) : greater bot a = a := by
  rw [greater_eq_neg]
  exact (congrArg _ (top_lesser (-a))).trans (Exact.neg_neg a)

theorem greater_add_coe (a b : Exact) (c : ℝ) : greater (a + c) (b + c) = greater a b + c := by
  have h : ∀ x : Exact, -(x + c) = -x + ((-c : ℝ) : Exact) := fun x => Exact.neg_add x c
  rw [greater_eq_neg, h, h, lesser_add_coe, Exact.neg_add, ← greater_eq_neg, ← coe_neg, neg_neg]

protected theorem neg_greater (a b : Exact) : -greater a b = lesser (-a) (-b) := by
  rw [greater_eq_neg, Exact.neg_neg]

/-! ## Clipping to an interval -/

/-- Clipping twice to the same bounds is clipping once, even where they are crossed. -/
theorem clip_clip (a l u : Exact) :
    lesser (greater (lesser (greater a l) u) l) u = lesser (greater a l) u := by
  rcases eq_or_ne a nan with rfl | ha
  · rw [nan_greater, nan_lesser, nan_greater, nan_lesser]
  rcases eq_or_ne l nan with rfl | hl
  · rw [greater_nan, greater_nan, nan_lesser]
  rcases eq_or_ne u nan with rfl | hu
  · rw [lesser_nan, lesser_nan]
  rcases le_or_le hl hu with hlu | hlu
  · -- the clipped value lies between the bounds
    rcases le_or_le ha hl with hal | hal
    · rw [greater_eq_right hal, lesser_of_le hlu, greater_of_le (le_refl_of_ne hl), lesser_of_le hlu]
    · rw [greater_of_le hal]
      rcases le_or_le ha hu with hau | hau
      · rw [lesser_of_le hau, greater_of_le hal, lesser_of_le hau]
      · rw [lesser_eq_right hau, greater_of_le hlu, lesser_of_le (le_refl_of_ne hu)]
  · -- the upper bound lies below the lower one, and every value is sent to it
    have hcrossed : ∀ b ≠ nan, lesser (greater b l) u = u := fun b hb => by
      rcases le_or_le hb hl with h | h
      · rw [greater_eq_right h, lesser_eq_right hlu]
      · rw [greater_of_le h, lesser_eq_right (Exact.le_trans hlu h)]
    rw [hcrossed a ha, hcrossed u hu]

/-- Unless the bounds are crossed, it does not matter which of them is applied first. -/
theorem clip_eq {l u : Exact} (h : ¬ u < l) (a : Exact) : lesser (greater a l) u = greater (lesser a u) l := by
  rcases eq_or_ne a nan with rfl | ha
  · rw [nan_greater, nan_lesser, nan_greater]
  rcases eq_or_ne l nan with rfl | hl
  · rw [greater_nan, nan_lesser, greater_nan]
  rcases eq_or_ne u nan with rfl | hu
  · rw [lesser_nan, lesser_nan, nan_greater]
  have hlu : l ≤ u := (not_lt_iff hu hl).1 h
  rcases le_or_le ha hl with hal | hal
  · rw [greater_eq_right hal, lesser_of_le hlu, lesser_of_le (Exact.le_trans hal hlu), greater_eq_right hal]
  · rw [greater_of_le hal]
    rcases le_or_le ha hu with hau | hau
    · rw [lesser_of_le hau, greater_of_le hal]
    · rw [lesser_eq_right hau, greater_of_le hlu]

theorem neg_clip {l u : Exact} (h : ¬ u < l) (a : Exact) :
    -lesser (greater a l) u = lesser (greater (-a) (-u)) (-l) := by
  rw [clip_eq h, Exact.neg_greater, Exact.neg_lesser]

theorem clip_add_coe (a l u : Exact) (c : ℝ) :
    lesser (greater (a + c) (l + c)) (u + c) = lesser (greater a l) u + c := by
  rw [greater_add_coe, lesser_add_coe]

end BoxNewton.Exact
