/-
Boxes under motions. Where a coordinate is reflected its two bounds change places, so that what was said
of one bound is now said of the other: the projection, the projected paths with their breakpoints, the
free coordinates and the stationarity measure move along with the box. The projection asks for bounds
that are not crossed, as it applies the lower one first.
-/
import BoxNewton.Box.Stationarity
import BoxNewton.Proofs.Box.Breakpoint
import BoxNewton.Proofs.Symmetry.Motion

namespace BoxNewton

variable {n : ℕ}

open Exact

namespace Motion

variable (τ : Motion n) {b : Box Exact n}

/-- The moved box. The bounds of a reflected coordinate change places. -/
noncomputable def box (b : Box Exact n) : Box Exact n where
  lower := .ofFn fun i =>
    (if τ.reflected i then -b.upper.get (τ.source i) else b.lower.get (τ.source i)) + (τ.shift.get i : Exact)
  upper := .ofFn fun i =>
    (if τ.reflected i then -b.lower.get (τ.source i) else b.upper.get (τ.source i)) + (τ.shift.get i : Exact)

@[simp] theorem get_lower_box (i : Fin n) : (τ.box b).lower.get i =
    (if τ.reflected i then -b.upper.get (τ.source i) else b.lower.get (τ.source i)) + (τ.shift.get i : Exact) :=
  get_ofFn _ i

@[simp] theorem get_upper_box (i : Fin n) : (τ.box b).upper.get i =
    (if τ.reflected i then -b.lower.get (τ.source i) else b.upper.get (τ.source i)) + (τ.shift.get i : Exact) :=
  get_ofFn _ i

/-! ## Projection -/

theorem project_box (hb : ∀ i, ¬ b.upper.get i < b.lower.get i) (x : Vector Exact n) :
    (τ.box b).project (τ.point x) = τ.point (b.project x) :=
  ext_get fun i => by
    rw [Box.get_project, get_lower_box, get_upper_box, get_point, get_point, clip_add_coe, Box.get_project]
    cases τ.reflected i with
    | false => rfl
    | true => exact congrArg (· + _) (neg_clip (hb _) _).symm

/-! ## Paths -/

theorem move_box (hb : ∀ i, ¬ b.upper.get i < b.lower.get i) (x w : Vector Exact n) (t : Exact) (i : Fin n) :
    (τ.box b).move (τ.point x) (τ.vector w) t i = turn (τ.reflected i) (b.move x w t (τ.source i)) := by
  have hd : t * (τ.vector w).get i = turn (τ.reflected i) (t * w.get (τ.source i)) := by
    rw [get_vector, turn_mul]
  simp only [Box.move, hd, get_lower_box, get_upper_box, get_point]
  generalize t * w.get (τ.source i) = d
  rw [Exact.add_right_comm, ← turn_add]
  simp only [add_coe_lt_iff, add_coe_sub_add_coe]
  have hi := hb (τ.source i)
  cases τ.reflected i with
  | false => rfl
  | true =>
    simp only [turn, if_true, Exact.neg_lt_neg_iff, ← Exact.neg_sub]
    by_cases hl : x.get (τ.source i) + d < b.lower.get (τ.source i)
    · rw [if_pos hl, if_neg fun hu => hi (Exact.lt_trans hu hl), if_pos hl]
    · rw [if_neg hl, if_neg hl]
      split <;> rfl

theorem displacement_box (hb : ∀ i, ¬ b.upper.get i < b.lower.get i) (x w : Vector Exact n) (t : Exact) :
    (τ.box b).displacement (τ.point x) (τ.vector w) t = τ.vector (b.displacement x w t) :=
  ext_get fun i => by
    rw [Box.get_displacement, get_vector, Box.get_displacement, τ.move_box hb]

theorem breakpoint?_box (x w : Vector Exact n) (i : Fin n) :
    (τ.box b).breakpoint? (τ.point x) (τ.vector w) i = b.breakpoint? x w (τ.source i) := by
  simp only [Box.breakpoint?, get_lower_box, get_upper_box, get_point, get_vector, add_coe_lt_iff,
    add_coe_sub_add_coe]
  generalize w.get (τ.source i) = ω
  cases τ.reflected i with
  | false => rfl
  | true =>
    simp only [turn, if_true, Exact.neg_lt_neg_iff, zero_lt_neg_iff, neg_lt_zero_iff, ← Exact.neg_sub]
    -- the two tests change places, which is no difference as at most one of them holds
    by_cases hpos : 0 < ω
    · have hneg : ¬ ω < 0 := Exact.lt_asymm hpos
      simp only [hpos, hneg, and_true, and_false, if_false, Exact.neg_div_neg _ (Exact.ne_of_lt hpos).symm]
    · by_cases hneg : ω < 0
      · simp only [hpos, hneg, and_true, and_false, if_false, Exact.neg_div_neg _ (Exact.ne_of_lt hneg)]
      · simp only [hpos, hneg, and_false, if_false]

theorem breakpoints_box (x w : Vector Exact n) :
    (τ.box b).breakpoints (τ.point x) (τ.vector w) = b.breakpoints x w := by
  unfold Box.breakpoints
  refine Box.Breakpoints.ofList_perm ?_
  have h := (Equiv.Perm.map_finRange_perm τ.source).filterMap (b.breakpoint? x w)
  rw [List.filterMap_map] at h
  simpa only [τ.breakpoint?_box, Function.comp_def] using h

/-! ## Free coordinates and stationarity -/

theorem free_box (x : Vector Exact n) : (τ.box b).free (τ.point x) = τ.mask (b.free x) :=
  ext_get fun i => by
    simp only [Box.get_free, get_mask, get_lower_box, get_upper_box, get_point, add_coe_lt_iff, decide_eq_decide]
    cases τ.reflected i with
    | false => exact Iff.rfl
    | true => exact (and_congr Exact.neg_lt_neg_iff Exact.neg_lt_neg_iff).trans and_comm

theorem coincide_add_coe_iff {a b : Exact} (c : ℝ) : Coincide (a + c) (b + c) ↔ Coincide a b :=
  and_congr (add_coe_le_iff c) (add_coe_le_iff c)

theorem coincide_neg_iff {a b : Exact} : Coincide (-a) (-b) ↔ Coincide a b :=
  (and_congr Exact.neg_le_neg_iff Exact.neg_le_neg_iff).trans and_comm

theorem descends_box (x g : Vector Exact n) (i : Fin n) :
    (τ.box b).Descends (τ.point x) (τ.vector g) i ↔ b.Descends x g (τ.source i) := by
  simp only [Box.Descends, get_lower_box, get_upper_box, get_point, get_vector, add_coe_lt_iff, coincide_add_coe_iff]
  cases τ.reflected i with
  | false => exact Iff.rfl
  | true =>
    simp only [turn, if_true, Exact.neg_lt_neg_iff, coincide_neg_iff, zero_lt_neg_iff, neg_lt_zero_iff]
    tauto

theorem stationarity_box (x g : Vector Exact n) :
    (τ.box b).stationarity (τ.point x) (τ.vector g) = b.stationarity x g := by
  have h : (τ.box b).projectedGradient (τ.point x) (τ.vector g) = τ.vector (b.projectedGradient x g) :=
    ext_get fun i => by
      rw [Box.get_projectedGradient, get_vector, get_vector, Box.get_projectedGradient]
      by_cases hi : b.Descends x g (τ.source i)
      · rw [if_pos hi, if_pos ((τ.descends_box x g i).2 hi)]
      · rw [if_neg hi, if_neg (mt (τ.descends_box x g i).1 hi), turn_zero]
  rw [Box.stationarity, h, norm_vector]; rfl

end Motion

end BoxNewton
