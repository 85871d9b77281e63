/-
Projected paths in exact arithmetic, from a point of the box along a real direction. The point may
have infinite coordinates, where the box has; what the path moves it by is real all the same
(`shift`). `Moved` says what becomes of one coordinate, and the rest follows from its three cases:
the path stays in the box, is the projection of the ray, and never turns back.
-/
import BoxNewton.Box.Path
import BoxNewton.Proofs.Exact.Vector
import Mathlib.Order.Interval.Set.UnorderedInterval

namespace BoxNewton

variable {n : ℕ}

/-! ## One coordinate -/

/-- A coordinate `x` between the bounds `l` and `u`, sent by `d`, moves by `m`: to the bound it would
pass, or by `d` itself. A coordinate that reaches a bound is real, and so is the bound. -/
inductive Moved (l x u : Exact) (d : ℝ) : ℝ → Prop where
  | lower (ξ m : ℝ) : x = ξ → l = (ξ + m : ℝ) → d < m → m ≤ 0 → Moved l x u d m
  | upper (ξ m : ℝ) : x = ξ → u = (ξ + m : ℝ) → 0 ≤ m → m < d → Moved l x u d m
  | inside : l ≤ x + d → x + d ≤ u → Moved l x u d d

namespace Moved

open Exact

variable {l x u : Exact} {d m : ℝ}

theorem of_clip (hl : l ≤ x) (hu : x ≤ u) (d : ℝ) :
    ∃ m, Moved l x u d m ∧ (if x + d < l then l - x else if u < x + d then u - x else (d : Exact)) = m := by
  have hx := add_coe_ne_nan (left_ne_nan hu) d
  by_cases h1 : x + d < l
  · -- an infinite coordinate stays where it is, and an infinite bound is not passed
    cases x <;> cases l <;> first | exact hl.elim | exact h1.elim | skip
    rename_i ξ a
    have ha : a ≤ ξ := hl
    have hd : ξ + d < a := h1
    exact ⟨a - ξ, .lower ξ _ rfl (by rw [add_sub_cancel]) (by linarith) (by linarith),
      by rw [if_pos h1, coe_sub]⟩
  · by_cases h2 : u < x + d
    · cases x <;> cases u <;> first | exact hu.elim | exact h2.elim | skip
      rename_i ξ b
      have hb : ξ ≤ b := hu
      have hd : b < ξ + d := h2
      exact ⟨b - ξ, .upper ξ _ rfl (by rw [add_sub_cancel]) (by linarith) (by linarith),
        by rw [if_neg h1, if_pos h2, coe_sub]⟩
    · exact ⟨d, .inside ((not_lt_iff hx (left_ne_nan hl)).1 h1) ((not_lt_iff (right_ne_nan hu) hx).1 h2),
        by rw [if_neg h1, if_neg h2]⟩

/-- No coordinate moves backwards or farther than it is sent. -/
theorem mem_uIcc (h : Moved l x u d m) : m ∈ Set.uIcc 0 d := by
  rw [Set.mem_uIcc]
  cases h with
  | lower ξ m _ _ h1 h2 => exact .inr ⟨h1.le, h2⟩
  | upper ξ m _ _ h1 h2 => exact .inl ⟨h1, h2.le⟩
  | inside =>
    rcases le_total 0 d with h | h
    · exact .inl ⟨h, le_rfl⟩
    · exact .inr ⟨le_rfl, h⟩

theorem within (h : Moved l x u d m) (hl : l ≤ x) (hu : x ≤ u) : l ≤ x + m ∧ x + m ≤ u := by
  cases h with
  | lower ξ m hx hl' =>
    subst hx hl'
    exact ⟨coe_le.2 le_rfl, Exact.le_trans hl hu⟩
  | upper ξ m hx hu' =>
    subst hx hu'
    exact ⟨Exact.le_trans hl hu, coe_le.2 le_rfl⟩
  | inside h1 h2 => exact ⟨h1, h2⟩

/-- The coordinate ends where the projection of `x + d` lies. -/
theorem clip (h : Moved l x u d m) (hl : l ≤ x) (hu : x ≤ u) : lesser (greater (x + d) l) u = x + m := by
  have hw := h.within hl hu
  cases h with
  | lower ξ m hx hl' h1 =>
    subst hx hl'
    have : greater ((ξ : Exact) + d) (ξ + m : ℝ) = (ξ + m : ℝ) := by
      rw [← coe_add, ← coe_greater, max_eq_right (by linarith)]
    rw [this]
    exact lesser_of_le hw.2
  | upper ξ m hx hu' _ h1 =>
    subst hx hu'
    have h2 : l ≤ (ξ : Exact) + d := Exact.le_trans hw.1 (coe_le.2 (by linarith))
    rw [greater_of_le h2, ← coe_add, ← coe_lesser, min_eq_right (by linarith), coe_add]
  | inside h1 h2 => rw [greater_of_le h1, lesser_of_le h2]

/-- Sent less far in the same direction, the coordinate moves less far. -/
theorem mem_uIcc_of_le {c m' : ℝ} (h : Moved l x u d m) (h' : Moved l x u (c * d) m')
    (hl : l ≤ x) (hu : x ≤ u) (h0 : 0 ≤ c) (h1 : c ≤ 1) : m' ∈ Set.uIcc 0 m := by
  have hm' := Set.mem_uIcc.1 h'.mem_uIcc
  have hw := h'.within hl hu
  rw [Set.mem_uIcc]
  -- where the longer move ends at a bound, the shorter one ends at or before it
  cases h with
  | lower ξ m hx hl' hdm hm0 =>
    subst hx hl'
    have hle : ξ + m ≤ ξ + m' := coe_le.1 hw.1
    have hcd : c * d ≤ 0 := mul_nonpos_of_nonneg_of_nonpos h0 (by linarith)
    exact .inr ⟨by linarith, by rcases hm' with h | h <;> linarith⟩
  | upper ξ m hx hu' hm0 hmd =>
    subst hx hu'
    have hle : ξ + m' ≤ ξ + m := coe_le.1 hw.2
    have hcd : 0 ≤ c * d := mul_nonneg h0 (by linarith)
    exact .inl ⟨by rcases hm' with h | h <;> linarith, by linarith⟩
  | inside =>
    rcases le_total 0 d with hd | hd
    · have := mul_le_of_le_one_left hd h1
      have := mul_nonneg h0 hd
      exact .inl ⟨by rcases hm' with h | h <;> linarith, by rcases hm' with h | h <;> linarith⟩
    · have : d ≤ c * d := by nlinarith
      have := mul_nonpos_of_nonneg_of_nonpos h0 hd
      exact .inr ⟨by rcases hm' with h | h <;> linarith, by rcases hm' with h | h <;> linarith⟩

end Moved

namespace Box

variable {b : Box Exact n} {x : Vector Exact n}

/-! ## Projections -/

theorem project_of_contains (hx : b.Contains x) : b.project x = x :=
  ext_get fun i => by
    obtain ⟨hl, hu⟩ := hx i
    rw [get_project, greater_of_le hl, lesser_of_le hu]

theorem contains_project (hb : ∀ i, b.lower.get i ≤ b.upper.get i) (hx : ∀ i, x.get i ≠ .nan) :
    b.Contains (b.project x) := by
  intro i
  have hl := hb i
  have hll := Exact.le_refl_of_ne (Exact.left_ne_nan hl)
  have huu := Exact.le_refl_of_ne (Exact.right_ne_nan hl)
  rw [get_project]
  have hg : b.lower.get i ≤ greater (x.get i) (b.lower.get i) ∧
      greater (x.get i) (b.lower.get i) ≠ .nan := by
    unfold greater
    split
    · exact ⟨‹_›, hx i⟩
    · rw [if_pos (Exact.le_of_lt' ((Exact.not_le_iff (Exact.left_ne_nan hl) (hx i)).1 ‹_›))]
      exact ⟨hll, Exact.left_ne_nan hl⟩
  generalize greater (x.get i) (b.lower.get i) = y at hg ⊢
  unfold lesser
  split
  · exact ⟨hg.1, ‹_›⟩
  · rw [if_pos (Exact.le_of_lt' ((Exact.not_le_iff hg.2 (Exact.right_ne_nan hl)).1 ‹_›))]
    exact ⟨hl, huu⟩

/-- In a box with a real point the projection of a real vector is real. -/
theorem exists_project {c : Vector ℝ n} (hc : b.Contains c) (y : Vector ℝ n) :
    ∃ x : Vector ℝ n, b.project y = x := by
  have h : ∀ i, ∃ r : ℝ, (b.project y).get i = r := by
    intro i
    obtain ⟨hl, hu⟩ := hc i
    rw [get_project, Exact.get_coe]
    rw [Exact.get_coe] at hl hu
    generalize b.lower.get i = l at hl
    generalize b.upper.get i = u at hu
    -- the real point keeps the bounds off the wrong infinities
    have hg : ∃ r : ℝ, greater (y.get i : Exact) l = r := by
      cases l with
      | real a => exact ⟨_, (Exact.coe_greater _ a).symm⟩
      | bot => exact ⟨_, greater_of_le trivial⟩
      | top | nan => exact hl.elim
    obtain ⟨r, hr⟩ := hg
    rw [hr]
    cases u with
    | real a => exact ⟨_, (Exact.coe_lesser r a).symm⟩
    | top => exact ⟨_, lesser_of_le trivial⟩
    | bot | nan => exact hu.elim
  choose x hx using h
  exact ⟨.ofFn x, ext_get fun i => by rw [hx, Exact.get_coe, get_ofFn]⟩

@[simp] theorem lower_unbounded (i : Fin n) : (unbounded : Box Exact n).lower.get i = .bot := get_replicate _ i

@[simp] theorem upper_unbounded (i : Fin n) : (unbounded : Box Exact n).upper.get i = .top := get_replicate _ i

theorem contains_unbounded (x : Vector ℝ n) : (unbounded : Box Exact n).Contains x := by
  intro i
  rw [lower_unbounded, upper_unbounded, Exact.get_coe]
  exact ⟨trivial, trivial⟩

theorem contains_coe_iff {l u x : Vector ℝ n} :
    (⟨l, u⟩ : Box Exact n).Contains x ↔ ∀ i, l.get i ≤ x.get i ∧ x.get i ≤ u.get i := by
  simp only [Contains, Exact.get_coe, Exact.coe_le]

theorem free_coe_iff {l u x : Vector ℝ n} {i : Fin n} :
    ((⟨l, u⟩ : Box Exact n).free x).get i = true ↔ l.get i < x.get i ∧ x.get i < u.get i := by
  simp only [get_free, decide_eq_true_eq, Exact.get_coe, Exact.coe_lt]

/-! ## Paths -/

/-- What the path along `w` moves the coordinates by at `t`. -/
noncomputable def shift (b : Box Exact n) (x : Vector Exact n) (w : Vector ℝ n) (t : ℝ) : Vector ℝ n :=
  .ofFn fun i => (b.move x w t i).toReal

theorem moved_shift (hx : b.Contains x) (w : Vector ℝ n) (t : ℝ) (i : Fin n) :
    Moved (b.lower.get i) (x.get i) (b.upper.get i) (t * w.get i) ((b.shift x w t).get i) ∧
      b.move x w t i = (b.shift x w t).get i := by
  obtain ⟨m, hm, heq⟩ := Moved.of_clip (hx i).1 (hx i).2 (t * w.get i)
  have hmove : b.move x w t i = m := by
    rw [← heq, Exact.coe_mul, ← Exact.get_coe]; rfl
  have hshift : (b.shift x w t).get i = m := by
    rw [shift, get_ofFn, hmove, Exact.toReal_coe]
  rw [hshift]
  exact ⟨hm, hmove⟩

theorem displacement_eq (hx : b.Contains x) (w : Vector ℝ n) (t : ℝ) :
    b.displacement x w t = (b.shift x w t : Vector Exact n) :=
  ext_get fun i => by
    rw [get_displacement, Exact.get_coe, (moved_shift hx w t i).2]

theorem contains_add_shift (hx : b.Contains x) (w : Vector ℝ n) (t : ℝ) :
    b.Contains (x + (b.shift x w t : Vector Exact n)) := by
  intro i
  rw [get_add, Exact.get_coe]
  exact (moved_shift hx w t i).1.within (hx i).1 (hx i).2

/-- The path is the projection of the ray. -/
theorem project_add_hmul (hx : b.Contains x) (w : Vector ℝ n) (t : ℝ) :
    b.project (x + (t : Exact) * (w : Vector Exact n)) = x + (b.shift x w t : Vector Exact n) :=
  ext_get fun i => by
    rw [get_project, get_add, get_add, get_hmul, Exact.get_coe, Exact.get_coe, ← Exact.coe_mul]
    exact (moved_shift hx w t i).1.clip (hx i).1 (hx i).2

theorem shift_mem_uIcc (hx : b.Contains x) (w : Vector ℝ n) (t : ℝ) (i : Fin n) :
    (b.shift x w t).get i ∈ Set.uIcc 0 (t * w.get i) :=
  (moved_shift hx w t i).1.mem_uIcc

theorem norm_shift_le (hx : b.Contains x) (w : Vector ℝ n) (t : ℝ) : norm (b.shift x w t) ≤ |t| * norm w := by
  rw [← norm_smul]
  refine norm_le_norm_of_abs_le fun i => ?_
  rw [get_smul]
  simpa using Set.abs_sub_left_of_mem_uIcc (shift_mem_uIcc hx w t i)

/-- The path never turns back: farther along it no coordinate has moved less. -/
theorem shift_mem_uIcc_of_le (hx : b.Contains x) (w : Vector ℝ n) {t t' : ℝ} (h0 : 0 ≤ t) (h : t ≤ t') (i : Fin n) :
    (b.shift x w t).get i ∈ Set.uIcc 0 ((b.shift x w t').get i) := by
  obtain ⟨c, hc0, hc1, rfl⟩ : ∃ c, 0 ≤ c ∧ c ≤ 1 ∧ t = c * t' := by
    rcases h0.eq_or_lt with rfl | ht
    · exact ⟨0, le_rfl, zero_le_one, (zero_mul t').symm⟩
    · have ht' := ht.trans_le h
      exact ⟨t / t', (div_pos ht ht').le, (div_le_one ht').2 h, (div_mul_cancel₀ t ht'.ne').symm⟩
  have hm := (moved_shift hx w (c * t') i).1
  rw [mul_assoc] at hm
  exact (moved_shift hx w t' i).1.mem_uIcc_of_le hm (hx i).1 (hx i).2 hc0 hc1

theorem shift_of_inside (hx : b.Contains x) {w : Vector ℝ n} {t : ℝ} {i : Fin n}
    (hl : b.lower.get i ≤ x.get i + (t * w.get i : ℝ)) (hu : x.get i + (t * w.get i : ℝ) ≤ b.upper.get i) :
    (b.shift x w t).get i = t * w.get i := by
  obtain ⟨hm, -⟩ := moved_shift hx w t i
  generalize (b.shift x w t).get i = m at hm
  cases hm with
  | lower ξ m hξ hm h1 =>
    rw [hξ, hm, ← Exact.coe_add, Exact.coe_le] at hl
    linarith
  | upper ξ m hξ hm _ h1 =>
    rw [hξ, hm, ← Exact.coe_add, Exact.coe_le] at hu
    linarith
  | inside => rfl

/-- A coordinate sent to its upper bound or beyond ends there. -/
theorem shift_of_upper_le (hx : b.Contains x) {w : Vector ℝ n} {t ξ m : ℝ} {i : Fin n} (hξ : x.get i = ξ)
    (hu : b.upper.get i = (ξ + m : ℝ)) (h : m ≤ t * w.get i) : (b.shift x w t).get i = m := by
  obtain ⟨hm, -⟩ := moved_shift hx w t i
  have h0 : (ξ : Exact) ≤ (ξ + m : ℝ) := hξ ▸ hu ▸ (hx i).2
  rw [Exact.coe_le] at h0
  rw [hξ, hu] at hm
  generalize (b.shift x w t).get i = m' at hm
  cases hm with
  | lower _ _ _ _ h1 h2 => linarith
  | upper ξ' _ hξ' hu' =>
    have := Exact.coe_inj.1 hξ'
    have := Exact.coe_inj.1 hu'
    linarith
  | inside _ h1 =>
    rw [← Exact.coe_add, Exact.coe_le] at h1
    linarith

/-- A ray that ends in the box is not bent. -/
theorem shift_of_contains (hx : b.Contains x) {w : Vector ℝ n} {t : ℝ}
    (h : b.Contains (x + ((t • w : Vector ℝ n) : Vector Exact n))) : b.shift x w t = t • w :=
  ext_get fun i => by
    have hi := h i
    rw [get_add, Exact.get_coe, get_smul] at hi
    rw [get_smul]
    exact shift_of_inside hx hi.1 hi.2

theorem shift_eq_zero (hx : b.Contains x) {w : Vector ℝ n} {i : Fin n} (hw : w.get i = 0) (t : ℝ) :
    (b.shift x w t).get i = 0 := by
  have h := shift_mem_uIcc hx w t i
  rw [hw, mul_zero, Set.uIcc_self] at h
  exact h

theorem shift_zero (hx : b.Contains x) (t : ℝ) : b.shift x 0 t = 0 :=
  ext_get fun i => by rw [get_zero, shift_eq_zero hx (get_zero i)]

end Box

end BoxNewton
