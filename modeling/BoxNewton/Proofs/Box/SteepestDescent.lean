/-
The path of steepest descent from a point of the box. Its slope is never positive, and zero only where it
does not move, which from a real point is where no part of the gradient counts (`descend_eq_zero_iff`).
Farther along the path steps are longer and slopes steeper. Close to a real point, measured by the room
that the box leaves downhill (`Margin`), the path is the ray along the part of the gradient that counts
(`Margin.descend_eq`).
-/
import BoxNewton.Proofs.Box.Path
import BoxNewton.Proofs.Box.Stationarity
import BoxNewton.Proofs.Real.Model

namespace BoxNewton

variable {n : ℕ}

namespace Box

/-! ## The whole path -/

section Path

variable {b : Box Exact n} {x : Vector Exact n}

/-- What the path of steepest descent moves the coordinates by. -/
noncomputable def descend (b : Box Exact n) (x : Vector Exact n) (g : Vector ℝ n) (t : ℝ) : Vector ℝ n :=
  b.shift x g (-t)

/-- Steepest descent goes along the negative gradient. -/
theorem descend_eq_shift_neg (b : Box Exact n) (x : Vector Exact n) (g : Vector ℝ n) (t : ℝ) :
    b.descend x g t = b.shift x (-g) t := by
  have hd : ∀ i, ((-t : ℝ) : Exact) * (g : Vector Exact n).get i =
      (t : Exact) * ((-g : Vector ℝ n) : Vector Exact n).get i :=
    fun i => by rw [Exact.get_coe, Exact.get_coe, ← Exact.coe_mul, ← Exact.coe_mul, get_neg, neg_mul, mul_neg]
  unfold descend shift
  simp only [move, hd]

theorem mul_descend_nonpos (hx : b.Contains x) (g : Vector ℝ n) {t : ℝ} (ht : 0 ≤ t) (i : Fin n) :
    g.get i * (b.descend x g t).get i ≤ 0 := by
  have hm := Set.mem_uIcc.1 (shift_mem_uIcc hx g (-t) i)
  unfold descend
  rcases le_total 0 (g.get i) with hg | hg
  · have : -t * g.get i ≤ 0 := by nlinarith
    exact mul_nonpos_of_nonneg_of_nonpos hg (by rcases hm with h | h <;> linarith)
  · have : 0 ≤ -t * g.get i := by nlinarith
    exact mul_nonpos_of_nonpos_of_nonneg hg (by rcases hm with h | h <;> linarith)

theorem dot_descend_nonpos (hx : b.Contains x) (g : Vector ℝ n) {t : ℝ} (ht : 0 ≤ t) :
    dot g (b.descend x g t) ≤ 0 := by
  rw [dot_eq_sum]
  exact Finset.sum_nonpos fun i _ => mul_descend_nonpos hx g ht i

/-- A path with slope zero does not move. -/
theorem descend_eq_zero (hx : b.Contains x) {g : Vector ℝ n} {t : ℝ} (ht : 0 ≤ t)
    (h : dot g (b.descend x g t) = 0) : b.descend x g t = 0 := by
  rw [dot_eq_sum, Finset.sum_eq_zero_iff_of_nonpos fun i _ => mul_descend_nonpos hx g ht i] at h
  refine ext_get fun i => ?_
  rw [get_zero]
  rcases mul_eq_zero.1 (h i (Finset.mem_univ i)) with hg | hm
  · have := shift_mem_uIcc hx g (-t) i
    rw [hg, mul_zero, Set.uIcc_self] at this
    exact this
  · exact hm

/-- Farther along the path no coordinate has moved less. -/
theorem descend_mem_uIcc (hx : b.Contains x) (g : Vector ℝ n) {t t' : ℝ} (ht : 0 < t) (h : t ≤ t') (i : Fin n) :
    (b.descend x g t).get i ∈ Set.uIcc 0 ((b.descend x g t').get i) := by
  rw [descend_eq_shift_neg, descend_eq_shift_neg]
  exact shift_mem_uIcc_of_le hx (-g) ht.le h i

/-- Farther along the path the slope is no greater. -/
theorem dot_descend_anti (hx : b.Contains x) (g : Vector ℝ n) {t t' : ℝ} (ht : 0 < t) (h : t ≤ t') :
    dot g (b.descend x g t') ≤ dot g (b.descend x g t) := by
  rw [dot_eq_sum, dot_eq_sum]
  refine Finset.sum_le_sum fun i _ => ?_
  have hsign := mul_descend_nonpos hx g (ht.trans_le h).le i
  -- where the coordinate moves at `t'`, its gradient has the opposite sign
  rcases Set.mem_uIcc.1 (descend_mem_uIcc hx g ht h i) with ⟨h0, h1⟩ | ⟨h1, h0⟩
  · rcases h0.eq_or_lt with h0 | h0
    · rw [← h0, mul_zero]; exact hsign
    · have hg : g.get i ≤ 0 := by nlinarith
      exact mul_le_mul_of_nonpos_left h1 hg
  · rcases h0.eq_or_lt with h0 | h0
    · rw [h0, mul_zero]; exact hsign
    · have hg : 0 ≤ g.get i := by nlinarith
      exact mul_le_mul_of_nonneg_left h1 hg

/-- Farther along the path the step is no shorter. -/
theorem norm_descend_mono (hx : b.Contains x) (g : Vector ℝ n) {t t' : ℝ} (ht : 0 < t) (h : t ≤ t') :
    norm (b.descend x g t) ≤ norm (b.descend x g t') :=
  norm_le_norm_of_abs_le fun i => by
    simpa using Set.abs_sub_left_of_mem_uIcc (descend_mem_uIcc hx g ht h i)

theorem norm_descend_le (hx : b.Contains x) (g : Vector ℝ n) {t : ℝ} (ht : 0 ≤ t) :
    norm (b.descend x g t) ≤ t * norm g := by
  have hle := norm_shift_le hx g (-t)
  rwa [abs_neg, abs_of_nonneg ht] at hle

/-- Along the path the slope pays for the length of the step. -/
theorem dot_self_descend_le (hx : b.Contains x) (g : Vector ℝ n) (t : ℝ) :
    dot (b.descend x g t) (b.descend x g t) ≤ -(t * dot g (b.descend x g t)) := by
  rw [← neg_mul, dot_eq_sum, dot_eq_sum, Finset.mul_sum]
  refine Finset.sum_le_sum fun i _ => ?_
  have hm := Set.mem_uIcc.1 (shift_mem_uIcc hx g (-t) i)
  unfold descend
  rw [← mul_assoc]
  rcases hm with ⟨h0, h1⟩ | ⟨h1, h0⟩
  · exact mul_le_mul_of_nonneg_right h1 h0
  · exact mul_le_mul_of_nonpos_right h1 h0

/-- Where curvatures stay below `L`, the model falls along the path by nearly what its slope says. -/
theorem value_descend_le (hx : b.Contains x) {A : Vector ℝ n →ₗ[ℝ] Vector ℝ n} {L : ℝ} (hL : IsCurvatureBound A L)
    (hL0 : 0 ≤ L) (g : Vector ℝ n) (t : ℝ) :
    (⟨g, A⟩ : Model ℝ n).value (b.descend x g t) ≤ (1 - t * L / 2) * dot g (b.descend x g t) := by
  have hcurv := hL (b.descend x g t)
  have hlen := mul_le_mul_of_nonneg_left (dot_self_descend_le hx g t) hL0
  rw [norm_sq] at hcurv
  rw [Model.value_eq]
  show dot (b.descend x g t) (A (b.descend x g t)) / 2 + dot g (b.descend x g t) ≤ _
  linarith

end Path

/-! ## Stationary points -/

/-- The path from a real point moves at once, unless no part of the gradient counts. -/
theorem descend_eq_zero_iff {b : Box Exact n} {x g : Vector ℝ n} (hx : b.Contains x) {t : ℝ} (ht : 0 < t) :
    b.descend x g t = 0 ↔ b.effective x g = 0 := by
  constructor
  · intro h
    refine ext_get fun i => ?_
    obtain ⟨hm, -⟩ := moved_shift hx g (-t) i
    have hzero : (b.shift x g (-t)).get i = 0 := by
      show (b.descend x g t).get i = 0
      rw [h, get_zero]
    rw [hzero, Exact.get_coe] at hm
    rw [get_zero]
    -- a coordinate that counts is sent off, and no bound stops it at the start
    by_contra hne
    generalize hr : (0 : ℝ) = r at hm
    rcases lt_or_gt_of_ne hne with hi | hi
    · obtain ⟨hg, hup⟩ := (effective_neg_iff hx).1 hi
      have hd : 0 < -t * g.get i := mul_pos_of_neg_of_neg (neg_lt_zero.2 ht) hg
      cases hm with
      | lower ξ m _ _ hdm hm0 => linarith
      | upper ξ m hξ hu =>
        rw [hξ, hu, ← hr, add_zero] at hup
        exact lt_irrefl ξ (Exact.coe_lt.1 hup)
      | inside => linarith
    · obtain ⟨hg, hlow⟩ := (effective_pos_iff hx).1 hi
      have hd : -t * g.get i < 0 := mul_neg_of_neg_of_pos (neg_lt_zero.2 ht) hg
      cases hm with
      | lower ξ m hξ hl =>
        rw [hξ, hl, ← hr, add_zero] at hlow
        exact lt_irrefl ξ (Exact.coe_lt.1 hlow)
      | upper ξ m _ _ hm0 hmd => linarith
      | inside => linarith
  · intro h
    have hin : b.Contains (x + b.descend x g t : Vector ℝ n) := by
      rw [Exact.coe_add_vector]
      exact contains_add_shift hx g (-t)
    have hslope := dot_effective_le (g := g) hx hin
    rw [h, dot_zero_left, add_sub_cancel_left] at hslope
    exact descend_eq_zero hx ht.le (le_antisymm (dot_descend_nonpos hx g ht.le) hslope)

/-- Where a part of the gradient counts, the path leads downhill. -/
theorem dot_descend_neg {b : Box Exact n} {x g : Vector ℝ n} (hx : b.Contains x) (hcounts : b.effective x g ≠ 0)
    {t : ℝ} (ht : 0 < t) : dot g (b.descend x g t) < 0 := by
  refine (dot_descend_nonpos hx g ht.le).lt_of_ne fun hzero => hcounts ?_
  exact (descend_eq_zero_iff hx ht).1 (descend_eq_zero hx ht.le hzero)

/-! ## Room downhill -/

section Margin

variable {b : Box Exact n} {x g : Vector ℝ n} {κ : ℝ}

/-- No entry of the gradient that counts is below `κ`, and where it counts there is room for a move
downhill by `κ`. -/
structure Margin (b : Box Exact n) (x g : Vector ℝ n) (κ : ℝ) : Prop where
  entry : ∀ i, (b.effective x g).get i ≠ 0 → κ ≤ |(b.effective x g).get i|
  upper : ∀ i, (b.effective x g).get i < 0 → ((x.get i + κ : ℝ) : Exact) ≤ b.upper.get i
  lower : ∀ i, 0 < (b.effective x g).get i → b.lower.get i ≤ ((x.get i - κ : ℝ) : Exact)

theorem exists_margin (hx : b.Contains x) (g : Vector ℝ n) : ∃ κ > 0, b.Margin x g κ := by
  have hroom : ∀ i, ∃ r > 0, ∀ κ ≤ r, ((b.effective x g).get i ≠ 0 → κ ≤ |(b.effective x g).get i|) ∧
      ((b.effective x g).get i < 0 → ((x.get i + κ : ℝ) : Exact) ≤ b.upper.get i) ∧
      (0 < (b.effective x g).get i → b.lower.get i ≤ ((x.get i - κ : ℝ) : Exact)) := by
    intro i
    rcases lt_trichotomy ((b.effective x g).get i) 0 with hi | hi | hi
    · obtain ⟨r, hr, hle⟩ := Exact.exists_add_le ((effective_neg_iff hx).1 hi).2
      refine ⟨min |(b.effective x g).get i| r, lt_min (abs_pos.2 hi.ne) hr, fun κ h => ?_⟩
      exact ⟨fun _ => h.trans (min_le_left _ _), fun _ => hle κ (h.trans (min_le_right _ _)),
        fun h' => absurd h' hi.not_gt⟩
    · exact ⟨1, one_pos, fun κ _ => ⟨fun h => absurd hi h, fun h => absurd hi h.ne, fun h => absurd hi h.ne'⟩⟩
    · obtain ⟨r, hr, hle⟩ := Exact.exists_le_sub ((effective_pos_iff hx).1 hi).2
      refine ⟨min |(b.effective x g).get i| r, lt_min (abs_pos.2 hi.ne') hr, fun κ h => ?_⟩
      exact ⟨fun _ => h.trans (min_le_left _ _), fun h' => absurd h' hi.not_gt,
        fun _ => hle κ (h.trans (min_le_right _ _))⟩
  choose r hr h using hroom
  -- finitely many positive numbers have a positive lower bound
  obtain ⟨⟨κ, hκ⟩, hle⟩ := (Set.finite_range fun i => (⟨r i, hr i⟩ : Set.Ioi (0 : ℝ))).bddBelow
  have h' := fun i => h i κ (hle ⟨i, rfl⟩)
  exact ⟨κ, hκ, fun i => (h' i).1, fun i => (h' i).2.1, fun i => (h' i).2.2⟩

theorem Margin.le_norm (h : b.Margin x g κ) (hne : b.effective x g ≠ 0) : κ ≤ norm (b.effective x g) := by
  obtain ⟨i, hi⟩ : ∃ i, (b.effective x g).get i ≠ 0 := by
    by_contra hno
    push Not at hno
    exact hne (ext_get fun i => by rw [hno i, get_zero])
  exact (h.entry i hi).trans (abs_get_le_norm _ i)

/-- A move downhill by no more than the margin stays within the bounds. -/
theorem Margin.within (h : b.Margin x g κ) (hx : b.Contains x) {i : Fin n} (hi : (b.effective x g).get i ≠ 0)
    {r : ℝ} (hr : |r| ≤ κ) (hdown : r * (b.effective x g).get i ≤ 0) :
    b.lower.get i ≤ ((x.get i + r : ℝ) : Exact) ∧ ((x.get i + r : ℝ) : Exact) ≤ b.upper.get i := by
  obtain ⟨hl, hu⟩ := hx i
  rw [Exact.get_coe] at hl hu
  obtain ⟨hr1, hr2⟩ := abs_le.1 hr
  rcases lt_or_gt_of_ne hi with hi | hi
  · have h0 : 0 ≤ r := by nlinarith
    exact ⟨Exact.le_trans hl (Exact.coe_le.2 (by linarith)),
      Exact.le_trans (Exact.coe_le.2 (by linarith)) (h.upper i hi)⟩
  · have h0 : r ≤ 0 := by nlinarith
    exact ⟨Exact.le_trans (h.lower i hi) (Exact.coe_le.2 (by linarith)),
      Exact.le_trans (Exact.coe_le.2 (by linarith)) hu⟩

/-- A path of steepest descent shorter than the margin is the ray along the part of the gradient that
counts. -/
theorem Margin.descend_eq (h : b.Margin x g κ) (hx : b.Contains x) {t : ℝ} (ht : 0 < t)
    (hs : norm (b.descend x g t) < κ) : b.descend x g t = -t • b.effective x g := by
  refine ext_get fun i => ?_
  obtain ⟨hm1, hm2⟩ := abs_lt.1 ((abs_get_le_norm (b.descend x g t) i).trans_lt hs)
  have hin := contains_add_shift hx g (-t) i
  obtain ⟨hmoved, -⟩ := moved_shift hx g (-t) i
  rw [get_smul]
  rw [get_add, Exact.get_coe, Exact.get_coe, ← Exact.coe_add] at hin
  rw [Exact.get_coe] at hmoved
  unfold descend at hm1 hm2 ⊢
  generalize (b.shift x g (-t)).get i = m at hm1 hm2 hmoved hin ⊢
  by_cases hi : (b.effective x g).get i = 0
  · obtain ⟨hupper, hlower⟩ := blocked_of_effective_eq_zero hx hi
    have hmem := Set.mem_uIcc.1 hmoved.mem_uIcc
    rw [hi, mul_zero]
    rcases lt_trichotomy (g.get i) 0 with hg | hg | hg
    · have := Exact.coe_le.1 (Exact.le_trans hin.2 (hupper hg))
      rcases hmem with hmem | hmem <;> nlinarith
    · rw [hg, mul_zero] at hmem
      rcases hmem with hmem | hmem <;> linarith
    · have := Exact.coe_le.1 (Exact.le_trans (hlower hg) hin.1)
      rcases hmem with hmem | hmem <;> nlinarith
  · rw [effective_eq_of_ne_zero hi]
    -- a bound that is reached is at least the margin away
    cases hmoved with
    | inside => rfl
    | lower ξ m hξ hl hd hm0 =>
      have hg : 0 < g.get i := by nlinarith
      have hle := h.lower i (by rwa [effective_eq_of_ne_zero hi])
      rw [hl, ← Exact.coe_inj.1 hξ, Exact.coe_le] at hle
      linarith
    | upper ξ m hξ hu hm0 hd =>
      have hg : g.get i < 0 := by nlinarith
      have hle := h.upper i (by rwa [effective_eq_of_ne_zero hi])
      rw [hu, ← Exact.coe_inj.1 hξ, Exact.coe_le] at hle
      linarith

/-- After such a step the gradient on the free coordinates is the part that counted before. -/
theorem Margin.restrict_free (h : b.Margin x g κ) (hx : b.Contains x) {t : ℝ} (ht : 0 < t)
    (hs : norm (-t • b.effective x g) < κ) :
    (b.free (x + (-t • b.effective x g : Vector ℝ n) : Vector ℝ n)).restrict g = b.effective x g := by
  refine ext_get fun i => ?_
  obtain ⟨hl, hu⟩ := hx i
  obtain ⟨hm1, hm2⟩ := abs_lt.1 ((abs_get_le_norm _ i).trans_lt hs)
  rw [Exact.get_coe] at hl hu
  rw [get_smul] at hm1 hm2
  rw [Mask.get_restrict, get_free, Exact.get_coe, get_add, get_smul]
  rcases lt_trichotomy ((b.effective x g).get i) 0 with hi | hi | hi
  · rw [if_pos, effective_eq_of_ne_zero hi.ne]
    exact decide_eq_true ⟨Exact.lt_of_le_of_lt' hl (Exact.coe_lt.2 (by nlinarith)),
      Exact.lt_of_lt_of_le' (Exact.coe_lt.2 (by linarith)) (h.upper i hi)⟩
  · -- the coordinate has not moved
    rw [hi, mul_zero, add_zero]
    split
    · rw [← effective_eq_of_free hx (by rwa [get_free, Exact.get_coe]), hi]
    · rfl
  · rw [if_pos, effective_eq_of_ne_zero hi.ne']
    exact decide_eq_true ⟨Exact.lt_of_le_of_lt' (h.lower i hi) (Exact.coe_lt.2 (by linarith)),
      Exact.lt_of_lt_of_le' (Exact.coe_lt.2 (by nlinarith)) hu⟩

end Margin

end Box

end BoxNewton
