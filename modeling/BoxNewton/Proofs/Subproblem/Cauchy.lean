/-
The Cauchy step on real data. Whatever the limit on trials is, the step has a positive length and
keeps to the box. Unless the limit stopped the search downwards, it stays in the trust region and
decreases the model (`CauchyFound`), for any Hessian: what is accepted has a negative slope, as a path of
steepest descent with slope zero does not move.
-/
import BoxNewton.Proofs.Box.SteepestDescent
import BoxNewton.Proofs.Loop
import BoxNewton.Proofs.Real.Model
import BoxNewton.Proofs.Subproblem.Basic
import BoxNewton.Subproblem.Cauchy

namespace BoxNewton

variable {n : ℕ}

namespace Subproblem

/-- The search downwards was not stopped by its limit on trials. -/
def CauchyUncapped (p : Subproblem Exact n) (length : Exact) : Prop :=
  p.Overlong (p.cauchyTrial length) → (p.shortenWhile length).state.searching = false

variable {p : Subproblem Exact n} {M : Model ℝ n}

theorem cauchyTrial_eq (h : p.Extends M) (t : ℝ) :
    p.cauchyTrial t = ⟨p.box.descend p.base M.gradient t, M.value (p.box.descend p.base M.gradient t),
      M.slope (p.box.descend p.base M.gradient t)⟩ := by
  unfold cauchyTrial
  rw [h.model.gradient, ← Exact.coe_neg]
  exact h.trial M.gradient (-t)

/-! ## The two searches -/

theorem tenth_mul (t : ℝ) : 0.1 * (t : Exact) = ((t / 10 : ℝ) : Exact) := by
  rw [Exact.ofScientific_eq, ← Exact.coe_mul, Exact.coe_inj]
  norm_num; ring

/-- What the search downwards makes of a real length. -/
theorem shorten_of_length {s : CauchySearch Exact} {t : ℝ} (hs : s.length = t) :
    p.shorten s = ⟨(t / 10 : ℝ), (t / 10 : ℝ), !decide (p.Within (p.cauchyTrial (t / 10 : ℝ)) ∧
      p.rule.AcceptsStrictly (p.cauchyTrial (t / 10 : ℝ)))⟩ := by
  simp only [Subproblem.shorten, hs, tenth_mul]

/-- The search downwards stands at the length `t`. It ends with a trial in the trust region that decreases
the model strictly enough. -/
structure Shortened (p : Subproblem Exact n) (s : CauchySearch Exact) (t : ℝ) : Prop where
  length_eq : s.length = t
  best_eq : s.best = t
  pos : 0 < t
  accepted : s.searching = false → p.Within (p.cauchyTrial t) ∧ p.rule.AcceptsStrictly (p.cauchyTrial t)

theorem Shortened.shorten {s : CauchySearch Exact} {t : ℝ} (h : Shortened p s t) :
    Shortened p (p.shorten s) (t / 10) := by
  rw [shorten_of_length h.length_eq]
  exact ⟨rfl, rfl, by linarith [h.pos], fun hs => by simpa using hs⟩

theorem exists_shortened (p : Subproblem Exact n) {t : ℝ} (ht : 0 < t) :
    ∃ t', Shortened p (p.shortenWhile t).state t' :=
  advanceWhile_induction (P := fun s => ∃ t', Shortened p s t') (fun _ ⟨_, h⟩ _ => ⟨_, h.shorten⟩) _
    ⟨t, rfl, rfl, ht, fun hs => by cases hs⟩

theorem ten_mul (t : ℝ) : 10.0 * (t : Exact) = ((10 * t : ℝ) : Exact) := by
  rw [Exact.ofScientific_eq, ← Exact.coe_mul, Exact.coe_inj]
  norm_num

/-- What the search upwards makes of a real length. -/
theorem lengthen_of_length {s : CauchySearch Exact} {t : ℝ} (hs : s.length = t) :
    p.lengthen s = ⟨(10 * t : ℝ), if p.Within (p.cauchyTrial (10 * t : ℝ)) ∧
      p.rule.Accepts (p.cauchyTrial (10 * t : ℝ)) then (10 * t : ℝ) else s.best,
      decide (p.Within (p.cauchyTrial (10 * t : ℝ)))⟩ := by
  simp only [Subproblem.lengthen, hs, ten_mul]

/-- The search upwards from `t₀` stands at the length `t`, and `b` is the longest that has passed. -/
structure Lengthened (p : Subproblem Exact n) (t₀ : ℝ) (s : CauchySearch Exact) (t b : ℝ) : Prop where
  length_eq : s.length = t
  best_eq : s.best = b
  start_le : t₀ ≤ t
  start_le_best : t₀ ≤ b
  accepted : b = t₀ ∨ p.Within (p.cauchyTrial b) ∧ p.rule.Accepts (p.cauchyTrial b)

theorem Lengthened.lengthen {t₀ : ℝ} {s : CauchySearch Exact} {t b : ℝ} (h0 : 0 < t₀)
    (h : Lengthened p t₀ s t b) : ∃ b', Lengthened p t₀ (p.lengthen s) (10 * t) b' := by
  have ht := h.start_le
  rw [lengthen_of_length h.length_eq]
  by_cases hp : p.Within (p.cauchyTrial (10 * t : ℝ)) ∧ p.rule.Accepts (p.cauchyTrial (10 * t : ℝ))
  · exact ⟨10 * t, rfl, if_pos hp, by linarith, by linarith, .inr hp⟩
  · exact ⟨b, rfl, (if_neg hp).trans h.best_eq, by linarith, h.start_le_best, h.accepted⟩

theorem exists_lengthened (p : Subproblem Exact n) {t₀ : ℝ} (h0 : 0 < t₀) :
    ∃ t b, Lengthened p t₀ (p.lengthenWhile t₀).state t b :=
  advanceWhile_induction (P := fun s => ∃ t b, Lengthened p t₀ s t b)
    (fun _ ⟨_, _, h⟩ _ => ⟨_, h.lengthen h0⟩) _ ⟨t₀, t₀, rfl, rfl, le_rfl, le_rfl, .inl rfl⟩

/-- From a real length, whatever its sign, the search comes to a real one. -/
theorem exists_best (p : Subproblem Exact n) (t₀ : ℝ) : ∃ t : ℝ, (p.cauchySearch t₀).state.best = t := by
  let Real (s : CauchySearch Exact) : Prop := (∃ t : ℝ, s.length = t) ∧ ∃ t : ℝ, s.best = t
  have hstart : Real ⟨t₀, t₀, true⟩ := ⟨⟨t₀, rfl⟩, t₀, rfl⟩
  have hshorten : ∀ s, Real s → Real (p.shorten s) := fun s ⟨⟨t, ht⟩, _⟩ => by
    rw [shorten_of_length ht]
    exact ⟨⟨_, rfl⟩, _, rfl⟩
  have hlengthen : ∀ s, Real s → Real (p.lengthen s) := fun s ⟨⟨t, ht⟩, hb⟩ => by
    rw [lengthen_of_length ht]
    refine ⟨⟨_, rfl⟩, ?_⟩
    split
    · exact ⟨_, rfl⟩
    · exact hb
  unfold cauchySearch
  split
  · exact (advanceWhile_induction (P := Real) (fun s hs _ => hshorten s hs) _ hstart).2
  · exact (advanceWhile_induction (P := Real) (fun s hs _ => hlengthen s hs) _ hstart).2

/-! ## The step found -/

/-- The Cauchy step found from the first length `t₀` has the length `t`. Unless the limit on trials
stopped the search downwards, it stays in the trust region and strictly decreases the model. -/
structure CauchyFound (p : Subproblem Exact n) (M : Model ℝ n) (t₀ : Exact) (t : ℝ) : Prop where
  length_eq : (p.cauchyStep t₀).length = t
  pos : 0 < t
  step_eq : (p.cauchyStep t₀).step = p.box.descend p.base M.gradient t
  within : ∀ ρ : ℝ, p.radius = ρ → p.CauchyUncapped t₀ → norm (p.box.descend p.base M.gradient t) ≤ ρ
  value_neg : ∀ μ : ℝ, p.rule.decrease = μ → 0 < μ → p.CauchyUncapped t₀ →
    M.value (p.box.descend p.base M.gradient t) < 0

theorem within_iff (h : p.Extends M) {ρ : ℝ} (hρ : p.radius = ρ) (t : ℝ) :
    p.Within (p.cauchyTrial t) ↔ norm (p.box.descend p.base M.gradient t) ≤ ρ := by
  rw [Within, cauchyTrial_eq h, ← Exact.coe_norm, hρ, Exact.coe_le]

theorem within_of_not_overlong (h : p.Extends M) {ρ : ℝ} (hρ : p.radius = ρ) {t : ℝ}
    (ho : ¬ p.Overlong (p.cauchyTrial t)) : norm (p.box.descend p.base M.gradient t) ≤ ρ := by
  have hno : ¬ p.radius ≤ norm (p.cauchyTrial t).step := fun hle => ho (.inl hle)
  rw [cauchyTrial_eq h, ← Exact.coe_norm, hρ, Exact.coe_le, not_le] at hno
  exact hno.le

theorem step_cauchyStep (h : p.Extends M) {t₀ : Exact} {t : ℝ} (ht : (p.cauchySearch t₀).state.best = t) :
    (p.cauchyStep t₀).step = p.box.descend p.base M.gradient t := by
  show p.box.displacement p.base p.model.gradient (-(p.cauchySearch t₀).state.best) = _
  rw [ht, h.model.gradient, ← Exact.coe_neg, Box.displacement_eq h.base]; rfl

theorem cauchyFound_of_overlong (h : p.Extends M) {t₀ : ℝ} (h0 : 0 < t₀) (ho : p.Overlong (p.cauchyTrial t₀)) :
    ∃ t, CauchyFound p M t₀ t := by
  obtain ⟨t, ht⟩ := exists_shortened p h0
  have hrun : p.cauchySearch t₀ = p.shortenWhile t₀ := if_pos ho
  rw [← hrun] at ht
  refine ⟨t, ht.best_eq, ht.pos, step_cauchyStep h ht.best_eq, fun ρ hρ hu => ?_, fun μ hμ hpos hu => ?_⟩
  · exact (within_iff h hρ t).1 (ht.accepted (hrun ▸ hu ho)).1
  · have ha := (ht.accepted (hrun ▸ hu ho)).2
    rw [cauchyTrial_eq h, SearchRule.acceptsStrictly_iff hμ] at ha
    exact ha.trans_le (mul_nonpos_of_nonneg_of_nonpos hpos.le (Box.dot_descend_nonpos h.base _ ht.pos.le))

theorem slope_neg_of_not_overlong (h : p.Extends M) {t₀ μ : ℝ} (h0 : 0 < t₀) (hμ : p.rule.decrease = μ)
    (ho : ¬ p.Overlong (p.cauchyTrial t₀)) :
    M.value (p.box.descend p.base M.gradient t₀) < μ * M.slope (p.box.descend p.base M.gradient t₀) ∧
      M.slope (p.box.descend p.base M.gradient t₀) < 0 := by
  have hfirst : ¬ p.rule.Refuses (p.cauchyTrial t₀) := fun hr => ho (.inr hr)
  rw [cauchyTrial_eq h, SearchRule.refuses_iff hμ, not_le] at hfirst
  -- with slope zero the trial does not move, and its value would be zero
  refine ⟨hfirst, lt_of_le_of_ne (Box.dot_descend_nonpos h.base _ h0.le) fun hz => ?_⟩
  rw [hz, Box.descend_eq_zero h.base h0.le hz, Model.value_eq, dot_zero_left, dot_zero_right] at hfirst
  simp at hfirst

theorem cauchyFound_of_not_overlong (h : p.Extends M) {t₀ : ℝ} (h0 : 0 < t₀)
    (ho : ¬ p.Overlong (p.cauchyTrial t₀)) :
    ∃ t, CauchyFound p M t₀ t := by
  obtain ⟨_, b, hb⟩ := exists_lengthened p h0
  have hrun : p.cauchySearch t₀ = p.lengthenWhile t₀ := if_neg ho
  rw [← hrun] at hb
  refine ⟨b, hb.best_eq, h0.trans_le hb.start_le_best, step_cauchyStep h hb.best_eq, fun ρ hρ _ => ?_,
    fun μ hμ hpos _ => ?_⟩
  · rcases hb.accepted with rfl | ⟨hw, -⟩
    · exact within_of_not_overlong h hρ ho
    · exact (within_iff h hρ b).1 hw
  · obtain ⟨hfirst, hslope⟩ := slope_neg_of_not_overlong h h0 hμ ho
    rcases hb.accepted with rfl | ⟨-, ha⟩
    · nlinarith
    · rw [cauchyTrial_eq h, SearchRule.accepts_iff hμ] at ha
      have : M.slope (p.box.descend p.base M.gradient b) ≤ M.slope (p.box.descend p.base M.gradient t₀) :=
        Box.dot_descend_anti h.base _ h0 hb.start_le_best
      nlinarith

theorem exists_cauchyFound (h : p.Extends M) {t₀ : ℝ} (h0 : 0 < t₀) : ∃ t, CauchyFound p M t₀ t := by
  by_cases ho : p.Overlong (p.cauchyTrial t₀)
  · exact cauchyFound_of_overlong h h0 ho
  · exact cauchyFound_of_not_overlong h h0 ho

end Subproblem

end BoxNewton
