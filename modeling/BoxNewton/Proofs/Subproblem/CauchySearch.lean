/-
The two searches for the Cauchy step, trial by trial. Downwards the first length whose step passes is taken
(`best_shortenWhile`), and with enough trials the last one passes in any case (`passes_of_short`). Upwards
the longest passing length is taken of those that were tried (`best_lengthenWhile`). Where that search stops
early nothing is lost (`pathStep_of_stopped`): on a path that never turns back no later step returns into the
trust region, and beyond the last breakpoint all steps are the same.
-/
import BoxNewton.Proofs.Box.Breakpoint
import BoxNewton.Proofs.Subproblem.Cauchy
import BoxNewton.Proofs.Subproblem.Representation

namespace BoxNewton

variable {n : ℕ}

namespace Subproblem

/-! ## Lengths that pass -/

/-- The way from the base point to the point of the projected path of steepest descent at `t`. -/
noncomputable def pathStep (p : Subproblem Exact n) (t : ℝ) : Vector Exact n :=
  p.box.project (p.base - (t : Exact) * p.model.gradient) - p.base

/-- The step at `t` stays in the trust region and decreases the model enough. -/
structure Passes (p : Subproblem Exact n) (t : ℝ) : Prop where
  within : norm (p.pathStep t) ≤ p.radius
  decrease : p.model.value (p.pathStep t) ≤ p.rule.decrease * p.model.slope (p.pathStep t)

/-- The step at `t` stays in the trust region and decreases the model by more than enough. -/
structure PassesStrictly (p : Subproblem Exact n) (t : ℝ) : Prop where
  within : norm (p.pathStep t) ≤ p.radius
  decrease : p.model.value (p.pathStep t) < p.rule.decrease * p.model.slope (p.pathStep t)

/-- The step at `t` stays off the boundary of the trust region and decreases the model by more than enough. -/
structure PassesInside (p : Subproblem Exact n) (t : ℝ) : Prop where
  inside : norm (p.pathStep t) < p.radius
  decrease : p.model.value (p.pathStep t) < p.rule.decrease * p.model.slope (p.pathStep t)

theorem PassesStrictly.passes {p : Subproblem Exact n} {t : ℝ} (h : p.PassesStrictly t) : p.Passes t :=
  ⟨h.within, Exact.le_of_lt' h.decrease⟩

theorem PassesInside.passes {p : Subproblem Exact n} {t : ℝ} (h : p.PassesInside t) : p.Passes t :=
  ⟨Exact.le_of_lt' h.inside, Exact.le_of_lt' h.decrease⟩

section Path

variable {p : Subproblem Exact n} {M : Model ℝ n} {x : Vector ℝ n} (h : p.Extends M) (hx : p.base = x)

include h hx

theorem pathStep_eq (t : ℝ) : p.pathStep t = p.box.descend p.base M.gradient t := by
  have hray : p.base - (t : Exact) * p.model.gradient =
      p.base + ((-t : ℝ) : Exact) * (M.gradient : Vector Exact n) := by
    rw [h.model.gradient, hx, ← Exact.coe_hmul_vector, ← Exact.coe_hmul_vector, ← Exact.coe_sub_vector,
      ← Exact.coe_add_vector, hmul_eq_smul, hmul_eq_smul, neg_smul, sub_eq_add_neg]
  rw [pathStep, hray, Box.project_add_hmul h.base, hx, ← Exact.coe_add_vector, ← Exact.coe_sub_vector,
    add_sub_cancel_left]; rfl

/-- A trial looks at the step on the path. -/
theorem cauchyTrial_eq_pathStep (t : ℝ) :
    p.cauchyTrial t = ⟨p.pathStep t, p.model.value (p.pathStep t), p.model.slope (p.pathStep t)⟩ := by
  rw [cauchyTrial_eq h, pathStep_eq h hx, h.model.value, h.model.slope]

theorem passes_iff (t : ℝ) :
    p.Passes t ↔ p.Within (p.cauchyTrial t) ∧ p.rule.Accepts (p.cauchyTrial t) := by
  rw [cauchyTrial_eq_pathStep h hx]
  exact ⟨fun ht => ⟨ht.within, ht.decrease⟩, fun ht => ⟨ht.1, ht.2⟩⟩

theorem passesStrictly_iff (t : ℝ) :
    p.PassesStrictly t ↔ p.Within (p.cauchyTrial t) ∧ p.rule.AcceptsStrictly (p.cauchyTrial t) := by
  rw [cauchyTrial_eq_pathStep h hx]
  exact ⟨fun ht => ⟨ht.within, ht.decrease⟩, fun ht => ⟨ht.1, ht.2⟩⟩

/-- Of real values each is overlong or passes inside. -/
theorem not_overlong_iff {ρ μ : ℝ} (hρ : p.radius = ρ) (hμ : p.rule.decrease = μ) (t : ℝ) :
    ¬ p.Overlong (p.cauchyTrial t) ↔ p.PassesInside t := by
  have hnorm : norm (p.pathStep t) < p.radius ↔ ¬ p.radius ≤ norm (p.pathStep t) := by
    rw [pathStep_eq h hx, hρ, ← Exact.coe_norm, Exact.coe_lt, Exact.coe_le, not_le]
  have hvalue : p.model.value (p.pathStep t) < p.rule.decrease * p.model.slope (p.pathStep t) ↔
      ¬ p.rule.decrease * p.model.slope (p.pathStep t) ≤ p.model.value (p.pathStep t) := by
    rw [pathStep_eq h hx, h.model.value, h.model.slope, hμ, ← Exact.coe_mul, Exact.coe_lt, Exact.coe_le, not_le]
  rw [cauchyTrial_eq_pathStep h hx]
  exact ⟨fun ho => ⟨hnorm.2 fun hle => ho (.inl hle), hvalue.2 fun hle => ho (.inr hle)⟩,
    fun ht => not_or.2 ⟨hnorm.1 ht.inside, hvalue.1 ht.decrease⟩⟩

theorem cauchySearch_of_inside {ρ μ t : ℝ} (hρ : p.radius = ρ) (hμ : p.rule.decrease = μ) (hfirst : p.PassesInside t) :
    p.cauchySearch t = p.lengthenWhile t :=
  if_neg ((not_overlong_iff h hx hρ hμ t).2 hfirst)

theorem cauchySearch_of_not_inside {ρ μ t : ℝ} (hρ : p.radius = ρ) (hμ : p.rule.decrease = μ)
    (hfirst : ¬ p.PassesInside t) : p.cauchySearch t = p.shortenWhile t :=
  if_pos (not_not.1 (mt (not_overlong_iff h hx hρ hμ t).1 hfirst))

end Path

/-! ## Downwards -/

section Search

variable {p : Subproblem Exact n} {M : Model ℝ n} {x : Vector ℝ n} (h : p.Extends M) (hx : p.base = x) (t₀ : ℝ)

include h hx

/-- The `j`-th trial downwards is made at `t₀ / 10 ^ j`, and the search ends with it if it passes. -/
theorem iterate_shorten (j : ℕ) :
    (p.shorten^[j] ⟨t₀, t₀, true⟩).length = (t₀ / 10 ^ j : ℝ) ∧
      (p.shorten^[j] ⟨t₀, t₀, true⟩).best = (t₀ / 10 ^ j : ℝ) ∧
      ((p.shorten^[j] ⟨t₀, t₀, true⟩).searching = false ↔ 1 ≤ j ∧ p.PassesStrictly (t₀ / 10 ^ j)) := by
  induction j with
  | zero => simp
  | succ j ih =>
    rw [Function.iterate_succ_apply', shorten_of_length ih.1, div_div, ← pow_succ]
    refine ⟨rfl, rfl, ?_⟩
    rw [Bool.not_eq_false', decide_eq_true_eq, passesStrictly_iff h hx]
    exact ⟨fun hp => ⟨Nat.le_add_left 1 j, hp⟩, fun hp => hp.2⟩

/-- The search downwards takes the first length that passes, and the last one tried if none does. -/
theorem best_shortenWhile : ∃ j, (p.shortenWhile t₀).state.best = (t₀ / 10 ^ j : ℝ) ∧
    (IsLeast {j | 1 ≤ j ∧ j ≤ p.rule.maxTrials.toNat ∧ p.PassesStrictly (t₀ / 10 ^ j)} j ∨
      j = p.rule.maxTrials.toNat ∧ ∀ i, 1 ≤ i → i ≤ p.rule.maxTrials.toNat → ¬ p.PassesStrictly (t₀ / 10 ^ i)) := by
  set K := (p.shortenWhile t₀).steps with hK
  have hstate : (p.shortenWhile t₀).state = p.shorten^[K] ⟨t₀, t₀, true⟩ := state_advanceWhile ..
  obtain ⟨-, hbest, hsearching⟩ := iterate_shorten h hx t₀ K
  have hle : K ≤ p.rule.maxTrials.toNat := steps_advanceWhile_le ..
  -- no trial before the last passed
  have hbefore : ∀ i, 1 ≤ i → i < K → ¬ p.PassesStrictly (t₀ / 10 ^ i) := fun i h1 hi hp => by
    have htest : (p.shorten^[i] ⟨t₀, t₀, true⟩).searching = true := test_iterate_of_lt hi
    rw [(iterate_shorten h hx t₀ i).2.2.2 ⟨h1, hp⟩] at htest
    cases htest
  refine ⟨K, by rw [hstate, hbest], ?_⟩
  by_cases hlast : 1 ≤ K ∧ p.PassesStrictly (t₀ / 10 ^ K)
  · refine .inl ⟨⟨hlast.1, hle, hlast.2⟩, fun i hi => ?_⟩
    by_contra hlt
    exact hbefore i hi.1 (not_le.1 hlt) hi.2.2
  · have hused : K = p.rule.maxTrials.toNat := hle.eq_or_lt.resolve_right fun hlt => by
      have htest : (p.shortenWhile t₀).state.searching = false := test_advanceWhile_of_lt hlt
      rw [hstate, hsearching] at htest
      exact hlast htest
    refine .inr ⟨hused, fun i h1 hi hp => ?_⟩
    rcases (hused ▸ hi : i ≤ K).eq_or_lt with rfl | hlt
    · exact hlast ⟨h1, hp⟩
    · exact hbefore i h1 hlt hp

/-- A search downwards of which a trial allowed passes was not stopped by the limit. -/
theorem cauchyUncapped_of_passes {j : ℕ} (h1 : 1 ≤ j) (hj : j ≤ p.rule.maxTrials.toNat)
    (hp : p.PassesStrictly (t₀ / 10 ^ j)) : p.CauchyUncapped t₀ := by
  intro _
  rcases (steps_advanceWhile_le CauchySearch.searching p.shorten p.rule.maxTrials.toNat ⟨t₀, t₀, true⟩).lt_or_eq
    with hlt | hused
  · exact test_advanceWhile_of_lt hlt
  have hstate : (p.shortenWhile t₀).state = p.shorten^[p.rule.maxTrials.toNat] ⟨t₀, t₀, true⟩ :=
    (state_advanceWhile ..).trans (by rw [hused])
  have hsearching := (iterate_shorten h hx t₀ j).2.2.2 ⟨h1, hp⟩
  rcases hj.eq_or_lt with rfl | hlt
  · rw [hstate, hsearching]
  · -- the search would not have gone on past the trial that passes
    have htest := test_iterate_of_lt (hlt.trans_eq hused.symm)
    rw [hsearching] at htest
    cases htest

section Short

variable {A : Vector ℝ n →ₗ[ℝ] Vector ℝ n} (hA : ∀ v, M.hessian v = A v) {L ρ μ t : ℝ} (hL : IsCurvatureBound A L)
  (hL0 : 0 ≤ L) (hρ : p.radius = ρ) (hμ : p.rule.decrease = μ)

include hA hL hL0

omit hx in
theorem value_le_slope : M.value (p.box.descend p.base M.gradient t) ≤
    (1 - t * L / 2) * M.slope (p.box.descend p.base M.gradient t) := by
  rw [Model.value_eq, hA]
  exact (Model.value_eq ⟨M.gradient, A⟩ _).symm.trans_le (Box.value_descend_le h.base hL hL0 M.gradient t)

include hρ hμ

/-- A length that is short against the radius and the curvatures passes. -/
theorem passes_of_short (ht : 0 ≤ t) (hreach : t * norm M.gradient ≤ ρ) (hcurv : t * L ≤ 2 * (1 - μ)) :
    p.Passes t := by
  rw [passes_iff h hx, within_iff h hρ, cauchyTrial_eq h, SearchRule.accepts_iff hμ]
  refine ⟨(Box.norm_descend_le h.base M.gradient ht).trans hreach, (value_le_slope h hA hL hL0).trans ?_⟩
  exact mul_le_mul_of_nonpos_right (by linarith) (Box.dot_descend_nonpos h.base M.gradient ht)

/-- So does a shorter one by more than enough, where a part of the gradient counts. -/
theorem passesStrictly_of_short (hcounts : p.box.effective x M.gradient ≠ 0) (ht : 0 < t)
    (hreach : t * norm M.gradient ≤ ρ) (hcurv : t * L < 2 * (1 - μ)) : p.PassesStrictly t := by
  have hslope : M.slope (p.box.descend p.base M.gradient t) < 0 := by
    have hin := h.base
    rw [hx] at hin ⊢
    exact Box.dot_descend_neg hin hcounts ht
  rw [passesStrictly_iff h hx, within_iff h hρ, cauchyTrial_eq h, SearchRule.acceptsStrictly_iff hμ]
  refine ⟨(Box.norm_descend_le h.base M.gradient ht.le).trans hreach, (value_le_slope h hA hL hL0).trans_lt ?_⟩
  exact mul_lt_mul_of_neg_right (by linarith) hslope

/-- Trials that lead down to such a length are enough for the search. -/
theorem cauchyUncapped_of_short (hcounts : p.box.effective x M.gradient ≠ 0) (h0 : 0 < t₀)
    (htrials : 0 < p.rule.maxTrials) (hreach : t₀ / 10 ^ p.rule.maxTrials.toNat * norm M.gradient ≤ ρ)
    (hcurv : t₀ / 10 ^ p.rule.maxTrials.toNat * L < 2 * (1 - μ)) : p.CauchyUncapped t₀ :=
  cauchyUncapped_of_passes h hx t₀ (by omega) le_rfl
    (passesStrictly_of_short h hx hA hL hL0 hρ hμ hcounts (by positivity) hreach hcurv)

end Short

/-! ## Upwards -/

/-- The `i`-th trial upwards is made at `10 ^ i * t₀`. The search keeps the longest length that has passed, and
ends with a trial outside the trust region. -/
theorem iterate_lengthen {t₀ : ℝ} (h0 : p.Passes t₀) (i : ℕ) :
    (p.lengthen^[i] ⟨t₀, t₀, true⟩).length = (10 ^ i * t₀ : ℝ) ∧
      ((p.lengthen^[i] ⟨t₀, t₀, true⟩).searching = false → ¬ p.Within (p.cauchyTrial (10 ^ i * t₀ : ℝ))) ∧
      ∃ j, (p.lengthen^[i] ⟨t₀, t₀, true⟩).best = (10 ^ j * t₀ : ℝ) ∧
        IsGreatest {j | j ≤ i ∧ p.Passes (10 ^ j * t₀)} j := by
  induction i with
  | zero =>
    refine ⟨by simp, fun hs => by simp at hs, 0, by simp, ⟨le_rfl, by simpa using h0⟩, fun j hj => hj.1⟩
  | succ i ih =>
    obtain ⟨hlength, -, j, hbest, hj⟩ := ih
    rw [Function.iterate_succ_apply', lengthen_of_length hlength, ← mul_assoc, ← pow_succ']
    refine ⟨rfl, of_decide_eq_false, ?_⟩
    by_cases hp : p.Passes (10 ^ (i + 1) * t₀)
    · exact ⟨i + 1, if_pos ((passes_iff h hx _).1 hp), ⟨le_rfl, hp⟩, fun j hj => hj.1⟩
    · refine ⟨j, (if_neg (mt (passes_iff h hx _).2 hp)).trans hbest, ⟨hj.1.1.trans i.le_succ, hj.1.2⟩,
        fun l hl => hj.2 ⟨?_, hl.2⟩⟩
      exact Nat.le_of_lt_succ (hl.1.lt_of_ne fun heq => hp (heq ▸ hl.2))

/-- The search upwards takes the longest length that passes, of those it tries. -/
theorem best_lengthenWhile {t₀ : ℝ} (h0 : p.Passes t₀) : ∃ j, (p.lengthenWhile t₀).state.best = (10 ^ j * t₀ : ℝ) ∧
    IsGreatest {j | j ≤ (p.lengthenWhile t₀).steps ∧ p.Passes (10 ^ j * t₀)} j := by
  have hstate : (p.lengthenWhile t₀).state = p.lengthen^[(p.lengthenWhile t₀).steps] ⟨t₀, t₀, true⟩ :=
    state_advanceWhile ..
  rw [hstate]
  exact (iterate_lengthen h hx h0 _).2.2

/-- If the first length passes inside and the path does not move beyond it, the step is that of the first. -/
theorem step_cauchyStep_of_inside {t₀ ρ μ : ℝ} (hpos : 0 < t₀) (hρ : p.radius = ρ) (hμ : p.rule.decrease = μ)
    (hfirst : p.PassesInside t₀) {d : Vector ℝ n} (hd : ∀ t, t₀ ≤ t → p.box.descend p.base M.gradient t = d) :
    (p.cauchyStep t₀).step = d := by
  obtain ⟨j, hbest, -⟩ := best_lengthenWhile h hx hfirst.passes
  rw [← cauchySearch_of_inside h hx hρ hμ hfirst] at hbest
  rw [step_cauchyStep h hbest, hd _ (le_mul_of_one_le_left hpos.le (one_le_pow₀ (by norm_num)))]

/-- No length that was not tried any more passes with another step than the last one tried. -/
theorem pathStep_of_stopped {t₀ : ℝ} (hpos : 0 < t₀) (h0 : p.Passes t₀) {ρ : ℝ} (hρ : p.radius = ρ) {l : ℕ}
    (hl : (p.lengthenWhile t₀).steps ≤ l) (hbudget : l ≤ p.rule.maxTrials.toNat) (hp : p.Passes (10 ^ l * t₀)) :
    p.pathStep (10 ^ l * t₀) = p.pathStep (10 ^ (p.lengthenWhile t₀).steps * t₀) := by
  set K := (p.lengthenWhile t₀).steps
  have hK : 0 < 10 ^ K * t₀ := by positivity
  have hle : 10 ^ K * t₀ ≤ 10 ^ l * t₀ :=
    mul_le_mul_of_nonneg_right (pow_le_pow_right₀ (by norm_num) hl) hpos.le
  rcases (hl.trans hbudget).eq_or_lt with hused | hstopped
  · rw [show l = K by omega]
  have hstate : (p.lengthenWhile t₀).state = p.lengthen^[K] ⟨t₀, t₀, true⟩ := state_advanceWhile ..
  obtain ⟨hlength, hsearching, -⟩ := iterate_lengthen h hx h0 K
  have htest := test_advanceWhile_of_lt hstopped
  change ((p.lengthenWhile t₀).state.searching &&
    decide ((p.lengthenWhile t₀).state.length ≤ p.cauchyEnd)) = false at htest
  rw [hstate, hlength, Bool.and_eq_false_iff, decide_eq_false_iff_not] at htest
  rcases htest with hout | hend
  · -- the path does not return into the trust region
    have hin := ((passes_iff h hx _).1 hp).1
    have hnot := hsearching hout
    rw [within_iff h hρ] at hin hnot
    exact absurd ((Box.norm_descend_mono h.base M.gradient hK hle).trans hin) hnot
  · have hlast : (p.box.breakpoints p.base (-M.gradient : Vector ℝ n)).last ≤ ((10 ^ K * t₀ : ℝ) : Exact) := by
      rw [cauchyEnd, h.model.gradient, ← Exact.coe_neg_vector] at hend
      exact Exact.le_of_lt' ((Exact.not_le_iff (Exact.coe_ne_nan _) (Box.last_ne_nan _ _ _)).1 hend)
    have hbase := h.base
    rw [hx] at hlast hbase
    rw [pathStep_eq h hx, pathStep_eq h hx, hx, Box.descend_eq_shift_neg, Box.descend_eq_shift_neg,
      Box.shift_eq_of_last_le hbase hK.le hlast hle]

/-- The longest of the lengths tried leads to the same step as the longest of all that might have been. -/
theorem pathStep_longest {t₀ : ℝ} (hpos : 0 < t₀) (h0 : p.Passes t₀) {ρ : ℝ} (hρ : p.radius = ρ) {j l : ℕ}
    (hj : IsGreatest {j | j ≤ (p.lengthenWhile t₀).steps ∧ p.Passes (10 ^ j * t₀)} j)
    (hl : IsGreatest {j | j ≤ p.rule.maxTrials.toNat ∧ p.Passes (10 ^ j * t₀)} l) :
    p.pathStep (10 ^ j * t₀) = p.pathStep (10 ^ l * t₀) := by
  have hbudget : (p.lengthenWhile t₀).steps ≤ p.rule.maxTrials.toNat := steps_advanceWhile_le ..
  rcases le_or_gt (p.lengthenWhile t₀).steps l with hle | hlt
  · -- the search stopped before, and its last trial passed as well
    have heq := pathStep_of_stopped h hx hpos h0 hρ hle hl.1.1 hl.1.2
    have hpass : p.Passes (10 ^ (p.lengthenWhile t₀).steps * t₀) := ⟨heq ▸ hl.1.2.within, heq ▸ hl.1.2.decrease⟩
    rw [heq, le_antisymm hj.1.1 (hj.2 ⟨le_rfl, hpass⟩)]
  · rw [le_antisymm (hl.2 ⟨hj.1.1.trans hbudget, hj.1.2⟩) (hj.2 ⟨hlt.le, hl.1.2⟩)]

end Search

/-! ## The step found -/

/-- The Cauchy step for any real Hessian. From a first length that passes inside the trust region the search goes
upwards, and its step is that of the longest length within its trials that passes, wherever it stopped. From any
other it goes downwards to the first length that passes strictly, or to the last one if none does. -/
theorem cauchyStep_searches {p : Subproblem Exact n} {A : Operator ℝ n} {x g : Vector ℝ n} {ρ μ t₀ : ℝ}
    (hg : p.model.gradient = g) (hH : Extends p.model.hessian A) (hx : p.base = x) (hin : p.box.Contains x)
    (hρ : p.radius = ρ) (hμ : p.rule.decrease = μ) (h0 : 0 < t₀) :
    let N := p.rule.maxTrials.toNat
    let R := p.cauchyStep t₀
    (p.PassesInside t₀ →
      ∃ j, IsGreatest {j | j ≤ N ∧ p.Passes (10 ^ j * t₀)} j ∧ R.step = p.pathStep (10 ^ j * t₀)) ∧
    (¬ p.PassesInside t₀ →
      ∃ j, R.length = (t₀ / 10 ^ j : ℝ) ∧ R.step = p.pathStep (t₀ / 10 ^ j) ∧
        (IsLeast {j | 1 ≤ j ∧ j ≤ N ∧ p.PassesStrictly (t₀ / 10 ^ j)} j ∨
          j = N ∧ ∀ i, 1 ≤ i → i ≤ N → ¬ p.PassesStrictly (t₀ / 10 ^ i))) := by
  intro N R
  have h : p.Extends ⟨g, A⟩ := ⟨⟨hg, hH⟩, hx ▸ hin⟩
  constructor
  · intro hfirst
    obtain ⟨j, hbest, hj⟩ := best_lengthenWhile h hx hfirst.passes
    obtain ⟨l, -, hl⟩ := (iterate_lengthen h hx hfirst.passes N).2.2
    rw [← cauchySearch_of_inside h hx hρ hμ hfirst] at hbest
    have hstep : R.step = p.pathStep (10 ^ j * t₀) := by
      rw [pathStep_eq h hx]
      exact step_cauchyStep h hbest
    exact ⟨l, hl, hstep.trans (pathStep_longest h hx h0 hfirst.passes hρ hj hl)⟩
  · intro hfirst
    obtain ⟨j, hbest, hj⟩ := best_shortenWhile h hx t₀
    rw [← cauchySearch_of_not_inside h hx hρ hμ hfirst] at hbest
    refine ⟨j, hbest, ?_, hj⟩
    rw [pathStep_eq h hx]
    exact step_cauchyStep h hbest

/-- An indefinite quadratic, seen from the centre of the square. -/
noncomputable def saddleHessian : SquareMatrix ℝ 2 := #v[#v[0.5, 1], #v[1, -0.5]]

noncomputable def saddleOverSquare : Subproblem Exact 2 := overSquare saddleHessian

theorem dot_saddleHessian (v : Vector ℝ 2) :
    dot v (saddleHessian.linear v) = v.get 0 ^ 2 / 2 + 2 * v.get 0 * v.get 1 - v.get 1 ^ 2 / 2 := by
  rw [SquareMatrix.dot_linear_two]
  show (0.5 : ℝ) * v.get 0 ^ 2 + (1 + 1) * (v.get 0 * v.get 1) + -0.5 * v.get 1 ^ 2 = _
  ring

theorem extends_saddleOverSquare : saddleOverSquare.Extends ⟨#v[-1, 1], saddleHessian.linear⟩ :=
  ⟨⟨rfl, extends_matrix _⟩, (contains_overSquare _).1⟩

theorem decrease_saddleOverSquare : saddleOverSquare.rule.decrease = (0.01 : ℝ) := rfl

theorem descend_saddleOverSquare {t : ℝ} (h0 : 0 ≤ t) (h1 : t ≤ 1) :
    saddleOverSquare.box.descend saddleOverSquare.base (#v[-1, 1] : Vector ℝ 2) t = #v[t, -t] := by
  have hray : -t • (#v[-1, 1] : Vector ℝ 2) = #v[t, -t] := ext_get <| Fin.forall_fin_two.2
    ⟨(get_smul _ _ _).trans (show -t * -1 = t by ring), (get_smul _ _ _).trans (show -t * 1 = -t by ring)⟩
  refine (Box.shift_of_contains extends_saddleOverSquare.base ?_).trans hray
  show saddleOverSquare.box.Contains (((0 : Vector ℝ 2) : Vector Exact 2) + _)
  rw [hray, ← Exact.coe_add_vector, zero_add]
  refine Box.contains_coe_iff.2 (Fin.forall_fin_two.2 ⟨⟨?_, ?_⟩, ⟨?_, ?_⟩⟩)
  · exact (by linarith : (-1 : ℝ) ≤ t)
  · exact h1
  · exact (by linarith : (-1 : ℝ) ≤ -t)
  · exact (by linarith : -t ≤ (1 : ℝ))

theorem passesInside_saddleOverSquare : saddleOverSquare.PassesInside 0.1 := by
  have hpath : saddleOverSquare.pathStep 0.1 = ((#v[0.1, -0.1] : Vector ℝ 2) : Vector Exact 2) := by
    rw [pathStep_eq extends_saddleOverSquare rfl, descend_saddleOverSquare (by norm_num) (by norm_num)]
  constructor
  · rw [hpath, ← Exact.coe_norm]
    refine Exact.coe_lt.2 ?_
    rw [norm, dot_eq_sum, Fin.sum_univ_two, sqrt_real, Real.sqrt_lt' one_pos]
    show (0.1 * 0.1 + -0.1 * -0.1 : ℝ) < 1 ^ 2
    norm_num
  · rw [hpath, extends_saddleOverSquare.model.value, extends_saddleOverSquare.model.slope, decrease_saddleOverSquare,
      ← Exact.coe_mul, Exact.coe_lt]
    rw [Model.value_eq, dot_saddleHessian, Model.slope, dot_eq_sum, Fin.sum_univ_two]
    show ((0.1 ^ 2 / 2 + 2 * 0.1 * -0.1 - (-0.1) ^ 2 / 2) / 2 + (-1 * 0.1 + 1 * -0.1) : ℝ) <
      0.01 * (-1 * 0.1 + 1 * -0.1)
    norm_num

theorem not_passesInside_saddleOverSquare : ¬ saddleOverSquare.PassesInside 10 := fun h => by
  have hlt := h.inside
  rw [pathStep_eq extends_saddleOverSquare rfl, ← Exact.coe_norm] at hlt
  -- the path has left the trust region at `1` already
  have hmono := Box.norm_descend_mono extends_saddleOverSquare.base #v[-1, 1] one_pos (show (1 : ℝ) ≤ 10 by norm_num)
  have hfirst := abs_get_le_norm (saddleOverSquare.box.descend saddleOverSquare.base (#v[-1, 1] : Vector ℝ 2) 1) 0
  rw [descend_saddleOverSquare zero_le_one le_rfl] at hfirst hmono
  have hone : (1 : ℝ) ≤ norm (#v[1, -1] : Vector ℝ 2) := abs_one.symm.trans_le hfirst
  exact ((hone.trans hmono).trans_lt (Exact.coe_lt.1 hlt)).false

/-- Over the square, once from inside and once from outside the trust region. -/
theorem cauchyStep_searches_saddle :
    let p := saddleOverSquare
    (∃ j, IsGreatest {j | j ≤ 50 ∧ p.Passes (10 ^ j * 0.1)} j ∧
      (p.cauchyStep (0.1 : ℝ)).step = p.pathStep (10 ^ j * 0.1)) ∧
    ∃ j, (p.cauchyStep (10 : ℝ)).length = (10 / 10 ^ j : ℝ) ∧
      (p.cauchyStep (10 : ℝ)).step = p.pathStep (10 / 10 ^ j) ∧
      (IsLeast {j | 1 ≤ j ∧ j ≤ 50 ∧ p.PassesStrictly (10 / 10 ^ j)} j ∨
        j = 50 ∧ ∀ i, 1 ≤ i → i ≤ 50 → ¬ p.PassesStrictly (10 / 10 ^ i)) := by
  intro p
  have hH := extends_saddleOverSquare.model.hessian
  have hin := extends_saddleOverSquare.base
  have hμ := decrease_saddleOverSquare
  exact ⟨(cauchyStep_searches rfl hH rfl hin rfl hμ (by norm_num)).1 passesInside_saddleOverSquare,
    (cauchyStep_searches rfl hH rfl hin rfl hμ (by norm_num)).2 not_passesInside_saddleOverSquare⟩

/-- The Cauchy step where no curvature exceeds `L` and the trials allowed lead down to a length that is short
against the radius and against `L`: it passes both tests, it keeps to the box, and it falls unless no part of the
gradient counts. -/
theorem cauchyStep_passes {p : Subproblem Exact n} {A : Vector ℝ n →ₗ[ℝ] Vector ℝ n} {x g : Vector ℝ n} {L ρ μ t₀ : ℝ}
    (hg : p.model.gradient = g) (hH : Extends p.model.hessian A) (hx : p.base = x) (hin : p.box.Contains x)
    (hρ : p.radius = ρ) (hμ : p.rule.decrease = μ) (hL : IsCurvatureBound A L) (hL0 : 0 ≤ L) (h0 : 0 < t₀)
    (hreach : t₀ / 10 ^ p.rule.maxTrials.toNat * norm g ≤ ρ)
    (hcurv : t₀ / 10 ^ p.rule.maxTrials.toNat * L < 2 * (1 - μ)) :
    let R := p.cauchyStep t₀
    norm R.step ≤ p.radius ∧ p.model.value R.step ≤ p.rule.decrease * p.model.slope R.step ∧
      p.model.slope R.step ≤ 0 ∧ p.box.Contains (p.base + R.step) ∧ 0 < R.length ∧
      (p.box.projectedGradient p.base p.model.gradient ≠ 0 → p.model.slope R.step < 0) := by
  intro R
  have h : p.Extends ⟨g, A⟩ := ⟨⟨hg, hH⟩, hx ▸ hin⟩
  obtain ⟨t, hlength, ht, hpass⟩ : ∃ t : ℝ, (p.cauchySearch t₀).state.best = t ∧ 0 < t ∧ p.Passes t := by
    by_cases hfirst : p.PassesInside t₀
    · obtain ⟨j, hbest, hj⟩ := best_lengthenWhile h hx hfirst.passes
      rw [cauchySearch_of_inside h hx hρ hμ hfirst]
      exact ⟨_, hbest, by positivity, hj.1.2⟩
    · obtain ⟨j, hbest, hj⟩ := best_shortenWhile h hx t₀
      rw [cauchySearch_of_not_inside h hx hρ hμ hfirst]
      refine ⟨_, hbest, by positivity, ?_⟩
      rcases hj with hj | ⟨rfl, -⟩
      · exact hj.1.2.2.passes
      · exact passes_of_short h hx (fun _ => rfl) hL hL0 hρ hμ (by positivity) hreach hcurv.le
  have hstep : R.step = (p.box.descend p.base g t : Vector Exact n) := step_cauchyStep h hlength
  have hslope : p.model.slope R.step = (dot g (p.box.descend p.base g t) : ℝ) := by
    rw [hstep, h.model.slope]; rfl
  obtain ⟨hwithin, hdecrease⟩ := hpass
  rw [pathStep_eq h hx] at hwithin hdecrease
  refine ⟨hstep ▸ hwithin, hstep ▸ hdecrease, ?_, ?_, ?_, fun hne => ?_⟩
  · rw [hslope]
    exact Exact.coe_le.2 (Box.dot_descend_nonpos h.base g ht.le)
  · rw [hstep]
    exact Box.contains_add_shift h.base g (-t)
  · show 0 < (p.cauchySearch t₀).state.best
    rw [hlength]
    exact Exact.coe_pos.2 ht
  · have hcounts : p.box.effective x g ≠ 0 := by
      rwa [hx, hg, Ne, Box.projectedGradient_eq_zero_iff] at hne
    rw [hslope, hx]
    exact Exact.coe_lt.2 (Box.dot_descend_neg hin hcounts ht)

/-- From ten times too far out, with an indefinite Hessian. -/
theorem cauchyStep_passes_saddle :
    let p := saddleOverSquare
    let R := p.cauchyStep (10 : ℝ)
    (IsCurvatureBound saddleHessian.linear 3 ∧ (10 : ℝ) / 10 ^ 50 * norm (#v[-1, 1] : Vector ℝ 2) ≤ 1 ∧
      p.box.projectedGradient p.base p.model.gradient ≠ 0) ∧
      norm R.step ≤ p.radius ∧ p.model.value R.step ≤ p.rule.decrease * p.model.slope R.step ∧
      p.model.slope R.step ≤ 0 ∧ p.box.Contains (p.base + R.step) ∧ 0 < R.length ∧ p.model.slope R.step < 0 := by
  intro p R
  have hL : IsCurvatureBound saddleHessian.linear 3 := fun v => by
    rw [dot_saddleHessian, norm_sq, dot_eq_sum, Fin.sum_univ_two]
    nlinarith [sq_nonneg (v.get 0 - v.get 1), sq_nonneg (v.get 1)]
  have hreach : (10 : ℝ) / 10 ^ 50 * norm (#v[-1, 1] : Vector ℝ 2) ≤ 1 := by
    have hnorm : norm (#v[-1, 1] : Vector ℝ 2) ≤ 2 := norm_le_of_dot_le zero_le_two (by
      rw [dot_eq_sum, Fin.sum_univ_two]
      show (-1 * -1 + 1 * 1 : ℝ) ≤ 2 ^ 2
      norm_num)
    linarith
  have hcounts : p.box.projectedGradient p.base p.model.gradient ≠ 0 := by
    have hbelow : ((0 : Vector ℝ 2).get 0 : Exact) < p.box.upper.get 0 := by
      show _ < ((#v[1, 1] : Vector ℝ 2) : Vector Exact 2).get 0
      rw [get_zero, Exact.get_coe]
      exact Exact.coe_lt.2 one_pos
    have hneg : (p.box.effective (0 : Vector ℝ 2) #v[-1, 1]).get 0 < 0 :=
      (Box.effective_neg_iff extends_saddleOverSquare.base).2 ⟨(by norm_num : (-1 : ℝ) < 0), hbelow⟩
    exact mt (Box.projectedGradient_eq_zero_iff p.box 0 #v[-1, 1]).1 (Box.effective_ne_zero hneg.ne)
  have hfound := cauchyStep_passes rfl (extends_matrix saddleHessian) rfl extends_saddleOverSquare.base rfl
    decrease_saddleOverSquare hL (by norm_num) (show (0 : ℝ) < 10 by norm_num) hreach
    (show (10 : ℝ) / 10 ^ 50 * 3 < 2 * (1 - 0.01) by norm_num)
  obtain ⟨h1, h2, h3, h4, h5, h6⟩ := hfound
  exact ⟨⟨hL, hreach, hcounts⟩, h1, h2, h3, h4, h5, h6 hcounts⟩

end Subproblem

end BoxNewton
