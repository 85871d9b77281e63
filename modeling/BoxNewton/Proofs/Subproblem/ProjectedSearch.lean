/-
What the projected search returns, for a real direction from a point of the box: a length of at most
1 that is either one whose trial was accepted or no farther than the first breakpoint of the path
(`exists_stepped`), where the path is still straight. Only a search that its limit on trials stopped
may return another length. Whatever stopped it, the step is the full one unless it takes a coordinate
to its bound (`Stepped.full_or_target`). With trials enough to halve 1 down to the first breakpoint the limit does
not stop it (`uncapped_of_pow_le`, `uncapped_of_contains`), nor with a single one where there is no breakpoint. All
of this together says where the search lands (`projectedStep_lands`).
-/
import BoxNewton.Proofs.Box.Breakpoint
import BoxNewton.Proofs.Loop
import BoxNewton.Proofs.Real.Model
import BoxNewton.Proofs.Subproblem.Basic
import BoxNewton.Subproblem.ProjectedSearch

namespace BoxNewton.BoxedModel

variable {n : ℕ}

/-- The search was not stopped by its limit on trials. -/
def Uncapped (q : BoxedModel Exact n) (r : SearchRule Exact) (w : Vector Exact n) : Prop :=
  q.keepsHalving w (q.projectedSearch r w).state = false

/-- The search ended with a trial that it accepted. -/
def Accepted (q : BoxedModel Exact n) (r : SearchRule Exact) (w : Vector Exact n) : Prop :=
  (q.projectedSearch r w).state.searching = false

/-! ## The search -/

/-- The search stands at the length `ℓ`. Once a length was halved the first breakpoint lies before the
length halved, and an accepted length lies beyond it. -/
structure Halved (q : BoxedModel Exact n) (r : SearchRule Exact) (w : Vector ℝ n)
    (s : ProjectedSearch Exact) (ℓ : ℝ) : Prop where
  length_eq : s.length = ℓ
  pos : 0 < ℓ
  le_one : ℓ ≤ 1
  halved : ℓ = 1 ∨ 2 * ℓ ≤ 1 ∧ q.firstBreakpoint w < (2 * ℓ : ℝ)
  accepted : s.searching = false → q.firstBreakpoint w < ℓ ∧ r.Accepts (q.trial w ℓ)

variable {q : BoxedModel Exact n} {r : SearchRule Exact} {w : Vector ℝ n}

theorem half_mul (t : ℝ) : 0.5 * (t : Exact) = ((t / 2 : ℝ) : Exact) := by
  rw [Exact.ofScientific_eq, ← Exact.coe_mul, Exact.coe_inj]
  norm_num; ring

theorem halved_start (q : BoxedModel Exact n) (r : SearchRule Exact) (w : Vector ℝ n) : Halved q r w ⟨1, true⟩ 1 :=
  ⟨rfl, one_pos, le_rfl, .inl rfl, fun hf => by cases hf⟩

theorem Halved.halve {s : ProjectedSearch Exact} {ℓ : ℝ} (h : Halved q r w s ℓ)
    (hs : q.keepsHalving w s = true) : ∃ ℓ', Halved q r w (q.halve r w s) ℓ' := by
  simp only [keepsHalving, Bool.and_eq_true, decide_eq_true_eq] at hs
  obtain ⟨hrun, hfirst⟩ := hs
  rw [h.length_eq] at hfirst
  unfold BoxedModel.halve
  by_cases ha : r.Accepts (q.trial w s.length)
  · rw [if_pos ha]
    rw [h.length_eq] at ha
    exact ⟨ℓ, h.length_eq, h.pos, h.le_one, h.halved, fun _ => ⟨hfirst, ha⟩⟩
  · rw [if_neg ha]
    have hpos := h.pos
    have hle := h.le_one
    refine ⟨ℓ / 2, ?_, by linarith, by linarith, .inr ⟨by linarith, ?_⟩, fun hf => by cases hf⟩
    · show (0.5 : Exact) * s.length = _
      rw [h.length_eq, half_mul]
    · rwa [mul_div_cancel₀ ℓ two_ne_zero]

theorem exists_halved (q : BoxedModel Exact n) (r : SearchRule Exact) (w : Vector ℝ n) :
    ∃ ℓ, Halved q r w (q.projectedSearch r w).state ℓ :=
  advanceWhile_induction (P := fun s => ∃ ℓ, Halved q r w s ℓ)
    (fun _ ⟨_, h⟩ hs => h.halve hs) _ ⟨1, halved_start q r w⟩

/-- Searches with the same first breakpoint, whose trials are accepted alike at every real length, run alike. -/
theorem projectedSearch_congr {n' : ℕ} {q' : BoxedModel Exact n'} {w' : Vector ℝ n'}
    (hfirst : q'.firstBreakpoint w' = q.firstBreakpoint w)
    (haccepts : ∀ t : ℝ, r.Accepts (q'.trial w' t) ↔ r.Accepts (q.trial w t)) :
    q'.projectedSearch r w' = q.projectedSearch r w := by
  have htest : ∀ s s', (s' = s ∧ ∃ ℓ, Halved q r w s ℓ) → q'.keepsHalving w' s' = q.keepsHalving w s := by
    rintro s _ ⟨rfl, -⟩
    simp only [keepsHalving, hfirst]
  have hhalve : ∀ s s', (s' = s ∧ ∃ ℓ, Halved q r w s ℓ) → q.keepsHalving w s = true →
      q'.halve r w' s' = q.halve r w s ∧ ∃ ℓ, Halved q r w (q.halve r w s) ℓ := by
    rintro s _ ⟨rfl, ℓ, hℓ⟩ hs
    have hlength := haccepts ℓ
    rw [← hℓ.length_eq] at hlength
    refine ⟨?_, hℓ.halve hs⟩
    simp only [BoxedModel.halve, hlength]
  obtain ⟨⟨hstate, -⟩, hsteps⟩ := advanceWhile_related (R := fun s s' => s' = s ∧ ∃ ℓ, Halved q r w s ℓ)
    htest hhalve r.maxTrials.toNat ⟨rfl, 1, halved_start q r w⟩
  exact congrArg₂ Run.mk hstate hsteps

/-! ## The budget of the search -/

/-- A trial after which the search goes on was refused. -/
theorem length_halve {s : ProjectedSearch Exact} (hs : (q.halve r w s).searching = true) :
    (q.halve r w s).length = 0.5 * s.length := by
  unfold BoxedModel.halve at hs ⊢
  split at hs
  · cases hs
  · rw [if_neg ‹_›]

/-- As long as the search goes on its length is that power of one half that counts the trials. -/
theorem length_iterate_halve {k : ℕ} (hk : k ≤ (q.projectedSearch r w).steps)
    (hs : ((q.halve r w)^[k] ⟨1, true⟩).searching = true) :
    ((q.halve r w)^[k] ⟨1, true⟩).length = ((1 / 2 : ℝ) ^ k : ℝ) := by
  induction k with
  | zero =>
    rw [pow_zero]
    rfl
  | succ k ih =>
    have htest : q.keepsHalving w ((q.halve r w)^[k] ⟨1, true⟩) = true := test_iterate_of_lt hk
    rw [keepsHalving, Bool.and_eq_true] at htest
    have hlength := ih (Nat.le_of_succ_le hk) htest.1
    rw [Function.iterate_succ_apply'] at hs ⊢
    rw [length_halve hs, hlength, half_mul, pow_succ, mul_one_div]

/-- A search that found no length has halved it at every trial. -/
theorem length_projectedSearch (hs : (q.projectedSearch r w).state.searching = true) :
    (q.projectedSearch r w).state.length = ((1 / 2 : ℝ) ^ (q.projectedSearch r w).steps : ℝ) := by
  have hstate : (q.projectedSearch r w).state = (q.halve r w)^[(q.projectedSearch r w).steps] ⟨1, true⟩ :=
    state_advanceWhile ..
  rw [hstate] at hs ⊢
  exact length_iterate_halve le_rfl hs

/-- A budget of as many trials as halve 1 down to the first breakpoint does not stop the search. -/
theorem uncapped_of_pow_le (h : (((1 / 2 : ℝ) ^ r.maxTrials.toNat : ℝ) : Exact) ≤ q.firstBreakpoint w) :
    q.Uncapped r w := by
  have hsteps : (q.projectedSearch r w).steps ≤ r.maxTrials.toNat := steps_advanceWhile_le ..
  rcases hsteps.lt_or_eq with hlt | heq
  · exact test_advanceWhile_of_lt hlt
  · unfold Uncapped keepsHalving
    cases hs : (q.projectedSearch r w).state.searching with
    | false => rfl
    | true =>
      rw [length_projectedSearch hs, heq, Bool.true_and, decide_eq_false_iff_not]
      exact (Exact.not_lt_iff (Exact.right_ne_nan h) (Exact.coe_ne_nan _)).2 h

/-! ## The step returned -/

/-- Where the search along `w` ends: at a length whose trial it accepted, or that is no farther than the
first breakpoint, unless its limit on trials stopped it. A length below 1 reaches the first breakpoint. -/
structure Stepped (q : BoxedModel Exact n) (r : SearchRule Exact) (w : Vector ℝ n) (ℓ : ℝ) : Prop where
  length_eq : (q.projectedStep r w).length = ℓ
  pos : 0 < ℓ
  le_one : ℓ ≤ 1
  accepted : q.Accepted r w → r.Accepts (q.trial w ℓ)
  straight : q.Uncapped r w → q.Accepted r w ∨ (ℓ : Exact) ≤ q.firstBreakpoint w
  bent : ℓ = 1 ∨ q.firstBreakpoint w ≤ (ℓ : Exact)

theorem exists_stepped (q : BoxedModel Exact n) (r : SearchRule Exact) (w : Vector ℝ n) : ∃ ℓ, Stepped q r w ℓ := by
  obtain ⟨ℓ, h⟩ := exists_halved q r w
  have hne : q.firstBreakpoint w ≠ .nan := Box.first_ne_nan q.box q.base w
  have hlen : (q.projectedStep r w).length =
      if (ℓ : Exact) < 1 ∧ (ℓ : Exact) < q.firstBreakpoint w then q.firstBreakpoint w else ℓ := by
    rw [← h.length_eq]; rfl
  by_cases hforce : (ℓ : Exact) < 1 ∧ (ℓ : Exact) < q.firstBreakpoint w
  · rw [if_pos hforce] at hlen
    -- the first breakpoint lies between the length and its double, so it is real
    obtain ⟨h2, hlt⟩ := h.halved.resolve_left (Exact.coe_lt.1 hforce.1).ne
    obtain ⟨φ, hφ⟩ := Exact.exists_coe_of_lt hforce.2 hlt
    rw [hφ] at hlen
    have hℓφ := hforce.2
    rw [hφ, Exact.coe_lt] at hlt hℓφ
    refine ⟨φ, hlen, by linarith [h.pos], by linarith, fun ha => ?_, fun _ => .inr ?_, .inr ?_⟩
    · have := (h.accepted ha).1
      rw [hφ, Exact.coe_lt] at this
      exact absurd hℓφ (lt_asymm this)
    · rw [hφ]; exact Exact.coe_le.2 le_rfl
    · rw [hφ]; exact Exact.coe_le.2 le_rfl
  · rw [if_neg hforce] at hlen
    refine ⟨ℓ, hlen, h.pos, h.le_one, fun ha => (h.accepted ha).2, fun hu => ?_, ?_⟩
    · unfold Accepted
      cases hs : (q.projectedSearch r w).state.searching with
      | false => exact .inl rfl
      | true =>
        simp only [Uncapped, keepsHalving, hs, Bool.true_and, decide_eq_false_iff_not, h.length_eq] at hu
        exact .inr ((Exact.not_lt_iff hne (Exact.coe_ne_nan ℓ)).1 hu)
    · rcases h.le_one.eq_or_lt with h1 | h1
      · exact .inl h1
      · exact .inr ((Exact.not_lt_iff (Exact.coe_ne_nan ℓ) hne).1 fun hlt => hforce ⟨Exact.coe_lt.2 h1, hlt⟩)

section Contained

variable (hq : q.box.Contains q.base) {ℓ : ℝ} (h : Stepped q r w ℓ)

include hq h

/-- The step returned stays in the box, and the point is where it leads. -/
theorem Stepped.step_eq : (q.projectedStep r w).step = (q.box.shift q.base w ℓ : Vector Exact n) := by
  rw [← Box.displacement_eq hq, ← h.length_eq]; rfl

theorem Stepped.point_eq : (q.projectedStep r w).point = q.base + (q.box.shift q.base w ℓ : Vector Exact n) := by
  rw [← Box.project_add_hmul hq, ← h.length_eq]; rfl

/-- No coordinate moves backwards or farther than the direction sends it. -/
theorem Stepped.mem_uIcc (i : Fin n) : (q.box.shift q.base w ℓ).get i ∈ Set.uIcc 0 (w.get i) := by
  have hsent : ℓ * w.get i ∈ Set.uIcc 0 (w.get i) := by
    rcases le_total 0 (w.get i) with hw | hw
    · exact Set.mem_uIcc.2 (.inl ⟨mul_nonneg h.pos.le hw, mul_le_of_le_one_left hw h.le_one⟩)
    · exact Set.mem_uIcc.2 (.inr ⟨by nlinarith [h.le_one], mul_nonpos_of_nonneg_of_nonpos h.pos.le hw⟩)
  exact Set.uIcc_subset_uIcc_left hsent (Box.shift_mem_uIcc hq w ℓ i)

theorem Stepped.norm_le : norm (q.box.shift q.base w ℓ) ≤ norm w := by
  refine (Box.norm_shift_le hq w ℓ).trans (mul_le_of_le_one_left (norm_nonneg w) ?_)
  rw [abs_of_pos h.pos]
  exact h.le_one

/-- The coordinates that head for a bound all move in full, or one of them ends on its bound. -/
theorem Stepped.full_or_target :
    (∀ i t, q.box.breakpoint? q.base w i = some t → (q.box.shift q.base w ℓ).get i = w.get i) ∨
      ∃ i t, q.box.breakpoint? q.base w i = some t ∧ (q.projectedStep r w).point.get i = q.box.target w i := by
  simp only [h.point_eq hq, get_add, Exact.get_coe]
  rcases h.bent with rfl | hle
  · refine or_iff_not_imp_left.2 fun hno => ?_
    simp only [not_forall] at hno
    obtain ⟨i, t, ht, hne⟩ := hno
    refine ⟨i, t, ht, (Box.shift_eq_or_target hq zero_le_one).resolve_left ?_⟩
    rwa [one_mul]
  · -- the coordinate of the first breakpoint is at its bound
    rcases Box.first_cases q.box q.base w with ⟨hnone, -⟩ | ⟨i, hi⟩
    · exact .inl fun i t ht => by rw [hnone i] at ht; cases ht
    · exact .inr ⟨i, _, hi, Box.target_of_breakpoint_le hq hi hle⟩

/-- Every free coordinate moves in full, or one that moves is free no more. -/
theorem Stepped.full_or_fixed :
    (∀ i, (q.box.free q.base).get i = true → (q.box.shift q.base w ℓ).get i = w.get i) ∨
      ∃ i, w.get i ≠ 0 ∧ (q.box.free (q.projectedStep r w).point).get i = false := by
  refine (h.full_or_target hq).imp (fun hfull i hi => ?_) fun ⟨i, t, ht, hi⟩ =>
    ⟨i, Box.ne_zero_of_breakpoint ht, Box.not_free_of_target hi⟩
  by_cases hw : w.get i = 0
  · rw [hw, Box.shift_eq_zero hq hw]
  · obtain ⟨t, ht⟩ := Box.exists_breakpoint hi hw
    exact hfull i t ht

end Contained

/-! ## Rays without breakpoints -/

section Still

variable {M : Model ℝ n} (h : q.Extends M) {x : Vector ℝ n} (hx : q.base = x) {μ : ℝ} (hμ : r.decrease = μ)
  (hnone : ∀ i, q.box.breakpoint? q.base w i = none)

include h hx hμ hnone

/-- Where no coordinate moves the first trial is accepted, as the model does not change. -/
theorem projectedSearch_of_forall_none (htrials : 0 < r.maxTrials) : q.projectedSearch r w = ⟨⟨1, false⟩, 1⟩ := by
  have hfirst : q.firstBreakpoint w = 0 := by
    rw [firstBreakpoint, Box.breakpoints_of_forall_none hnone]
  have hstill : q.box.shift q.base w 1 = 0 := by
    have hin := h.base
    rw [hx] at hin hnone ⊢
    exact ext_get fun i => by rw [Box.shift_eq_zero_of_none hin zero_le_one (hnone i), get_zero]
  have haccepts : r.Accepts (q.trial w (1 : ℝ)) := by
    rw [h.trial, SearchRule.accepts_iff hμ, hstill, Model.value_eq]
    simp [Model.slope, dot_zero_left, dot_zero_right]
  obtain ⟨k, hk⟩ : ∃ k, r.maxTrials.toNat = k + 1 := ⟨r.maxTrials.toNat - 1, by omega⟩
  have hhalve : q.halve r w ⟨1, true⟩ = ⟨1, false⟩ := if_pos haccepts
  unfold projectedSearch
  rw [hk, advanceWhile_of_advance, hhalve]
  · rw [keepsHalving, hfirst]
    exact decide_eq_true (Exact.coe_lt.2 one_pos)
  · rw [hhalve]; rfl

theorem uncapped_of_forall_none (htrials : 0 < r.maxTrials) : q.Uncapped r w := by
  unfold Uncapped
  rw [projectedSearch_of_forall_none h hx hμ hnone htrials]; rfl

theorem Stepped.eq_one_of_forall_none {ℓ : ℝ} (hℓ : Stepped q r w ℓ) : ℓ = 1 := by
  have hlength : (q.projectedSearch r w).state.length = (1 : ℝ) := by
    rcases le_or_gt r.maxTrials 0 with hle | htrials
    · rw [projectedSearch, Int.toNat_of_nonpos hle]; rfl
    · rw [projectedSearch_of_forall_none h hx hμ hnone htrials]; rfl
  have hstep : (q.projectedStep r w).length = (1 : ℝ) := by
    show (if (q.projectedSearch r w).state.length < 1 ∧ (q.projectedSearch r w).state.length < q.firstBreakpoint w
      then q.firstBreakpoint w else (q.projectedSearch r w).state.length) = _
    rw [hlength, if_neg fun hlt => lt_irrefl (1 : ℝ) hlt.1]
  exact Exact.coe_inj.1 (hℓ.length_eq.symm.trans hstep)

end Still

/-- The length is 1 and the coordinates that head for a bound all move in full, or one of them ends on its bound. -/
theorem Stepped.unit_or_target {M : Model ℝ n} (h : q.Extends M) {x : Vector ℝ n} (hx : q.base = x) {μ : ℝ}
    (hμ : r.decrease = μ) {ℓ : ℝ} (hℓ : Stepped q r w ℓ) :
    (ℓ = 1 ∧ ∀ i, (q.box.breakpoint? q.base w i).isSome → (q.box.shift q.base w ℓ).get i = w.get i) ∨
      ∃ i, (q.box.breakpoint? q.base w i).isSome ∧ (q.projectedStep r w).point.get i = q.box.target w i := by
  rcases hℓ.full_or_target h.base with hfull | ⟨i, t, ht, hi⟩
  · have hfull' : ∀ i, (q.box.breakpoint? q.base w i).isSome → (q.box.shift q.base w ℓ).get i = w.get i := fun i hi =>
      hfull i _ (Option.some_get hi).symm
    rcases hℓ.bent with hone | hle
    · exact .inl ⟨hone, hfull'⟩
    · rcases Box.first_cases q.box q.base w with ⟨hnone, -⟩ | ⟨i, hi⟩
      · exact .inl ⟨hℓ.eq_one_of_forall_none h hx hμ hnone, hfull'⟩
      · refine .inr ⟨i, Option.isSome_of_eq_some hi, ?_⟩
        rw [hℓ.point_eq h.base, get_add, Exact.get_coe]
        exact Box.target_of_breakpoint_le h.base hi hle
  · exact .inr ⟨i, Option.isSome_of_eq_some ht, hi⟩

/-- A budget of as many trials as lead down to a length within the box does not stop the search. -/
theorem uncapped_of_contains {M : Model ℝ n} (h : q.Extends M) {x : Vector ℝ n} (hx : q.base = x) {μ : ℝ}
    (hμ : r.decrease = μ) (htrials : 0 < r.maxTrials)
    (hin : q.box.Contains (x + (1 / 2 : ℝ) ^ r.maxTrials.toNat • w : Vector ℝ n)) : q.Uncapped r w := by
  rcases Box.first_cases q.box q.base w with ⟨hnone, -⟩ | ⟨i, hi⟩
  · exact uncapped_of_forall_none h hx hμ hnone htrials
  · obtain ⟨hl, hu⟩ := hin i
    rw [Exact.get_coe, get_add, get_smul, Exact.coe_add] at hl hu
    refine uncapped_of_pow_le ?_
    rw [firstBreakpoint]
    rcases Box.breakpoint?_eq_some hi with ⟨hlt, hw, heq⟩ | ⟨hlt, hw, heq⟩
    · rw [heq, Exact.le_time_iff hlt hw, hx, Exact.get_coe]
      exact hu
    · rw [heq, Exact.le_time_iff_of_neg hlt hw, hx, Exact.get_coe]
      exact hl

/-! ## Where the search lands -/

/-- The search along a direction `w` ends at a length between 0 and 1, at the point of the box where the step leads.
No coordinate moves backwards or farther than `w` sends it. Either the length is 1 and the coordinates with a breakpoint
move in full, or one of them ends at the bound it moves towards. Given as many trials as halve 1 down to the
first breakpoint, or one where there is none, the search is not stopped by its limit: it accepts the step, or does not go
beyond the first breakpoint. -/
theorem projectedStep_lands {q : BoxedModel Exact n} {M : Model ℝ n} (h : q.Extends M) {x : Vector ℝ n}
    (hx : q.base = x) {r : SearchRule Exact} {μ : ℝ} (hμ : r.decrease = μ) (w : Vector ℝ n) :
    ∃ (ℓ : ℝ) (d : Vector ℝ n), (q.projectedStep r w).length = ℓ ∧ (q.projectedStep r w).step = d ∧
      (q.projectedStep r w).point = (x + d : Vector ℝ n) ∧ q.box.Contains (q.projectedStep r w).point ∧
      0 < ℓ ∧ ℓ ≤ 1 ∧ (∀ i, d.get i ∈ Set.uIcc 0 (w.get i)) ∧ norm d ≤ norm w ∧
      ((ℓ = 1 ∧ ∀ i, (q.box.breakpoint? q.base w i).isSome → d.get i = w.get i) ∨
        ∃ i, (q.box.breakpoint? q.base w i).isSome ∧ (q.projectedStep r w).point.get i = q.box.target w i) ∧
      ((((1 / 2 : ℝ) ^ r.maxTrials.toNat : ℝ) : Exact) ≤ q.firstBreakpoint w ∨
          (q.box.breakpoints q.base w).count = 0 ∧ 0 < r.maxTrials →
        q.Uncapped r w ∧
          (q.Accepted r w ∧ M.value d ≤ μ * M.slope d ∨ (ℓ : Exact) ≤ q.firstBreakpoint w)) := by
  obtain ⟨ℓ, hℓ⟩ := exists_stepped q r w
  have hpoint := hℓ.point_eq h.base
  have hin : q.box.Contains (q.projectedStep r w).point := by
    rw [hpoint]
    exact Box.contains_add_shift h.base w ℓ
  refine ⟨ℓ, q.box.shift q.base w ℓ, hℓ.length_eq, hℓ.step_eq h.base, ?_, hin, hℓ.pos, hℓ.le_one,
    hℓ.mem_uIcc h.base, hℓ.norm_le h.base, hℓ.unit_or_target h hx hμ, fun hbudget => ?_⟩
  · rw [hpoint, hx, Exact.coe_add_vector]
  · have hu : q.Uncapped r w := by
      rcases hbudget with hle | ⟨hcount, htrials⟩
      · exact uncapped_of_pow_le hle
      · exact uncapped_of_forall_none h hx hμ ((Box.count_eq_zero_iff q.box q.base w).1 hcount) htrials
    refine ⟨hu, (hℓ.straight hu).imp_left fun ha => ⟨ha, ?_⟩⟩
    have haccepts := hℓ.accepted ha
    rwa [h.trial, SearchRule.accepts_iff hμ] at haccepts

/-- A model that opens downwards, from a corner of a strip. -/
noncomputable def strip : BoxedModel Exact 2 where
  model := ⟨(#v[-1, 0] : Vector ℝ 2), fun v => -v⟩
  box := ⟨#v[0, 0], #v[1, .top]⟩
  base := (#v[0, 0] : Vector ℝ 2)

theorem projectedStep_lands_strip :
    let r : SearchRule Exact := .default
    let w : Vector ℝ 2 := #v[2, 1]
    (((1 / 2 : ℝ) ^ 50 : ℝ) : Exact) ≤ strip.firstBreakpoint w ∧
    ∃ (ℓ : ℝ) (d : Vector ℝ 2), (strip.projectedStep r w).length = ℓ ∧ (strip.projectedStep r w).step = d ∧
      (strip.projectedStep r w).point = (#v[0, 0] + d : Vector ℝ 2) ∧ strip.box.Contains (strip.projectedStep r w).point ∧
      0 < ℓ ∧ ℓ ≤ 1 ∧ (∀ i, d.get i ∈ Set.uIcc 0 (w.get i)) ∧ norm d ≤ norm w ∧
      ((ℓ = 1 ∧ ∀ i, (strip.box.breakpoint? strip.base w i).isSome → d.get i = w.get i) ∨
        ∃ i, (strip.box.breakpoint? strip.base w i).isSome ∧
          (strip.projectedStep r w).point.get i = strip.box.target w i) ∧
      strip.Uncapped r w ∧ (strip.Accepted r w ∧
        Model.value ⟨#v[-1, 0], fun v => -v⟩ d ≤ 0.01 * Model.slope ⟨#v[-1, 0], fun v => -v⟩ d ∨
          (ℓ : Exact) ≤ strip.firstBreakpoint w) := by
  intro r w
  have hget : ∀ i, strip.base.get i = (0 : ℝ) :=
    Fin.forall_fin_two.2 ⟨Exact.get_coe #v[0, 0] 0, Exact.get_coe #v[0, 0] 1⟩
  have hbase : strip.box.Contains strip.base := by
    refine Fin.forall_fin_two.2 ⟨?_, ?_⟩ <;> rw [hget]
    · exact ⟨Exact.coe_le.2 (le_refl (0 : ℝ)), Exact.coe_le.2 (zero_le_one' ℝ)⟩
    · exact ⟨Exact.coe_le.2 (le_refl (0 : ℝ)), trivial⟩
  have h : strip.Extends ⟨#v[-1, 0], fun v => -v⟩ := ⟨⟨rfl, fun v => (Exact.coe_neg_vector v).symm⟩, hbase⟩
  -- the first coordinate reaches its bound at one half, and the second never does
  have hfirst : (((1 / 2 : ℝ) ^ 50 : ℝ) : Exact) ≤ strip.firstBreakpoint w := by
    have hupper : ∀ i, strip.base.get i < strip.box.upper.get i ∧ 0 < w.get i ∧
        strip.base.get i + ((1 / 2 : ℝ) ^ 50 * w.get i : ℝ) ≤ strip.box.upper.get i := by
      refine Fin.forall_fin_two.2 ⟨?_, ?_⟩ <;> rw [hget]
      · exact ⟨Exact.coe_lt.2 (zero_lt_one' ℝ), zero_lt_two' ℝ,
          Exact.coe_le.2 (show (0 : ℝ) + (1 / 2) ^ 50 * 2 ≤ 1 by norm_num)⟩
      · exact ⟨trivial, zero_lt_one' ℝ, trivial⟩
    have hbreak : ∀ i, strip.box.breakpoint? strip.base w i =
        some ((strip.box.upper.get i - strip.base.get i) / (w.get i : Exact)) := fun i => by
      unfold Box.breakpoint?
      rw [Exact.get_coe, if_pos ⟨(hupper i).1, Exact.coe_pos.2 (hupper i).2.1⟩]
    rcases Box.first_cases strip.box strip.base w with ⟨hnone, -⟩ | ⟨i, hi⟩
    · have hsome := hbreak 0
      rw [hnone 0] at hsome
      cases hsome
    · rw [hbreak i] at hi
      rw [firstBreakpoint, ← Option.some.inj hi, Exact.le_time_iff (hupper i).1 (hupper i).2.1]
      exact (hupper i).2.2
  obtain ⟨ℓ, d, hlength, hstep, hpoint, hin, hpos, hle, hmem, hnorm, hlands, hends⟩ :=
    projectedStep_lands h (x := #v[0, 0]) rfl (r := r) (μ := 0.01) rfl w
  exact ⟨hfirst, ℓ, d, hlength, hstep, hpoint, hin, hpos, hle, hmem, hnorm, hlands, hends (.inl hfirst)⟩

end BoxNewton.BoxedModel
