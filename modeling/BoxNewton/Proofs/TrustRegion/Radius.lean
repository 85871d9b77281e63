/-
The radius update in exact arithmetic. The value at a trial may be anything, and so may the reduction;
the new radius is real all the same, and positive after a step of positive length. Its four regions are told
apart once (`updateRadius_cases`); what an accepted and a rejected step do to the radius is read off them.
-/
import BoxNewton.Proofs.Exact.Basic
import BoxNewton.TrustRegion.Radius

namespace BoxNewton.TrustRegion

open Exact

theorem exists_stepRatio (f trial : Exact) (slope : ℝ) :
    ∃ r : ℝ, stepRatio f trial slope = r := by
  unfold stepRatio
  generalize trial - f - slope = c
  dsimp only
  have hquotient : ∃ q : ℝ, -0.5 * (slope : Exact) / (if 0 < c then c else 1) = q := by
    have hnum : -0.5 * (slope : Exact) = ((-0.5 * slope : ℝ) : Exact) := rfl
    rw [hnum]
    split
    · -- a positive curvature is real or infinite, and dividing by infinity gives zero
      cases c with
      | real c =>
        have hc : 0 < c := ‹(0 : Exact) < _›
        exact ⟨_, (coe_div _ hc.ne').symm⟩
      | top => exact ⟨_, rfl⟩
      | bot | nan => exact absurd ‹(0 : Exact) < _› id
    · exact ⟨_, (coe_div _ one_ne_zero).symm⟩
  split
  · exact ⟨4.0, rfl⟩
  · obtain ⟨q, hq⟩ := hquotient
    rw [hq]
    exact ⟨max 0.25 q, (coe_greater 0.25 q).symm⟩

/-! ## The constants -/

theorem leastShrink_eq : (leastShrink : Exact) = ((1 / 4 : ℝ) : Exact) := by
  show ((0.25 : ℝ) : Exact) = _
  norm_num

theorem mostShrink_eq : (mostShrink : Exact) = ((1 / 2 : ℝ) : Exact) := by
  show ((0.5 : ℝ) : Exact) = _
  norm_num

theorem mostGrowth_eq : (mostGrowth : Exact) = ((4 : ℝ) : Exact) := by
  show ((4.0 : ℝ) : Exact) = _
  norm_num

/-- The multiples of a real radius within which the new one is kept. -/
theorem multiple_eq (radius : ℝ) : (leastShrink : Exact) * radius = (radius / 4 : ℝ) ∧
    (mostShrink : Exact) * radius = (radius / 2 : ℝ) ∧ (mostGrowth : Exact) * radius = (4 * radius : ℝ) := by
  rw [leastShrink_eq, mostShrink_eq, mostGrowth_eq, ← coe_mul, ← coe_mul, ← coe_mul, one_div_mul_eq_div,
    one_div_mul_eq_div]
  exact ⟨rfl, rfl, rfl⟩

/-- A part of a real prediction is real. -/
theorem fraction_eq (π : ℝ) : (acceptance : Exact) * π = (1e-4 * π : ℝ) ∧ (poorBelow : Exact) * π = (0.25 * π : ℝ) ∧
    (veryGoodFrom : Exact) * π = (0.75 * π : ℝ) :=
  ⟨rfl, rfl, rfl⟩

/-! ## The update -/

/-- The update over the reals, by the region that the reduction falls into: failed, poor, good or very good. -/
theorem updateRadius_cases (radius length ratio : ℝ) (actual predicted : Exact) :
    ∃ ρ : ℝ, updateRadius (radius : Exact) actual predicted (length : Exact) (ratio : Exact) = ρ ∧
      ((actual < acceptance * predicted ∨ Coincide actual (-ExtendedScalar.infinity)) ∧
          ρ = min (max ratio (1 / 4) * length) (radius / 2) ∨
        actual < poorBelow * predicted ∧ ρ = max (radius / 4) (min (ratio * length) (radius / 2)) ∨
        ¬ actual < poorBelow * predicted ∧ actual < veryGoodFrom * predicted ∧
          ρ = max (radius / 4) (min (ratio * length) (4 * radius)) ∨
        ¬ actual < poorBelow * predicted ∧ ρ = max radius (min (ratio * length) (4 * radius))) := by
  obtain ⟨hquarter, hhalf, hfourfold⟩ := multiple_eq radius
  unfold updateRadius
  rw [hquarter, hhalf, hfourfold, leastShrink_eq]
  simp only [← coe_mul, ← coe_lesser, ← coe_greater]
  split
  · exact ⟨_, rfl, .inl ⟨‹_›, rfl⟩⟩
  · split
    · exact ⟨_, rfl, .inr (.inl ⟨‹_›, rfl⟩)⟩
    · split
      · exact ⟨_, rfl, .inr (.inr (.inl ⟨‹_›, ‹_›, rfl⟩))⟩
      · exact ⟨_, rfl, .inr (.inr (.inr ⟨‹_›, rfl⟩))⟩

/-- The new radius is real. It is not negative, or positive, if the old one and the step length are so. -/
theorem exists_updateRadius (radius length ratio : ℝ) (actual predicted : Exact) :
    ∃ ρ : ℝ, updateRadius (radius : Exact) actual predicted (length : Exact) (ratio : Exact) = ρ ∧
      (0 ≤ radius → 0 ≤ length → 0 ≤ ρ) ∧ (0 < radius → 0 < length → 0 < ρ) := by
  obtain ⟨ρ, hρ, hregion⟩ := updateRadius_cases radius length ratio actual predicted
  have hfactor : 0 < max ratio (1 / 4) := lt_max_of_lt_right (by norm_num)
  refine ⟨ρ, hρ, ?_⟩
  rcases hregion with ⟨-, rfl⟩ | ⟨-, rfl⟩ | ⟨-, -, rfl⟩ | ⟨-, rfl⟩
  · exact ⟨fun h h' => le_min (mul_nonneg hfactor.le h') (by linarith),
      fun h h' => lt_min (mul_pos hfactor h') (by linarith)⟩
  · exact ⟨fun h _ => le_max_of_le_left (by linarith), fun h _ => lt_max_of_lt_left (by linarith)⟩
  · exact ⟨fun h _ => le_max_of_le_left (by linarith), fun h _ => lt_max_of_lt_left (by linarith)⟩
  · exact ⟨fun h _ => le_max_of_le_left h, fun h _ => lt_max_of_lt_left h⟩

/-- After a step that is not accepted the radius is at most half of what it was. -/
theorem updateRadius_of_rejected {radius length π : ℝ} (h0 : 0 < radius) (hlength : 0 < length) (hπ : 0 < π)
    (ratio : ℝ) {actual : Exact} (h : actual ≤ acceptance * π) :
    ∃ ρ : ℝ, updateRadius (radius : Exact) actual π (length : Exact) (ratio : Exact) = ρ ∧ 0 < ρ ∧ ρ ≤ radius / 2 := by
  -- a reduction at the threshold of acceptance is poor
  have hpoor : actual < poorBelow * π := by
    refine lt_of_le_of_lt' h ?_
    rw [(fraction_eq π).1, (fraction_eq π).2.1, coe_lt]
    linarith
  obtain ⟨ρ, hρ, -, hpos⟩ := exists_updateRadius radius length ratio actual π
  obtain ⟨ρ', hρ', hregion⟩ := updateRadius_cases radius length ratio actual π
  obtain rfl : ρ = ρ' := coe_inj.1 (hρ.symm.trans hρ')
  refine ⟨ρ, hρ, hpos h0 hlength, ?_⟩
  rcases hregion with ⟨-, rfl⟩ | ⟨-, rfl⟩ | ⟨hgood, -⟩ | ⟨hgood, -⟩
  · exact min_le_right _ _
  · exact max_le (by linarith) (min_le_right _ _)
  · exact absurd hpoor hgood
  · exact absurd hpoor hgood

/-- After an accepted step the radius lies between a quarter of what it was and four times that, and it has not shrunk
if the step was very good. -/
theorem updateRadius_of_accepted {radius π : ℝ} (h0 : 0 ≤ radius) (hπ : 0 ≤ π) (length ratio : ℝ) {actual : Exact}
    (h : acceptance * π < actual) :
    ∃ ρ : ℝ, updateRadius (radius : Exact) actual π (length : Exact) (ratio : Exact) = ρ ∧ radius / 4 ≤ ρ ∧
      ρ ≤ 4 * radius ∧ (veryGoodFrom * π ≤ actual → radius ≤ ρ) := by
  have hfailed : ¬ (actual < acceptance * π ∨ Coincide actual (-ExtendedScalar.infinity)) := by
    rintro (hlt | ⟨hle, -⟩)
    · exact lt_irrefl _ (coe_lt.1 (lt_of_lt_of_le' h (le_of_lt' hlt)))
    · exact (lt_of_lt_of_le' h hle).elim
  have hgood : ∀ {a : ℝ}, a ≤ 0.75 * π → veryGoodFrom * (π : Exact) ≤ actual → ¬ actual < (a : Exact) := by
    intro a ha hle hlt
    exact (coe_lt.1 (lt_of_le_of_lt' hle hlt)).not_ge ha
  obtain ⟨ρ, hρ, hregion⟩ := updateRadius_cases radius length ratio actual π
  rw [(fraction_eq π).2.1, (fraction_eq π).2.2] at hregion
  refine ⟨ρ, hρ, ?_⟩
  rcases hregion with ⟨hlt, -⟩ | ⟨hlt, rfl⟩ | ⟨-, hlt, rfl⟩ | ⟨-, rfl⟩
  · exact absurd hlt hfailed
  · exact ⟨le_max_left _ _, max_le (by linarith) ((min_le_right _ _).trans (by linarith)),
      fun hle => absurd hlt (hgood (by linarith) hle)⟩
  · exact ⟨le_max_left _ _, max_le (by linarith) (min_le_right _ _), fun hle => absurd hlt (hgood le_rfl hle)⟩
  · exact ⟨le_max_of_le_left (by linarith), max_le (by linarith) (min_le_right _ _), fun _ => le_max_left _ _⟩

/-- A reduction that was predicted exactly does not shrink the radius, and makes it at most four times
as large. -/
theorem updateRadius_of_predicted {radius π : ℝ} (h0 : 0 ≤ radius) (hπ : 0 < π) (length ratio : ℝ) :
    (radius : Exact) ≤ updateRadius (radius : Exact) π π (length : Exact) (ratio : Exact) ∧
      updateRadius (radius : Exact) π π (length : Exact) (ratio : Exact) ≤ mostGrowth * radius := by
  have hacc : acceptance * π < (π : Exact) := by
    rw [(fraction_eq π).1, coe_lt]
    linarith
  have hgood : veryGoodFrom * π ≤ (π : Exact) := by
    rw [(fraction_eq π).2.2, coe_le]
    linarith
  obtain ⟨ρ, hρ, -, hle, hge⟩ := updateRadius_of_accepted h0 hπ.le length ratio hacc
  rw [hρ, mostGrowth_eq, ← coe_mul]
  exact ⟨coe_le.2 (hge hgood), coe_le.2 hle⟩

end BoxNewton.TrustRegion
