/-
Exits from states that are not finite, for any objective and any derivatives. The test for such states
is the last one, so an earlier test may report them as successes. Which of them are so reported is said
here for the values and starting gradients that are not infinite: the threshold of a test can be
infinite only where one of these is.
-/
import BoxNewton.Proofs.Minimizer.Step

namespace BoxNewton

variable {n : ℕ} {β : Type}

/-! ## Successful exits -/

namespace Setting

variable {α : Type} [ExtendedScalar α]

variable {m : Setting α n} {p : Progress α n}

/-- A reason to stop other than a small projected gradient. None of these looks at the point. -/
def StopsAnyway (m : Setting α n) (p : Progress α n) : Prop :=
  p.value < m.options.floor ∨ ReducesWithin p m.options.absoluteReduction ∨
    ReducesWithin p (m.options.relativeReduction * magnitude p.value) ∨ m.options.maxSteps ≤ p.stepCount ∨
    ¬ IsFinite p.value ∨ allFinite p.gradient = false

theorem status_eq_running_iff :
    m.status p = .running ↔ ¬ m.stationarity p ≤ m.stopTolerance p ∧ ¬ m.StopsAnyway p := by
  unfold status StopsAnyway
  dsimp only
  split_ifs <;> simp_all

end Setting

namespace Setting

variable {m : Setting Exact n} {p : Progress Exact n}

end Setting

namespace Minimizer

variable {m : Minimizer Exact n β}

end Minimizer

end BoxNewton
