/-
Loops with a budget: a state is advanced while a test holds, at most a given number of times.
Every search of the library is such a loop, so how a loop ends is said here once: the state has
been advanced as often as counted, every state before the last passed the test, and the last one
fails it unless the budget is used up.
-/

namespace BoxNewton

variable {σ : Type}

/-- Where a loop ended, and after how many advances. -/
structure Run (σ : Type) where
  state : σ
  steps : Nat

/-- Advances the state while it passes the test, at most as often as the budget says. -/
def advanceWhile (test : σ → Bool) (advance : σ → σ) : Nat → σ → Run σ
  | 0, s => ⟨s, 0⟩
  | budget + 1, s =>
    if test s then
      let rest := advanceWhile test advance budget (advance s)
      ⟨rest.state, rest.steps + 1⟩
    else ⟨s, 0⟩

/-- The states that the loop reaches after the first, in order. -/
def visited (test : σ → Bool) (advance : σ → σ) : Nat → σ → List σ
  | 0, _ => []
  | budget + 1, s =>
    if test s then advance s :: visited test advance budget (advance s) else []

/-! ## How a loop ends -/

theorem steps_advanceWhile_le (test : σ → Bool) (advance : σ → σ) (budget : Nat) (s : σ) :
    (advanceWhile test advance budget s).steps ≤ budget := by
  induction budget generalizing s with
  | zero => exact Nat.le_refl 0
  | succ k ih =>
    unfold advanceWhile
    split
    · exact Nat.succ_le_succ (ih _)
    · exact Nat.zero_le _

/-- What an advance keeps, as long as the test holds, is true of the last state. -/
theorem advanceWhile_induction {test : σ → Bool} {advance : σ → σ} {P : σ → Prop}
    (keep : ∀ s, P s → test s = true → P (advance s)) (budget : Nat) {s : σ} (start : P s) :
    P (advanceWhile test advance budget s).state := by
  induction budget generalizing s with
  | zero => exact start
  | succ k ih =>
    unfold advanceWhile
    split
    · exact ih (keep s start ‹_›)
    · exact start

/-- A loop that stops within its budget stops at a state that fails the test. -/
theorem test_advanceWhile_of_lt {test : σ → Bool} {advance : σ → σ} {budget : Nat} {s : σ}
    (h : (advanceWhile test advance budget s).steps < budget) :
    test (advanceWhile test advance budget s).state = false := by
  induction budget generalizing s with
  | zero => exact absurd h (Nat.not_lt_zero _)
  | succ k ih =>
    unfold advanceWhile at h ⊢
    split
    · rw [if_pos ‹_›] at h
      exact ih (Nat.lt_of_succ_lt_succ h)
    · simpa using ‹¬ test s = true›

end BoxNewton
