/-
Loops as iterations: a loop ends in the iterate of its advance that it counts, after states that all
passed the test, and a state that fails the test is where it ends. Loops on related states run in step
(`advanceWhile_related`), so a map of states that respects test and advance takes a loop to a loop. Any two loops
count alike exactly where their tests agree as long as both go on (`steps_advanceWhile_eq_iff`).
-/
import BoxNewton.Loop
import Mathlib.Logic.Function.Iterate

namespace BoxNewton

variable {σ : Type}

theorem state_advanceWhile (test : σ → Bool) (advance : σ → σ) (budget : ℕ) (s : σ) :
    (advanceWhile test advance budget s).state = advance^[(advanceWhile test advance budget s).steps] s := by
  induction budget generalizing s with
  | zero => rfl
  | succ k ih =>
    unfold advanceWhile
    split
    · exact ih (advance s)
    · rfl

theorem advanceWhile_of_not {test : σ → Bool} {s : σ} (h : test s = false) (advance : σ → σ) (budget : ℕ) :
    advanceWhile test advance budget s = ⟨s, 0⟩ := by
  cases budget with
  | zero => rfl
  | succ k => rw [advanceWhile, h]; rfl

theorem steps_advanceWhile_eq_zero_iff {test : σ → Bool} {advance : σ → σ} {budget : ℕ} {s : σ} :
    (advanceWhile test advance budget s).steps = 0 ↔ budget = 0 ∨ test s = false := by
  cases budget with
  | zero => exact iff_of_true rfl (.inl rfl)
  | succ k =>
    unfold advanceWhile
    split
    · simp [‹test s = true›]
    · simpa using ‹¬ test s = true›

/-- The states visited are the iterates that the loop counts. -/
theorem visited_eq_map (test : σ → Bool) (advance : σ → σ) (budget : ℕ) (s : σ) :
    visited test advance budget s =
      (List.range (advanceWhile test advance budget s).steps).map fun k => advance^[k + 1] s := by
  induction budget generalizing s with
  | zero => rfl
  | succ k ih =>
    unfold visited advanceWhile
    split
    · rw [ih, List.range_succ_eq_map, List.map_cons, List.map_map]; rfl
    · rfl

/-- A loop that passes the test, but fails it after one advance, makes just that one. -/
theorem advanceWhile_of_advance {test : σ → Bool} {advance : σ → σ} {s : σ} (h : test s = true)
    (h' : test (advance s) = false) (budget : ℕ) :
    advanceWhile test advance (budget + 1) s = ⟨advance s, 1⟩ := by
  rw [advanceWhile, if_pos h, advanceWhile_of_not h']

/-- Every state before the last passed the test. -/
theorem test_iterate_of_lt {test : σ → Bool} {advance : σ → σ} {budget i : ℕ} {s : σ}
    (h : i < (advanceWhile test advance budget s).steps) : test (advance^[i] s) = true := by
  induction budget generalizing s i with
  | zero => exact absurd h (Nat.not_lt_zero i)
  | succ k ih =>
    unfold advanceWhile at h
    split at h
    · cases i with
      | zero => assumption
      | succ i =>
        have hi : i < (advanceWhile test advance k (advance s)).steps := Nat.lt_of_succ_lt_succ h
        exact (ih hi :)
    · exact absurd h (Nat.not_lt_zero i)

/-- What holds at the start with a count of zero, and after an advance with a count one higher, holds of the last state
at the count of the loop. -/
theorem advanceWhile_counted {test : σ → Bool} {advance : σ → σ} {P : ℕ → σ → Prop}
    (keep : ∀ k s, P k s → test s = true → P (k + 1) (advance s)) (budget : ℕ) {s : σ} (start : P 0 s) :
    P (advanceWhile test advance budget s).steps (advanceWhile test advance budget s).state := by
  have hiterate : ∀ k ≤ (advanceWhile test advance budget s).steps, P k (advance^[k] s) := by
    intro k hk
    induction k with
    | zero => exact start
    | succ k ih =>
      rw [Function.iterate_succ_apply']
      exact keep k _ (ih (Nat.le_of_succ_le hk)) (test_iterate_of_lt hk)
  rw [state_advanceWhile]
  exact hiterate _ (Nat.le_refl _)

/-! ## Two loops -/

section Related

variable {σ' : Type} {test : σ → Bool} {advance : σ → σ} {test' : σ' → Bool} {advance' : σ' → σ'}

/-- Loops whose tests agree on related states stay related if their advances keep them so, and end after equally
many. -/
theorem advanceWhile_related {R : σ → σ' → Prop} (htest : ∀ s s', R s s' → test' s' = test s)
    (keep : ∀ s s', R s s' → test s = true → R (advance s) (advance' s')) (budget : ℕ) {s : σ} {s' : σ'}
    (start : R s s') :
    R (advanceWhile test advance budget s).state (advanceWhile test' advance' budget s').state ∧
      (advanceWhile test' advance' budget s').steps = (advanceWhile test advance budget s).steps := by
  induction budget generalizing s s' with
  | zero => exact ⟨start, rfl⟩
  | succ k ih =>
    unfold advanceWhile
    rw [htest _ _ start]
    split
    · obtain ⟨hstate, hsteps⟩ := ih (keep _ _ start ‹_›)
      exact ⟨hstate, congrArg (· + 1) hsteps⟩
    · exact ⟨start, rfl⟩

theorem advanceWhile_map {f : σ → σ'} (htest : ∀ s, test' (f s) = test s)
    (hadvance : ∀ s, advance' (f s) = f (advance s)) (budget : ℕ) (s : σ) :
    advanceWhile test' advance' budget (f s) =
      ⟨f (advanceWhile test advance budget s).state, (advanceWhile test advance budget s).steps⟩ := by
  have hagree : ∀ s s', s' = f s → test' s' = test s := fun s _ hs => hs ▸ htest s
  have hkeep : ∀ s s', s' = f s → test s = true → advance' s' = f (advance s) := fun s _ hs _ => hs ▸ hadvance s
  obtain ⟨hstate, hsteps⟩ := advanceWhile_related hagree hkeep budget (Eq.refl (f s))
  rw [← hstate, ← hsteps]

/-- Loops make equally many advances exactly where, as long as both go on, their tests agree. -/
theorem steps_advanceWhile_eq_iff {budget : ℕ} {s : σ} {s' : σ'} :
    (advanceWhile test' advance' budget s').steps = (advanceWhile test advance budget s).steps ↔
      ∀ k < budget, (∀ j < k, test' (advance'^[j] s') = true ∧ test (advance^[j] s) = true) →
        (test' (advance'^[k] s') = true ↔ test (advance^[k] s) = true) := by
  induction budget generalizing s s' with
  | zero => simp [advanceWhile]
  | succ b ih =>
    simp only [Nat.forall_lt_succ_left, Function.iterate_zero_apply, Function.iterate_succ_apply]
    unfold advanceWhile
    cases test s <;> cases test' s' <;> simp [ih]

end Related

end BoxNewton
