/-
What the states of a run hold, over exact numbers and for any objective: its values need not be
finite, and the derivatives need not be those of the objective. Every state is consistent with its
projected point, its counters agree, and a rejected trial leaves everything that belongs to the point
as it was.
-/
import BoxNewton.Proofs.Minimizer.Step
import Mathlib.Algebra.BigOperators.Group.Finset.Basic

namespace BoxNewton.Minimizer

variable {n : ℕ} {β : Type} {m : Minimizer Exact n β} {s : State Exact n β}

/-! ## Consistency -/

/-- The value, the gradient and the auxiliary output are those of the projected point. -/
structure Consistent (m : Minimizer Exact n β) (s : State Exact n β) : Prop where
  value : s.value = m.problem.value (m.box.project s.point)
  gradient : s.gradient = m.problem.gradient (m.box.project s.point)
  auxiliary : s.auxiliary = m.problem.auxiliary (m.box.project s.point)

theorem consistent_start (m : Minimizer Exact n β) (y : Vector Exact n) : m.Consistent (m.start y) :=
  ⟨rfl, rfl, rfl⟩

/-- The new point is its own projection, so it is the one that the value and the gradient belong to. -/
theorem Consistent.advance_of_project (h : m.Consistent s)
    (hproj : m.box.project (m.advance s).point = (m.advance s).point) : m.Consistent (m.advance s) := by
  cases ha : (m.advance s).accepted with
  | true =>
    have ht := advance_of_accepted ha
    rw [ht.point] at hproj
    exact ⟨by rw [ht.value, ht.point, hproj]; rfl, by rw [ht.gradient, ht.point, hproj],
      by rw [ht.auxiliary, ht.point, hproj]⟩
  | false =>
    have hk := advance_of_rejected ha
    rw [hk.point] at hproj
    exact ⟨by rw [hk.value, hk.point, hproj, h.value], by rw [hk.gradient, hk.point, hproj, h.gradient],
      by rw [hk.auxiliary, hk.point, hproj, h.auxiliary]⟩

theorem Consistent.advance (h : m.Consistent s) (hin : m.box.Contains (m.advance s).point) :
    m.Consistent (m.advance s) :=
  h.advance_of_project (Box.project_of_contains hin)

/-! ## Counters -/

/-- The counters after `k` iterations from `y`. -/
structure Tallied (m : Minimizer Exact n β) (y : Vector Exact n) (k : ℕ) (s : State Exact n β) : Prop where
  stepCount : s.stepCount = k
  evaluations : (s.evaluations : Int) = s.stepCount + 1
  gradients : (s.gradients : Int) = s.acceptedSteps + 1
  acceptedSteps : s.acceptedSteps ≤ s.stepCount
  initialNorm : s.initialNorm = (m.start y).initialNorm
  totalIterations : s.totalIterations = ∑ i ∈ Finset.range k, (m.stateAt y (i + 1)).iterations

theorem tallied_start (m : Minimizer Exact n β) (y : Vector Exact n) : m.Tallied y 0 (m.start y) :=
  ⟨rfl, rfl, rfl, le_rfl, rfl, rfl⟩

theorem Tallied.advance {y : Vector Exact n} {k : ℕ} (h : m.Tallied y k (m.stateAt y k)) :
    m.Tallied y (k + 1) (m.advance (m.stateAt y k)) := by
  have hcount : (m.advance (m.stateAt y k)).stepCount = (m.stateAt y k).stepCount + 1 := rfl
  have hevals : (m.advance (m.stateAt y k)).evaluations = (m.stateAt y k).evaluations + 1 := rfl
  have htotal : (m.advance (m.stateAt y k)).totalIterations
      = (m.stateAt y k).totalIterations + (m.advance (m.stateAt y k)).iterations := rfl
  have h1 := h.evaluations
  have h2 := h.gradients
  have h3 := h.acceptedSteps
  have haccepted : ((m.advance (m.stateAt y k)).gradients : Int) = (m.advance (m.stateAt y k)).acceptedSteps + 1 ∧
      (m.advance (m.stateAt y k)).acceptedSteps ≤ (m.stateAt y k).stepCount + 1 := by
    cases ha : (m.advance (m.stateAt y k)).accepted with
    | true =>
      have ht := advance_of_accepted ha
      rw [ht.gradients, ht.acceptedSteps]
      constructor <;> omega
    | false =>
      have hk := advance_of_rejected ha
      rw [hk.gradients, hk.acceptedSteps]
      constructor <;> omega
  refine ⟨?_, ?_, haccepted.1, hcount ▸ haccepted.2, h.initialNorm, ?_⟩
  · rw [hcount, h.stepCount]; rfl
  · rw [hevals, hcount]; omega
  · rw [htotal, h.totalIterations, Finset.sum_range_succ, stateAt_succ]

theorem monotone_acceptedSteps (m : Minimizer Exact n β) (y : Vector Exact n) :
    Monotone fun k => (m.stateAt y k).acceptedSteps := by
  refine monotone_nat_of_le_succ fun k => ?_
  rw [stateAt_succ]
  cases ha : (m.advance (m.stateAt y k)).accepted with
  | true => rw [(advance_of_accepted ha).acceptedSteps]; omega
  | false => rw [(advance_of_rejected ha).acceptedSteps]

/-- Once a step was accepted the counter is positive. -/
theorem acceptedSteps_pos {y : Vector Exact n} {i k : ℕ} (hik : i < k)
    (ha : (m.stateAt y (i + 1)).accepted = true) : 0 < (m.stateAt y k).acceptedSteps := by
  have hstart : 0 ≤ (m.stateAt y i).acceptedSteps := monotone_acceptedSteps m y (Nat.zero_le i)
  have hle : (m.stateAt y (i + 1)).acceptedSteps ≤ (m.stateAt y k).acceptedSteps := monotone_acceptedSteps m y hik
  rw [stateAt_succ] at ha hle
  rw [(advance_of_accepted ha).acceptedSteps] at hle
  omega

/-! ## Runs -/

section Run

variable (hb : ∀ i, m.box.lower.get i ≤ m.box.upper.get i)
  (hg : ∀ x, allFinite (m.problem.gradient x) = true)
  (hH : ∀ x v, allFinite v = true → allFinite (m.problem.product x v) = true)
  {y : Vector Exact n} (hy : ∀ i, y.get i ≠ .nan)

include hH in
theorem Sound.exists_model (h : m.Sound s) : ∃ M, (m.subproblem s).Extends M := by
  obtain ⟨g, hg⟩ := h.gradient
  obtain ⟨B, hB⟩ := exists_extends (hH (m.box.project s.point))
  exact ⟨⟨g, B⟩, ⟨hg, hB⟩, h.contains⟩

include hg hH in
theorem Sound.advance (h : m.Sound s) : m.Sound (m.advance s) ∧ m.box.Contains (m.advance s).point := by
  obtain ⟨M, hM⟩ := h.exists_model hH
  obtain ⟨t, d, hf⟩ := h.exists_finds hM
  exact ⟨hf.sound_advance hM h (hg _), hf.contains_advance h⟩

include hb hg hH hy in
theorem sound_stateAt (k : ℕ) : m.Sound (m.stateAt y k) := by
  induction k with
  | zero => exact sound_start hb hy (hg _)
  | succ k ih =>
    rw [stateAt_succ]
    exact (ih.advance hg hH).1

include hb hg hH hy in
/-- Every state of a run is consistent and tallied, and from the first iteration on its point lies in
the box. A rejected trial keeps the point and what belongs to it, and a trial whose value is not finite
is rejected. -/
theorem run_consistent (k : ℕ) :
    m.Consistent (m.stateAt y k) ∧ m.Tallied y k (m.stateAt y k) ∧
      (0 < k → m.box.Contains (m.stateAt y k).point ∧
        m.box.project (m.stateAt y k).point = (m.stateAt y k).point) ∧
      ((m.stateAt y (k + 1)).accepted = false → m.KeepsPoint (m.stateAt y k) (m.stateAt y (k + 1))) ∧
      (¬ IsFinite (m.trialValue (m.stateAt y k)) → (m.stateAt y (k + 1)).accepted = false) := by
  rw [stateAt_succ]
  refine ⟨?_, ?_, ?_, advance_of_rejected, rejected_of_not_finite⟩
  · induction k with
    | zero => exact consistent_start m y
    | succ k ih =>
      rw [stateAt_succ]
      exact ih.advance ((sound_stateAt hb hg hH hy k).advance hg hH).2
  · induction k with
    | zero => exact tallied_start m y
    | succ k ih =>
      have := ih.advance
      rwa [← stateAt_succ] at this
  · intro hk
    obtain ⟨j, rfl⟩ : ∃ j, k = j + 1 := ⟨k - 1, by omega⟩
    rw [stateAt_succ]
    have hin := ((sound_stateAt hb hg hH hy j).advance hg hH).2
    exact ⟨hin, Box.project_of_contains hin⟩

end Run

/-- A coordinate without an upper bound and a fixed one. The objective is infinite at the edge of the box,
and the products are not symmetric. -/
noncomputable def edge : Minimizer Exact 2 Unit where
  box := ⟨#v[0, 1], #v[.top, 1]⟩
  options := .default
  problem :=
    { value := fun x => if 0 < x.get 0 then x.get 0 else .top
      auxiliary := fun _ => ()
      blank := ()
      gradient := fun _ => (#v[1, -1] : Vector ℝ 2)
      product := fun _ v => #v[v.get 1, 0] }

theorem allFinite_product_edge (x : Vector Exact 2) {v : Vector Exact 2} (hv : allFinite v = true) :
    allFinite (edge.problem.product x v) = true := by
  obtain ⟨u, rfl⟩ := Exact.allFinite_iff.1 hv
  refine Exact.allFinite_iff.2 ⟨#v[u.get 1, 0], ext_get (Fin.forall_fin_two.2 ⟨?_, ?_⟩)⟩ <;> rw [Exact.get_coe]
  · exact Exact.get_coe u 1
  · rfl

/-- The same, with an objective that is infinite all over the box. -/
noncomputable def blind : Minimizer Exact 2 Unit :=
  { edge with problem := { edge.problem with value := fun _ => .top } }

/-- From a point outside the box, with every trial rejected. -/
theorem run_consistent_blind :
    let y : Vector ℝ 2 := #v[-1, 3]
    let s := blind.stateAt y 1
    let s' := blind.stateAt y 2
    blind.Consistent s ∧ blind.Tallied y 1 s ∧ blind.box.Contains s.point ∧ blind.box.project s.point = s.point ∧
      ¬ IsFinite (blind.trialValue s) ∧ s'.accepted = false ∧ blind.KeepsPoint s s' := by
  intro y s s'
  have hb : ∀ i, blind.box.lower.get i ≤ blind.box.upper.get i :=
    Fin.forall_fin_two.2 ⟨trivial, Exact.coe_le.2 le_rfl⟩
  have hy : ∀ i, (y : Vector Exact 2).get i ≠ .nan := fun i => by
    rw [Exact.get_coe]
    exact Exact.coe_ne_nan _
  obtain ⟨hconsistent, htallied, hplaced, hkeeps, hrejected⟩ :=
    run_consistent hb (fun _ => Exact.allFinite_iff.2 ⟨_, rfl⟩) (fun x _ => allFinite_product_edge x) hy 1
  have hinfinite : ¬ IsFinite (blind.trialValue s) := fun h => h.2
  have ha := hrejected hinfinite
  exact ⟨hconsistent, htallied, (hplaced one_pos).1, (hplaced one_pos).2, hinfinite, ha, hkeeps ha⟩

end BoxNewton.Minimizer
