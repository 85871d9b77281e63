/-
Runs over the real points of a box. Where the derivatives are real at the real points of the box, every
state of a run from a real start stands at such a point (`Placed`), whatever the objective returns there
and whether or not a limit stopped a search. So the problem is only asked about points of the box; what
it is asked is listed (`queries`), and the answers to these questions determine the run.
-/
import BoxNewton.Minimizer.Solve
import BoxNewton.Proofs.Minimizer.Consistency

namespace BoxNewton

/-! ## Questions -/

/-- A question put to a problem, at a point: for the value with the auxiliary output, for the gradient,
or for the products with the Hessian. -/
inductive Query (α : Type) (n : ℕ) where
  | value (x : Vector α n)
  | gradient (x : Vector α n)
  | product (x : Vector α n)

namespace Query

variable {α : Type} {n : ℕ}

def point : Query α n → Vector α n
  | value x | gradient x | product x => x

/-- The problem `p'` answers the question as `p` does. -/
def Agrees {β : Type} (p p' : Problem α n β) : Query α n → Prop
  | value x => p'.value x = p.value x ∧ p'.auxiliary x = p.auxiliary x
  | gradient x => p'.gradient x = p.gradient x
  | product x => p'.product x = p.product x

end Query

namespace Minimizer

section Queries

variable {α : Type} [ExtendedScalar α] {n : ℕ} {β : Type}

def startQueries (m : Minimizer α n β) (y : Vector α n) : List (Query α n) :=
  [.value (m.box.project y), .gradient (m.box.project y)]

/-- What an iteration asks. The gradient at the trial point is asked for only when that is accepted. -/
def stepQueries (m : Minimizer α n β) (s : State α n β) : List (Query α n) :=
  [.product (m.box.project s.point), .value (m.trialStep s).point] ++
    if (m.advance s).accepted then [.gradient (m.trialStep s).point] else []

/-- What a run from `y` has asked after `k` iterations. -/
def queries (m : Minimizer α n β) (y : Vector α n) : ℕ → List (Query α n)
  | 0 => m.startQueries y
  | k + 1 => m.queries y k ++ m.stepQueries (m.stateAt y k)

variable {m : Minimizer α n β} {p : Problem α n β} {y : Vector α n} {s : State α n β}

theorem start_congr (h : ∀ q ∈ m.startQueries y, q.Agrees m.problem p) :
    ({ m with problem := p } : Minimizer α n β).start y = m.start y := by
  simp only [startQueries, List.forall_mem_cons, Query.Agrees] at h
  obtain ⟨⟨hvalue, haux⟩, hgrad, -⟩ := h
  simp only [start, hvalue, haux, hgrad]

theorem advance_congr (h : ∀ q ∈ m.stepQueries s, q.Agrees m.problem p) :
    ({ m with problem := p } : Minimizer α n β).advance s = m.advance s := by
  simp only [stepQueries, List.forall_mem_append, List.forall_mem_cons, Query.Agrees] at h
  obtain ⟨⟨hprod, ⟨hvalue, haux⟩, -⟩, hgrad⟩ := h
  have hsub : ({ m with problem := p } : Minimizer α n β).subproblem s = m.subproblem s := by
    simp only [subproblem, hprod]
  have hcauchy : ({ m with problem := p } : Minimizer α n β).cauchyStep s = m.cauchyStep s := by
    simp only [cauchyStep, hsub]
  have htrial : ({ m with problem := p } : Minimizer α n β).refinedStep s (m.cauchyStep s) = m.trialStep s := by
    simp only [refinedStep, hsub, trialStep]; rfl
  have htrial' : m.refinedStep s (m.cauchyStep s) = m.trialStep s := rfl
  cases ha : (m.advance s).accepted with
  | true =>
    rw [if_pos ha] at hgrad
    have hgrad := hgrad _ (List.mem_singleton_self _)
    simp only [advance, hsub, hcauchy, htrial, htrial', hvalue, haux, hgrad]
  | false =>
    simp only [advance, htrial'] at ha
    simp only [advance, hsub, hcauchy, htrial, htrial', hvalue, haux, ha]
    rfl

theorem stateAt_congr {k : ℕ} (h : ∀ q ∈ m.queries y k, q.Agrees m.problem p) :
    ({ m with problem := p } : Minimizer α n β).stateAt y k = m.stateAt y k := by
  induction k with
  | zero => exact start_congr h
  | succ k ih =>
    simp only [queries, List.forall_mem_append] at h
    rw [stateAt_succ, stateAt_succ, ih h.1, advance_congr h.2]

end Queries

/-! ## Real runs -/

variable {n : ℕ} {β : Type} {m : Minimizer Exact n β} {s : State Exact n β}

/-- At the real points of the box the derivatives are real. -/
structure RealDerivatives (m : Minimizer Exact n β) : Prop where
  gradient : ∀ x : Vector ℝ n, m.box.Contains x → allFinite (m.problem.gradient x) = true
  product : ∀ x : Vector ℝ n, m.box.Contains x → ∀ v, allFinite v = true →
    allFinite (m.problem.product x v) = true

/-- A sound state at a real point. -/
structure Placed (m : Minimizer Exact n β) (s : State Exact n β) : Prop extends m.Sound s where
  base : ∃ x : Vector ℝ n, m.box.project s.point = x

theorem placed_start (hm : m.RealDerivatives) {c : Vector ℝ n} (hc : m.box.Contains c) (y : Vector ℝ n) :
    m.Placed (m.start y) := by
  obtain ⟨x, hx⟩ := Box.exists_project hc y
  have hb : ∀ i, m.box.lower.get i ≤ m.box.upper.get i := fun i => Exact.le_trans (hc i).1 (hc i).2
  have hy : ∀ i, (y : Vector Exact n).get i ≠ .nan := fun i => by rw [Exact.get_coe]; exact Exact.coe_ne_nan _
  have hin : m.box.Contains x := hx ▸ Box.contains_project hb hy
  exact ⟨sound_start hb hy (hx ▸ hm.gradient x hin), x, hx⟩

theorem Placed.exists_finds (hm : m.RealDerivatives) (h : m.Placed s) :
    ∃ M t d, (m.subproblem s).Extends M ∧ Finds m s M t d := by
  obtain ⟨x, hx⟩ := h.base
  obtain ⟨g, hg⟩ := h.gradient
  obtain ⟨B, hB⟩ := exists_extends (hm.product x (hx ▸ h.contains))
  rw [← hx] at hB
  have hM : (m.subproblem s).Extends ⟨g, B⟩ := ⟨⟨hg, hB⟩, h.contains⟩
  obtain ⟨t, d, hf⟩ := h.toSound.exists_finds hM
  exact ⟨_, t, d, hM, hf⟩

/-- The trial point is real. -/
theorem Finds.point_real {M : Model ℝ n} {t : ℝ} {d x : Vector ℝ n} (hf : Finds m s M t d)
    (hx : m.box.project s.point = x) : (m.trialStep s).point = (x + d : Vector ℝ n) := by
  rw [hf.point_eq, hx, Exact.coe_add_vector]

theorem Placed.advance (hm : m.RealDerivatives) (h : m.Placed s) : m.Placed (m.advance s) := by
  obtain ⟨x, hx⟩ := h.base
  obtain ⟨M, t, d, hM, hf⟩ := h.exists_finds hm
  have hpoint := hf.point_real hx
  refine ⟨hf.sound_advance hM h.toSound (hpoint ▸ hm.gradient _ (hpoint ▸ hf.contains)), ?_⟩
  rw [Box.project_of_contains (hf.contains_advance h.toSound)]
  cases ha : (m.advance s).accepted with
  | true => exact ⟨x + d, by rw [(advance_of_accepted ha).point, hpoint]⟩
  | false => exact ⟨x, by rw [(advance_of_rejected ha).point, hx]⟩

theorem placed_stateAt (hm : m.RealDerivatives) (hbox : ∃ c : Vector ℝ n, m.box.Contains c) (y : Vector ℝ n)
    (k : ℕ) : m.Placed (m.stateAt y k) := by
  induction k with
  | zero =>
    obtain ⟨c, hc⟩ := hbox
    exact placed_start hm hc y
  | succ k ih =>
    rw [stateAt_succ]
    exact ih.advance hm

theorem consistent_stateAt (hm : m.RealDerivatives) (hbox : ∃ c : Vector ℝ n, m.box.Contains c) (y : Vector ℝ n)
    (k : ℕ) : m.Consistent (m.stateAt y k) := by
  induction k with
  | zero => exact consistent_start m y
  | succ k ih =>
    obtain ⟨M, t, d, -, hf⟩ := (placed_stateAt hm hbox y k).exists_finds hm
    rw [stateAt_succ]
    exact ih.advance (hf.contains_advance (placed_stateAt hm hbox y k).toSound)

/-! ## Feasibility -/

theorem Placed.contains_stepQueries (hm : m.RealDerivatives) (h : m.Placed s) :
    ∀ q ∈ m.stepQueries s, m.box.Contains q.point := by
  obtain ⟨M, t, d, -, hf⟩ := h.exists_finds hm
  simp only [stepQueries, List.forall_mem_append, List.forall_mem_cons]
  refine ⟨⟨h.contains, hf.contains, List.forall_mem_nil _⟩, ?_⟩
  split
  · exact List.forall_mem_singleton.2 hf.contains
  · exact List.forall_mem_nil _

theorem contains_queries (hm : m.RealDerivatives) (hbox : ∃ c : Vector ℝ n, m.box.Contains c) (y : Vector ℝ n)
    (k : ℕ) : ∀ q ∈ m.queries y k, m.box.Contains q.point := by
  induction k with
  | zero =>
    have hin := (placed_stateAt hm hbox y 0).contains
    exact List.forall_mem_cons.2 ⟨hin, List.forall_mem_singleton.2 hin⟩
  | succ k ih =>
    exact List.forall_mem_append.2 ⟨ih, (placed_stateAt hm hbox y k).contains_stepQueries hm⟩

/-- A run from a real start asks the problem only about points of the box, and reads out a point of the
box. A coordinate whose bounds coincide has their value at all of them. The questions listed are all that
the run depends on: a problem that answers these alike is run alike. -/
theorem run_feasible (hm : m.RealDerivatives) (hbox : ∃ c : Vector ℝ n, m.box.Contains c) (y : Vector ℝ n)
    (k : ℕ) :
    let points := (m.queries y k).map (·.point) ++ [(m.summarize (m.stateAt y k) (m.stateAt y k).auxiliary).point]
    (∀ x ∈ points, m.box.Contains x) ∧
    (∀ i, m.box.lower.get i = m.box.upper.get i → ∀ x ∈ points, x.get i = m.box.lower.get i) ∧
    ∀ p : Problem Exact n β, (∀ q ∈ m.queries y k, q.Agrees m.problem p) →
      ({ m with problem := p } : Minimizer Exact n β).stateAt y k = m.stateAt y k := by
  intro points
  have hin : ∀ x ∈ points, m.box.Contains x := by
    refine List.forall_mem_append.2 ⟨?_, List.forall_mem_singleton.2 (placed_stateAt hm hbox y k).contains⟩
    exact List.forall_mem_map.2 (contains_queries hm hbox y k)
  refine ⟨hin, fun i hi x hx => ?_, fun p hp => stateAt_congr hp⟩
  obtain ⟨hl, hu⟩ := hin x hx i
  rw [← hi] at hu
  exact Exact.le_antisymm hu hl

/-- A run from a point outside the box. -/
theorem run_feasible_edge :
    let m := edge
    let y : Vector ℝ 2 := #v[-1, 3]
    let points := (m.queries y 2).map (·.point) ++ [(m.summarize (m.stateAt y 2) (m.stateAt y 2).auxiliary).point]
    (∀ x ∈ points, m.box.Contains x) ∧
    (∀ i, m.box.lower.get i = m.box.upper.get i → ∀ x ∈ points, x.get i = m.box.lower.get i) ∧
    ∀ p : Problem Exact 2 Unit, (∀ q ∈ m.queries y 2, q.Agrees m.problem p) →
      ({ m with problem := p } : Minimizer Exact 2 Unit).stateAt y 2 = m.stateAt y 2 := by
  refine run_feasible ⟨fun _ _ => Exact.allFinite_iff.2 ⟨_, rfl⟩, fun x _ v => allFinite_product_edge x⟩ ⟨#v[1, 1], ?_⟩
    #v[-1, 3] 2
  refine Fin.forall_fin_two.2 ⟨?_, ?_⟩ <;> rw [Exact.get_coe]
  · exact ⟨Exact.coe_le.2 zero_le_one, trivial⟩
  · exact ⟨Exact.coe_le.2 le_rfl, Exact.coe_le.2 le_rfl⟩

end Minimizer

end BoxNewton
