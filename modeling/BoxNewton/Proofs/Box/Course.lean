/-
The course of a projected path from a real point of the box. A coordinate leaves its place exactly if it has
a breakpoint (`moves_iff`), and that is the time from which on it stands on the bound that it moves towards
(`add_shift_eq_target_iff`). So the number of breakpoints, the first and the last of them say how many
coordinates move, how long all of them move straight, and when the path has come to rest
(`breakpoints_describe`).
-/
import BoxNewton.Proofs.Box.Breakpoint
import Mathlib.Data.Set.Card

namespace BoxNewton.Box

variable {n : ℕ} {b : Box Exact n}

/-! ## The time at which a bound is reached -/

/-- A coordinate stands on the bound that it moves towards from its breakpoint on, and not before. -/
theorem add_shift_eq_target_iff {x : Vector Exact n} (hx : b.Contains x) {w : Vector ℝ n} {t : ℝ} (h0 : 0 ≤ t)
    {i : Fin n} {s : Exact} (h : b.breakpoint? x w i = some s) :
    x.get i + ((b.shift x w t).get i : Exact) = b.target w i ↔ s ≤ (t : Exact) := by
  constructor
  · intro heq
    by_contra hlt
    have hs : s ≠ .nan := Exact.right_ne_nan (Exact.le_of_lt' (breakpoint?_pos h))
    have hts : (t : Exact) ≤ s := Exact.le_of_lt' ((Exact.not_le_iff hs (Exact.coe_ne_nan t)).1 hlt)
    rw [shift_of_le_breakpoint hx h0 h hts] at heq
    -- sent just to its bound, the coordinate has used up its time
    rcases breakpoint?_eq_some h with ⟨hroom, hw, rfl⟩ | ⟨hroom, hw, rfl⟩
    · rw [target, if_pos hw] at heq
      refine hlt ((Exact.time_le_iff hroom hw t).2 ?_)
      rw [heq]
      exact Exact.le_refl_of_ne (Exact.right_ne_nan (Exact.le_of_lt' hroom))
    · rw [target, if_neg hw.not_gt] at heq
      refine hlt ((Exact.time_le_iff_of_neg hroom hw t).2 ?_)
      rw [heq]
      exact Exact.le_refl_of_ne (Exact.left_ne_nan (Exact.le_of_lt' hroom))
  · exact target_of_breakpoint_le hx h

/-! ## The coordinates that move -/

/-- Coordinate `i` leaves its place somewhere on the path. -/
def Moves (b : Box Exact n) (x w : Vector ℝ n) (i : Fin n) : Prop := ∃ t : ℝ, 0 < t ∧ (b.shift x w t).get i ≠ 0

section Course

variable {x : Vector ℝ n} (hx : b.Contains x) {w : Vector ℝ n}

include hx

/-- The coordinates that move are those that have a breakpoint. -/
theorem moves_iff {i : Fin n} : b.Moves x w i ↔ ∃ s, b.breakpoint? x w i = some s := by
  constructor
  · rintro ⟨t, ht, hmove⟩
    cases hs : b.breakpoint? x w i with
    | none => exact absurd (shift_eq_zero_of_none hx ht.le hs) hmove
    | some s => exact ⟨s, rfl⟩
  · rintro ⟨s, hs⟩
    -- breakpoints are positive, so there is time before them
    obtain ⟨t, ht, hle⟩ := Exact.exists_add_le (breakpoint?_pos hs : ((0 : ℝ) : Exact) < s)
    have hts := hle t le_rfl
    rw [zero_add] at hts
    refine ⟨t, ht, ?_⟩
    rw [shift_of_le_breakpoint hx ht.le hs hts]
    exact mul_ne_zero ht.ne' (ne_zero_of_breakpoint hs)

theorem not_moves_iff {i : Fin n} : ¬ b.Moves x w i ↔ b.breakpoint? x w i = none := by
  rw [moves_iff hx, Option.eq_none_iff_forall_ne_some, not_exists]

theorem count_breakpoints : (b.breakpoints x w).count = {i | b.Moves x w i}.ncard := by
  have hcount : ∀ l : List Exact, (Breakpoints.ofList l).count = l.length := by
    rintro (_ | ⟨t, ts⟩) <;> rfl
  have hmoves : {i | b.Moves x w i} = ((List.finRange n).filter fun i => (b.breakpoint? x w i).isSome).toFinset := by
    ext i
    simp [moves_iff hx, Option.isSome_iff_exists]
  rw [breakpoints, hcount, List.length_filterMap_eq_countP, List.countP_eq_length_filter, hmoves, Set.ncard_coe_finset,
    List.toFinset_card_of_nodup ((List.nodup_finRange n).filter _)]

/-- Where something moves the first breakpoint is that of a coordinate that moves. -/
theorem exists_first (hcount : 0 < (b.breakpoints x w).count) :
    ∃ i, b.Moves x w i ∧ b.breakpoint? x w i = some (b.breakpoints x w).first := by
  rcases first_cases b x w with ⟨hnone, -⟩ | ⟨i, hi⟩
  · exact absurd ((count_eq_zero_iff b x w).2 hnone) hcount.ne'
  · exact ⟨i, (moves_iff hx).2 ⟨_, hi⟩, hi⟩

/-- Before the last breakpoint some coordinate has yet to move on. -/
theorem exists_shift_ne {t : ℝ} (h0 : 0 ≤ t) (hlt : (t : Exact) < (b.breakpoints x w).last) :
    ∃ t' > t, b.shift x w t' ≠ b.shift x w t := by
  rcases breakpoints_cases b x w with ⟨-, hzero⟩ | ⟨-, ⟨i, hi⟩, -⟩
  · rw [hzero] at hlt
    exact absurd h0 (Exact.coe_lt.1 hlt).not_ge
  · obtain ⟨r, hr, hle⟩ := Exact.exists_add_le hlt
    refine ⟨t + r, lt_add_of_pos_right t hr, fun heq => ?_⟩
    have hi' : (b.shift x w (t + r)).get i = (b.shift x w t).get i := by rw [heq]
    rw [shift_of_le_breakpoint hx (add_nonneg h0 hr.le) hi (hle r le_rfl),
      shift_of_le_breakpoint hx h0 hi (Exact.le_of_lt' hlt)] at hi'
    exact (lt_add_of_pos_right t hr).ne' (mul_right_cancel₀ (ne_zero_of_breakpoint hi) hi')

end Course

/-! ## The whole path -/

/-- What the number of breakpoints, the first and the last of them say of the path from `x` along `w`. -/
structure Breakpoints.Describe (p : Breakpoints Exact) (b : Box Exact n) (x w : Vector ℝ n) : Prop where
  count : p.count = {i | b.Moves x w i}.ncard
  /-- Up to the first breakpoint the coordinates that ever move all move straight. -/
  straight : ∀ t : ℝ, 0 ≤ t → (t : Exact) ≤ p.first → ∀ i,
    (b.Moves x w i → (b.shift x w t).get i = t * w.get i) ∧ (¬ b.Moves x w i → (b.shift x w t).get i = 0)
  /-- Before the first breakpoint none of them stands on the bound that it moves towards. -/
  short : ∀ t : ℝ, 0 ≤ t → (t : Exact) < p.first → ∀ i, b.Moves x w i →
    (x.get i : Exact) + ((b.shift x w t).get i : Exact) ≠ b.target w i
  /-- At the first breakpoint one of them does. -/
  arrival : ∀ t : ℝ, 0 < p.count → p.first = t →
    ∃ i, b.Moves x w i ∧ (x.get i : Exact) + ((b.shift x w t).get i : Exact) = b.target w i
  /-- From the last breakpoint on nothing moves. -/
  rest : ∀ t t' : ℝ, p.last = t → t ≤ t' → b.shift x w t' = b.shift x w t
  /-- Before it something still moves. -/
  unrest : ∀ t : ℝ, 0 ≤ t → (t : Exact) < p.last → ∃ t' > t, b.shift x w t' ≠ b.shift x w t
  first_nonneg : 0 ≤ p.first
  first_le_last : p.first ≤ p.last
  still : (∀ i, ¬ b.Moves x w i) → p = ⟨0, 0, 0⟩

theorem describe_breakpoints {x : Vector ℝ n} (hx : b.Contains x) (w : Vector ℝ n) :
    (b.breakpoints x w).Describe b x w where
  count := count_breakpoints hx
  straight t h0 hle i := by
    refine ⟨fun hmoves => ?_, fun hstill => shift_eq_zero_of_none hx h0 ((not_moves_iff hx).1 hstill)⟩
    obtain ⟨s, hs⟩ := (moves_iff hx).1 hmoves
    exact shift_of_le_breakpoint hx h0 hs (Exact.le_trans hle (first_le hs))
  short t h0 hlt i hmoves heq := by
    obtain ⟨s, hs⟩ := (moves_iff hx).1 hmoves
    rw [← Exact.get_coe x, add_shift_eq_target_iff hx h0 hs] at heq
    exact Exact.lt_irrefl _ (Exact.lt_of_lt_of_le' hlt (Exact.le_trans (first_le hs) heq))
  arrival t hcount hfirst := by
    obtain ⟨i, hmoves, hi⟩ := exists_first hx hcount
    refine ⟨i, hmoves, ?_⟩
    rw [← Exact.get_coe x, target_of_breakpoint_le hx hi]
    rw [hfirst]
    exact Exact.coe_le.2 le_rfl
  rest t t' hlast hle := by
    obtain ⟨hfirst, hbetween⟩ := first_nonneg_le_last b x w
    have h0 := Exact.le_trans hfirst hbetween
    rw [hlast] at h0
    refine shift_eq_of_last_le hx (Exact.coe_le.1 h0) ?_ hle
    rw [hlast]
    exact Exact.coe_le.2 le_rfl
  unrest _ := exists_shift_ne hx
  first_nonneg := (first_nonneg_le_last b x w).1
  first_le_last := (first_nonneg_le_last b x w).2
  still hstill := breakpoints_of_forall_none fun i => (not_moves_iff hx).1 (hstill i)

/-- The path is the projected ray less its start, at every length, and no coordinate turns back as the length grows.
The breakpoints describe it: they count the coordinates that move, which all move straight up to the first breakpoint
and none of which has reached its bound before, while beyond the last one nothing moves. -/
theorem breakpoints_describe {x : Vector ℝ n} (hx : b.Contains x) (w : Vector ℝ n) :
    (∀ t : ℝ, b.displacement x w t = (b.shift x w t : Vector Exact n) ∧
      b.displacement x w t = b.project ((x : Vector Exact n) + (t : Exact) * (w : Vector Exact n)) - x) ∧
    (∀ i, MonotoneOn (fun t => |(b.shift x w t).get i|) (Set.Ici 0)) ∧
    (b.breakpoints x w).Describe b x w := by
  refine ⟨fun t => ⟨displacement_eq hx w t, ?_⟩, fun i t ht t' _ hle => ?_, describe_breakpoints hx w⟩
  · rw [displacement_eq hx, project_add_hmul hx, ← Exact.coe_add_vector, ← Exact.coe_sub_vector]
    refine congrArg Exact.vector (ext_get fun i => ?_)
    rw [get_sub, get_add, add_sub_cancel_left]
  · simpa using Set.abs_sub_left_of_mem_uIcc (shift_mem_uIcc_of_le hx w ht hle i)

/-- One coordinate moves to a bound, one without end. Of the others one stands at the bound that it is sent to and one
is fixed. -/
theorem breakpoints_describe_mixed :
    let b : Box Exact 4 := ⟨#v[.bot, 0, 0, 1], #v[1, .top, .top, 1]⟩
    let x : Vector ℝ 4 := #v[0, 0, 0, 1]
    let w : Vector ℝ 4 := #v[2, 1, -1, 3]
    b.Contains x ∧
    (∀ t : ℝ, b.displacement x w t = (b.shift x w t : Vector Exact 4) ∧
      b.displacement x w t = b.project ((x : Vector Exact 4) + (t : Exact) * (w : Vector Exact 4)) - x) ∧
    (∀ i, MonotoneOn (fun t => |(b.shift x w t).get i|) (Set.Ici 0)) ∧
    (b.breakpoints x w).Describe b x w := by
  intro b x w
  have hx : b.Contains x := by
    rintro (i : Fin 4)
    rw [Exact.get_coe]
    match i with
    | 0 => exact ⟨trivial, Exact.coe_le.2 (zero_le_one' ℝ)⟩
    | 1 => exact ⟨Exact.coe_le.2 (le_refl (0 : ℝ)), trivial⟩
    | 2 => exact ⟨Exact.coe_le.2 (le_refl (0 : ℝ)), trivial⟩
    | 3 => exact ⟨Exact.coe_le.2 (le_refl (1 : ℝ)), Exact.coe_le.2 (le_refl (1 : ℝ))⟩
  exact ⟨hx, breakpoints_describe hx w⟩

end BoxNewton.Box
