/-
Breakpoints in exact arithmetic. They are positive, possibly infinite, and lie between the first and the last of
them (`breakpoints_cases`). Up to its breakpoint a coordinate moves straight (`shift_of_le_breakpoint`), and from there
on it stays at the bound it moved towards (`target_of_breakpoint_le`). So beyond the last breakpoint the whole path
stands still (`shift_eq_of_last_le`).
-/
import BoxNewton.Proofs.Box.Path
import BoxNewton.Proofs.Exact.Laws

namespace BoxNewton

variable {n : ℕ}

/-! ## The time to a bound -/

namespace Exact

/-- The time from `a` to a bound `c` that lies ahead at speed `r` is infinite where the way is. -/
theorem time_cases {a c : Exact} {r : ℝ} (h : a < c) (hr : 0 < r) :
    (∃ α γ : ℝ, a = α ∧ c = γ ∧ (c - a) / r = ((γ - α) / r : ℝ)) ∨ (a = bot ∨ c = top) ∧ (c - a) / r = top := by
  have htop : top / (r : Exact) = top := by
    show top * inv r = top
    rw [inv, if_neg hr.ne']
    exact if_pos (inv_pos.2 hr)
  cases a <;> cases c <;> first | exact h.elim | skip
  · exact .inl ⟨_, _, rfl, rfl, by rw [← coe_sub, ← coe_div _ hr.ne']⟩
  · exact .inr ⟨.inr rfl, htop⟩
  · exact .inr ⟨.inl rfl, htop⟩
  · exact .inr ⟨.inl rfl, htop⟩

theorem time_neg (a c : Exact) {r : ℝ} (hr : r ≠ 0) : (c - a) / r = (-c - -a) / (-r : ℝ) := by
  rw [← Exact.neg_div_neg _ (show (r : Exact) ≠ 0 from fun h => hr (coe_inj.1 h)), Exact.neg_sub, coe_neg]

theorem time_pos {a c : Exact} {r : ℝ} (h : a < c) (hr : 0 < r) : 0 < (c - a) / r := by
  rcases time_cases h hr with ⟨α, γ, rfl, rfl, heq⟩ | ⟨-, heq⟩ <;> rw [heq]
  · exact coe_lt.2 (div_pos (sub_pos.2 (coe_lt.1 h)) hr)
  · trivial

theorem time_pos_of_neg {a c : Exact} {r : ℝ} (h : c < a) (hr : r < 0) : 0 < (c - a) / r := by
  rw [time_neg a c hr.ne]
  exact time_pos (Exact.neg_lt_neg_iff.2 h) (neg_pos.2 hr)

/-- Before that time the bound is not passed. -/
theorem le_time_iff {a c : Exact} {r : ℝ} (h : a < c) (hr : 0 < r) (t : ℝ) :
    (t : Exact) ≤ (c - a) / r ↔ a + (t * r : ℝ) ≤ c := by
  rcases time_cases h hr with ⟨α, γ, rfl, rfl, heq⟩ | ⟨hinf, heq⟩ <;> rw [heq]
  · rw [← coe_add, coe_le, coe_le, le_div_iff₀ hr, le_sub_iff_add_le, add_comm]
  · refine iff_of_true trivial ?_
    rcases hinf with rfl | rfl
    · cases c <;> first | exact h.elim | trivial
    · cases a <;> first | exact h.elim | trivial

theorem time_le_iff {a c : Exact} {r : ℝ} (h : a < c) (hr : 0 < r) (t : ℝ) :
    (c - a) / r ≤ (t : Exact) ↔ c ≤ a + (t * r : ℝ) := by
  rcases time_cases h hr with ⟨α, γ, rfl, rfl, heq⟩ | ⟨hinf, heq⟩ <;> rw [heq]
  · rw [← coe_add, coe_le, coe_le, div_le_iff₀ hr, sub_le_iff_le_add']
  · refine iff_of_false id ?_
    rcases hinf with rfl | rfl
    · cases c <;> first | exact h.elim | exact id
    · cases a <;> first | exact h.elim | exact id

theorem le_time_iff_of_neg {a c : Exact} {r : ℝ} (h : c < a) (hr : r < 0) (t : ℝ) :
    (t : Exact) ≤ (c - a) / r ↔ c ≤ a + (t * r : ℝ) := by
  rw [time_neg a c hr.ne, le_time_iff (Exact.neg_lt_neg_iff.2 h) (neg_pos.2 hr), mul_neg, coe_neg, ← Exact.neg_add,
    Exact.neg_le_neg_iff]

theorem time_le_iff_of_neg {a c : Exact} {r : ℝ} (h : c < a) (hr : r < 0) (t : ℝ) :
    (c - a) / r ≤ (t : Exact) ↔ a + (t * r : ℝ) ≤ c := by
  rw [time_neg a c hr.ne, time_le_iff (Exact.neg_lt_neg_iff.2 h) (neg_pos.2 hr), mul_neg, coe_neg, ← Exact.neg_add,
    Exact.neg_le_neg_iff]

end Exact

namespace Box

/-! ## Breakpoints in any order -/

theorem Breakpoints.ofList_eq {l : List Exact} (h : l ≠ []) :
    ofList l = ⟨l.length, l.foldl lesser .top, l.foldl greater .bot⟩ := by
  cases l with
  | nil => exact absurd rfl h
  | cons t ts => rw [ofList, List.foldl_cons, List.foldl_cons, Exact.top_lesser, Exact.bot_greater]; rfl

theorem Breakpoints.ofList_perm {l l' : List Exact} (h : l.Perm l') : ofList l = ofList l' := by
  rcases eq_or_ne l [] with rfl | hl
  · rw [h.nil_eq]
  · have hl' : l' ≠ [] := fun h0 => hl (h0 ▸ h).eq_nil
    rw [ofList_eq hl, ofList_eq hl', h.length_eq, h.foldl_eq' fun _ _ _ _ _ => Exact.lesser_right_comm _ _ _,
      h.foldl_eq' fun _ _ _ _ _ => Exact.greater_right_comm _ _ _]

/-! ## The extremes of a list -/

/-- The least of a list of numbers is one of them. -/
theorem foldl_lesser : ∀ (ts : List Exact) (t : Exact), (∀ s ∈ t :: ts, s ≠ .nan) →
    ts.foldl lesser t ∈ t :: ts ∧ ∀ s ∈ t :: ts, ts.foldl lesser t ≤ s
  | [], t, h => by
    simpa using Exact.le_refl_of_ne (h t (List.mem_cons_self ..))
  | a :: ts, t, h => by
    have ht := h t (by simp)
    have ha := h a (by simp)
    -- the lesser of the first two is one of them and below both
    obtain ⟨hm, hle⟩ : (lesser t a = t ∨ lesser t a = a) ∧ lesser t a ≤ t ∧ lesser t a ≤ a := by
      unfold lesser
      by_cases hta : t ≤ a
      · rw [if_pos hta]; exact ⟨.inl rfl, Exact.le_refl_of_ne ht, hta⟩
      · have hat := Exact.le_of_lt' ((Exact.not_le_iff ht ha).1 hta)
        rw [if_neg hta, if_pos hat]; exact ⟨.inr rfl, hat, Exact.le_refl_of_ne ha⟩
    have hne : ∀ s ∈ lesser t a :: ts, s ≠ .nan := by
      intro s hs
      rcases List.mem_cons.1 hs with rfl | hs
      · exact Exact.left_ne_nan hle.1
      · exact h s (by simp [hs])
    obtain ⟨h1, h2⟩ := foldl_lesser ts (lesser t a) hne
    rw [List.foldl_cons]
    refine ⟨?_, fun s hs => ?_⟩
    · rcases List.mem_cons.1 h1 with h1 | h1
      · rw [h1]; rcases hm with hm | hm <;> rw [hm] <;> simp
      · simp [h1]
    · have h0 := h2 _ (List.mem_cons_self ..)
      rcases List.mem_cons.1 hs with rfl | hs
      · exact Exact.le_trans h0 hle.1
      · rcases List.mem_cons.1 hs with rfl | hs
        · exact Exact.le_trans h0 hle.2
        · exact h2 s (List.mem_cons_of_mem _ hs)

theorem foldl_greater_eq_neg (ts : List Exact) (t : Exact) :
    ts.foldl greater t = -(ts.map fun s => -s).foldl lesser (-t) := by
  induction ts generalizing t with
  | nil => exact (Exact.neg_neg t).symm
  | cons a ts ih => rw [List.foldl_cons, ih, Exact.neg_greater, List.map_cons, List.foldl_cons]

theorem foldl_greater {ts : List Exact} {t : Exact} (h : ∀ s ∈ t :: ts, s ≠ .nan) :
    ts.foldl greater t ∈ t :: ts ∧ ∀ s ∈ t :: ts, s ≤ ts.foldl greater t := by
  have hne : ∀ r ∈ -t :: ts.map fun s => -s, r ≠ .nan := by
    rw [← List.map_cons (f := fun s : Exact => -s)]
    intro r hr
    obtain ⟨a, ha, rfl⟩ := List.mem_map.1 hr
    exact fun h0 => h a ha (by rw [← Exact.neg_neg a, h0]; rfl)
  obtain ⟨hmem, hle⟩ := foldl_lesser _ _ hne
  rw [← List.map_cons (f := fun s : Exact => -s)] at hmem hle
  rw [foldl_greater_eq_neg]
  constructor
  · obtain ⟨a, ha, heq⟩ := List.mem_map.1 hmem
    rwa [← heq, Exact.neg_neg]
  · intro s hs
    rw [← Exact.neg_le_neg_iff, Exact.neg_neg]
    exact hle (-s) (List.mem_map_of_mem hs)

/-! ## The breakpoints of a path -/

variable {b : Box Exact n} {x : Vector Exact n} {w : Vector ℝ n}

theorem breakpoint?_eq_some {i : Fin n} {s : Exact} (h : b.breakpoint? x w i = some s) :
    x.get i < b.upper.get i ∧ 0 < w.get i ∧ s = (b.upper.get i - x.get i) / (w.get i : Exact) ∨
      b.lower.get i < x.get i ∧ w.get i < 0 ∧ s = (b.lower.get i - x.get i) / (w.get i : Exact) := by
  unfold breakpoint? at h
  rw [Exact.get_coe] at h
  split at h
  · rename_i hc
    exact .inl ⟨hc.1, hc.2, (Option.some.inj h).symm⟩
  · split at h
    · rename_i hc
      exact .inr ⟨hc.1, hc.2, (Option.some.inj h).symm⟩
    · cases h

theorem breakpoint?_pos {i : Fin n} {s : Exact} (h : b.breakpoint? x w i = some s) : 0 < s := by
  rcases breakpoint?_eq_some h with ⟨hlt, hw, rfl⟩ | ⟨hlt, hw, rfl⟩
  · exact Exact.time_pos hlt hw
  · exact Exact.time_pos_of_neg hlt hw

theorem ne_zero_of_breakpoint {i : Fin n} {s : Exact} (h : b.breakpoint? x w i = some s) : w.get i ≠ 0 := by
  rcases breakpoint?_eq_some h with ⟨-, hw, -⟩ | ⟨-, hw, -⟩
  · exact hw.ne'
  · exact hw.ne

/-- The first and the last breakpoint are breakpoints of some coordinates, with those of all others between them. Where
there are none they are zero. -/
theorem breakpoints_cases (b : Box Exact n) (x : Vector Exact n) (w : Vector ℝ n) :
    ((∀ i, b.breakpoint? x w i = none) ∧ b.breakpoints x w = ⟨0, 0, 0⟩) ∨
      (∃ i, b.breakpoint? x w i = some (b.breakpoints x w).first) ∧
      (∃ i, b.breakpoint? x w i = some (b.breakpoints x w).last) ∧
      ∀ i s, b.breakpoint? x w i = some s → (b.breakpoints x w).first ≤ s ∧ s ≤ (b.breakpoints x w).last := by
  have hmem : ∀ s, s ∈ (List.finRange n).filterMap (b.breakpoint? x w) ↔ ∃ i, b.breakpoint? x w i = some s := by
    simp [List.mem_filterMap]
  unfold breakpoints
  cases hts : (List.finRange n).filterMap (b.breakpoint? x w) with
  | nil => exact .inl ⟨fun i => List.filterMap_eq_nil_iff.1 hts i (List.mem_finRange i), rfl⟩
  | cons t ts =>
    rw [hts] at hmem
    have hne : ∀ s ∈ t :: ts, s ≠ .nan := by
      intro s hs
      obtain ⟨i, hi⟩ := (hmem s).1 hs
      exact Exact.right_ne_nan (Exact.le_of_lt' (breakpoint?_pos hi))
    obtain ⟨hfirst, hle⟩ := foldl_lesser ts t hne
    obtain ⟨hlast, hge⟩ := foldl_greater hne
    refine .inr ⟨(hmem _).1 hfirst, (hmem _).1 hlast, fun i s hi => ?_⟩
    have hs := (hmem s).2 ⟨i, hi⟩
    exact ⟨hle s hs, hge s hs⟩

theorem count_eq_zero_iff (b : Box Exact n) (x : Vector Exact n) (w : Vector ℝ n) :
    (b.breakpoints x w).count = 0 ↔ ∀ i, b.breakpoint? x w i = none := by
  have hnil : (List.finRange n).filterMap (b.breakpoint? x w) = [] ↔ ∀ i, b.breakpoint? x w i = none := by
    simp [List.filterMap_eq_nil_iff]
  rw [← hnil, breakpoints]
  cases (List.finRange n).filterMap (b.breakpoint? x w) with
  | nil => exact iff_of_true rfl rfl
  | cons t ts => exact iff_of_false (Nat.succ_ne_zero _) (List.cons_ne_nil t ts)

theorem breakpoints_of_forall_none (h : ∀ i, b.breakpoint? x w i = none) : b.breakpoints x w = ⟨0, 0, 0⟩ := by
  rcases breakpoints_cases b x w with ⟨-, hzero⟩ | ⟨⟨i, hi⟩, -⟩
  · exact hzero
  · rw [h i] at hi
    cases hi

/-- The first breakpoint is the breakpoint of some coordinate, if there are any. -/
theorem first_cases (b : Box Exact n) (x : Vector Exact n) (w : Vector ℝ n) :
    ((∀ i, b.breakpoint? x w i = none) ∧ (b.breakpoints x w).first = 0) ∨
      ∃ i, b.breakpoint? x w i = some (b.breakpoints x w).first := by
  rcases breakpoints_cases b x w with ⟨hnone, hzero⟩ | ⟨hfirst, -⟩
  · exact .inl ⟨hnone, by rw [hzero]⟩
  · exact .inr hfirst

theorem between_of_breakpoint {i : Fin n} {s : Exact} (h : b.breakpoint? x w i = some s) :
    (b.breakpoints x w).first ≤ s ∧ s ≤ (b.breakpoints x w).last := by
  rcases breakpoints_cases b x w with ⟨hnone, -⟩ | ⟨-, -, hbetween⟩
  · rw [hnone i] at h
    cases h
  · exact hbetween i s h

theorem first_le {i : Fin n} {s : Exact} (h : b.breakpoint? x w i = some s) : (b.breakpoints x w).first ≤ s :=
  (between_of_breakpoint h).1

theorem le_last {i : Fin n} {s : Exact} (h : b.breakpoint? x w i = some s) : s ≤ (b.breakpoints x w).last :=
  (between_of_breakpoint h).2

theorem first_nonneg_le_last (b : Box Exact n) (x : Vector Exact n) (w : Vector ℝ n) :
    0 ≤ (b.breakpoints x w).first ∧ (b.breakpoints x w).first ≤ (b.breakpoints x w).last := by
  rcases breakpoints_cases b x w with ⟨-, hzero⟩ | ⟨⟨i, hi⟩, -⟩
  · rw [hzero]
    exact ⟨Exact.coe_le.2 le_rfl, Exact.coe_le.2 le_rfl⟩
  · exact ⟨Exact.le_of_lt' (breakpoint?_pos hi), le_last hi⟩

theorem first_ne_nan (b : Box Exact n) (x : Vector Exact n) (w : Vector ℝ n) : (b.breakpoints x w).first ≠ .nan :=
  Exact.right_ne_nan (first_nonneg_le_last b x w).1

theorem last_ne_nan (b : Box Exact n) (x : Vector Exact n) (w : Vector ℝ n) : (b.breakpoints x w).last ≠ .nan :=
  Exact.right_ne_nan (first_nonneg_le_last b x w).2

/-! ## The path at a breakpoint -/

/-- The bound that coordinate `i` moves towards. -/
noncomputable def target (b : Box Exact n) (w : Vector ℝ n) (i : Fin n) : Exact :=
  if 0 < w.get i then b.upper.get i else b.lower.get i

theorem not_free_of_target {y : Vector Exact n} {i : Fin n} (h : y.get i = b.target w i) :
    (b.free y).get i = false := by
  rw [get_free, decide_eq_false_iff_not, h, target]
  rintro ⟨hl, hu⟩
  split at hl
  · exact Exact.lt_irrefl _ (if_pos ‹0 < w.get i› ▸ hu)
  · exact Exact.lt_irrefl _ hl

theorem exists_breakpoint {i : Fin n} (hi : (b.free x).get i = true) (hw : w.get i ≠ 0) :
    ∃ s, b.breakpoint? x w i = some s := by
  rw [get_free, decide_eq_true_eq] at hi
  unfold breakpoint?
  rw [Exact.get_coe]
  rcases hw.lt_or_gt with hw | hw
  · exact ⟨_, by rw [if_neg fun h => lt_asymm hw (Exact.coe_lt.1 h.2), if_pos ⟨hi.1, hw⟩]⟩
  · exact ⟨_, if_pos ⟨hi.2, hw⟩⟩

section Path

variable (hx : b.Contains x) {t : ℝ} {i : Fin n} {s : Exact}

include hx

/-- A coordinate moves as far as it is sent, or to the bound it moves towards. -/
theorem shift_eq_or_target (h0 : 0 ≤ t) :
    (b.shift x w t).get i = t * w.get i ∨ x.get i + ((b.shift x w t).get i : Exact) = b.target w i := by
  obtain ⟨hm, -⟩ := moved_shift hx w t i
  generalize (b.shift x w t).get i = m at hm
  cases hm with
  | inside => exact .inl rfl
  | lower ξ m hξ hl hd hm =>
    have hw : ¬ 0 < w.get i := fun hw => (mul_nonneg h0 hw.le).not_gt (by linarith)
    exact .inr (by rw [target, if_neg hw, hξ, hl]; rfl)
  | upper ξ m hξ hu hm hd =>
    have hw : 0 < w.get i := not_le.1 fun hw => (mul_nonpos_of_nonneg_of_nonpos h0 hw).not_gt (by linarith)
    exact .inr (by rw [target, if_pos hw, hξ, hu]; rfl)

theorem shift_of_le_breakpoint (h0 : 0 ≤ t) (h : b.breakpoint? x w i = some s) (hle : (t : Exact) ≤ s) :
    (b.shift x w t).get i = t * w.get i := by
  rcases breakpoint?_eq_some h with ⟨hlt, hw, rfl⟩ | ⟨hlt, hw, rfl⟩
  · exact shift_of_inside hx (Exact.le_add_coe (hx i).1 (mul_nonneg h0 hw.le)) ((Exact.le_time_iff hlt hw t).1 hle)
  · exact shift_of_inside hx ((Exact.le_time_iff_of_neg hlt hw t).1 hle)
      (Exact.add_coe_le (hx i).2 (mul_nonpos_of_nonneg_of_nonpos h0 hw.le))

theorem target_of_breakpoint_le (h : b.breakpoint? x w i = some s) (hle : s ≤ (t : Exact)) :
    x.get i + ((b.shift x w t).get i : Exact) = b.target w i := by
  have h0 : 0 < t := Exact.coe_lt.1 (Exact.lt_of_lt_of_le' (breakpoint?_pos h) hle)
  refine (shift_eq_or_target hx h0.le).elim (fun hs => ?_) id
  -- sent past the bound, or just to it, the coordinate is still in the box
  have hin := contains_add_shift hx w t i
  rw [get_add, Exact.get_coe, hs] at hin
  rw [hs]
  rcases breakpoint?_eq_some h with ⟨hlt, hw, rfl⟩ | ⟨hlt, hw, rfl⟩
  · rw [target, if_pos hw]
    exact Exact.le_antisymm hin.2 ((Exact.time_le_iff hlt hw t).1 hle)
  · rw [target, if_neg hw.not_gt]
    exact Exact.le_antisymm ((Exact.time_le_iff_of_neg hlt hw t).1 hle) hin.1

/-- Up to the first breakpoint a free coordinate moves straight. -/
theorem shift_of_le_first (h0 : 0 ≤ t) (h1 : (t : Exact) ≤ (b.breakpoints x w).first)
    (hi : (b.free x).get i = true) : (b.shift x w t).get i = t * w.get i := by
  by_cases hw : w.get i = 0
  · rw [hw, mul_zero, shift_eq_zero hx hw]
  · obtain ⟨s, hs⟩ := exists_breakpoint hi hw
    exact shift_of_le_breakpoint hx h0 hs (Exact.le_trans h1 (first_le hs))

end Path

/-! ## The path beyond the last breakpoint -/

section Beyond

variable {x : Vector ℝ n} (hx : b.Contains x) {t t' : ℝ}

include hx

/-- A coordinate without a breakpoint never moves. -/
theorem shift_eq_zero_of_none (h0 : 0 ≤ t) {i : Fin n} (h : b.breakpoint? x w i = none) :
    (b.shift x w t).get i = 0 := by
  obtain ⟨hl, hu⟩ := hx i
  obtain ⟨hl', hu'⟩ := contains_add_shift hx w t i
  have hm := Set.mem_uIcc.1 (shift_mem_uIcc hx w t i)
  unfold breakpoint? at h
  rw [get_add, Exact.get_coe, Exact.get_coe, ← Exact.coe_add] at hl' hu'
  rw [Exact.get_coe] at hl hu
  simp only [Exact.get_coe, Exact.coe_pos, Exact.coe_lt_zero] at h
  split_ifs at h with hup hdown
  -- a coordinate that is sent towards a bound stands on it
  rcases lt_trichotomy (w.get i) 0 with hw | hw | hw
  · have hxl : (x.get i : Exact) ≤ b.lower.get i :=
      (Exact.not_lt_iff (Exact.left_ne_nan hl) (Exact.coe_ne_nan _)).1 fun hlt => hdown ⟨hlt, hw⟩
    have hge := Exact.coe_le.1 (Exact.le_trans hxl hl')
    have hsent := mul_nonpos_of_nonneg_of_nonpos h0 hw.le
    rcases hm with hm | hm <;> linarith
  · exact shift_eq_zero hx hw t
  · have hxu : b.upper.get i ≤ (x.get i : Exact) :=
      (Exact.not_lt_iff (Exact.coe_ne_nan _) (Exact.right_ne_nan hu)).1 fun hlt => hup ⟨hlt, hw⟩
    have hle := Exact.coe_le.1 (Exact.le_trans hu' hxu)
    have hsent := mul_nonneg h0 hw.le
    rcases hm with hm | hm <;> linarith

/-- Beyond its last breakpoint the path stands still. -/
theorem shift_eq_of_last_le (h0 : 0 ≤ t) (hlast : (b.breakpoints x w).last ≤ (t : Exact)) (h : t ≤ t') :
    b.shift x w t' = b.shift x w t := by
  refine ext_get fun i => ?_
  rcases hs : b.breakpoint? x w i with _ | s
  · rw [shift_eq_zero_of_none hx (h0.trans h) hs, shift_eq_zero_of_none hx h0 hs]
  · have hst := Exact.le_trans (le_last hs) hlast
    have heq := (target_of_breakpoint_le hx hs (Exact.le_trans hst (Exact.coe_le.2 h))).trans
      (target_of_breakpoint_le hx hs hst).symm
    rw [Exact.get_coe, ← Exact.coe_add, ← Exact.coe_add, Exact.coe_inj] at heq
    exact add_left_cancel heq

end Beyond

end Box

end BoxNewton
