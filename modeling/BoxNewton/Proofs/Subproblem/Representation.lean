/-
What the points of all faces have in common, for any linear Hessian: a step from the base point leads there
without leaving the box, and its image is at hand. A face changes the step in its free coordinates alone, by
no more than the radius (`Reached.exists_move`), so the whole minimization stays near the step it refines;
and it is called converged only where the gradient was found to be small on the last face.
-/
import BoxNewton.Proofs.ConjugateGradient.Status
import BoxNewton.Proofs.Problem.Quadratic
import BoxNewton.Proofs.Subproblem.Faces

namespace BoxNewton.Subproblem

variable {n : ℕ} {p : Subproblem Exact n} {l : FaceLimits Exact} {M : Model ℝ n} {f f' : FacePoint Exact n}
  {s d : Vector ℝ n}

/-! ## One face -/

section Move

variable {A : Vector ℝ n →ₗ[ℝ] Vector ℝ n} (hM : ∀ v, M.hessian v = A v) (h : p.Extends M) (hf : Reached p M f s)
  {ρ : ℝ} (hρ : p.radius = ρ) (h0 : 0 ≤ ρ)

include hM h hf hρ h0 in
theorem Reached.exists_truthful (l : FaceLimits Exact) :
    ∃ w, ConjugateGradient.Truthful (p.directionProblem l f) (Subproblem.faceProblem M (p.free f) s ρ)
      l.maxIterations w :=
  ConjugateGradient.exists_truthful (hf.faceProblem h hρ) (Model.hessian_face hM _ s) ConjugateGradient.sound_identity
    (Exact.coe_le.2 le_rfl) h0 l.maxIterations

include hM h hf hρ h0 in
/-- A face moves its free coordinates, and altogether by no more than the radius. -/
theorem Reached.exists_move (l : FaceLimits Exact) :
    ∃ d, Reached p M (p.advanceFace l f) (s + d) ∧ norm d ≤ ρ ∧ ∀ i, (p.free f).get i = false → d.get i = 0 := by
  unfold Subproblem.advanceFace
  split
  · obtain ⟨w, hw⟩ := hf.exists_truthful hM h hρ h0 l
    obtain ⟨ℓ, hℓ⟩ := BoxedModel.exists_stepped (p.faceModel f) p.rule w
    refine ⟨_, hf.leaveFace_of_stepped h hw.iterate_eq hℓ, ?_, fun i hi => ?_⟩
    · exact (Mask.norm_restrict_le _ _).trans ((hℓ.norm_le hf.contains).trans hw.within)
    · rw [Mask.get_restrict, hi]; rfl
  · refine ⟨0, ?_, norm_zero.trans_le h0, fun i _ => get_zero i⟩
    rw [add_zero]
    exact hf.setStatus .converged

end Move

theorem Reached.get_point_eq (hf : Reached p M f s) (hf' : Reached p M f' (s + d)) {i : Fin n} (hi : d.get i = 0) :
    f'.point.get i = f.point.get i := by
  simp only [hf.point_eq, hf'.point_eq, get_add, Exact.get_coe, hi, add_zero]

theorem Reached.get_step_eq (hf : Reached p M f s) (hf' : Reached p M f' (s + d)) {i : Fin n} (hi : d.get i = 0) :
    f'.step.get i = f.step.get i := by
  simp only [hf.step_eq, hf'.step_eq, get_add, Exact.get_coe, hi, add_zero]

/-- A coordinate that is not free does not become so. -/
theorem Reached.free_of_free (hf : Reached p M f s) (hf' : Reached p M f' (s + d))
    (hd : ∀ i, (p.free f).get i = false → d.get i = 0) {i : Fin n} (hi : (p.free f').get i = true) :
    (p.free f).get i = true := by
  by_contra hno
  rw [Bool.not_eq_true] at hno
  have hsame : (p.free f').get i = (p.free f).get i := by
    rw [Subproblem.free, Subproblem.free, Box.get_free, Box.get_free, hf.get_point_eq hf' (hd i hno)]
  rw [hsame, hno] at hi
  cases hi

/-- A face converges where it is a point, or where the gradient left on it is small. -/
theorem converged_advanceFace (hc : (p.advanceFace l f).status = .converged) :
    (p.free (p.advanceFace l f)).nonempty = false ∨
      norm ((p.free f).restrict (p.model.gradient + (p.advanceFace l f).image)) ≤ p.faceTolerance l f := by
  unfold Subproblem.advanceFace at hc ⊢
  split
  · rw [if_pos ‹_›, status_leaveFace] at hc
    right
    by_contra hno
    rw [if_neg hno] at hc
    split_ifs at hc
  · left
    exact Bool.eq_false_iff.2 ‹_›

/-! ## All faces -/

theorem free_state_faceRun (p : Subproblem Exact n) (l : FaceLimits Exact) (s : Vector Exact n) :
    p.free (p.faceRun l s).state = p.box.free (p.minimizeFaces l s).point := rfl

theorem status_faceAt_of_lt {s : Vector Exact n} {k : ℕ} (hk : k < (p.faceRun l s).steps) :
    (p.faceAt l s k).status = .running :=
  eq_of_beq (test_iterate_of_lt hk)

/-- A minimization that stopped of itself was ended by a last face. -/
theorem exists_last_face {s : Vector Exact n} (hrun : (p.faceRun l s).state.status ≠ .running) :
    ∃ k, (p.faceRun l s).steps = k + 1 ∧ (p.faceRun l s).state = p.advanceFace l (p.faceAt l s k) := by
  rcases hK : (p.faceRun l s).steps with _ | k
  · rw [state_faceRun, hK] at hrun
    exact absurd rfl hrun
  · exact ⟨k, rfl, by rw [state_faceRun, hK, faceAt_succ]⟩

/-- The minimization converges where no coordinate is left free, or where the gradient left on the last face is
small. -/
theorem converged_minimizeFaces {s : Vector Exact n} (hc : (p.minimizeFaces l s).status = .converged) :
    (p.box.free (p.minimizeFaces l s).point).nonempty = false ∨
      ∃ k, (p.faceRun l s).steps = k + 1 ∧
        norm ((p.free (p.faceAt l s k)).restrict (p.model.gradient + (p.faceAt l s (k + 1)).image)) ≤
          p.faceTolerance l (p.faceAt l s k) := by
  rw [status_minimizeFaces] at hc
  rw [← free_state_faceRun]
  split_ifs at hc with hrun hfree
  · exact .inl (Bool.eq_false_iff.2 hfree)
  · obtain ⟨k, hk, hlast⟩ := exists_last_face hrun
    rw [hlast] at hc ⊢
    refine (converged_advanceFace hc).imp_right fun hle => ⟨k, hk, ?_⟩
    rw [faceAt_succ]
    exact hle

section Run

variable {A : Vector ℝ n →ₗ[ℝ] Vector ℝ n} (hM : ∀ v, M.hessian v = A v) (h : p.Extends M)
  (hs : p.box.Contains (p.base + (s : Vector Exact n))) {ρ : ℝ} (hρ : p.radius = ρ) (h0 : 0 ≤ ρ)

include hM h hs hρ h0

/-- After `k` faces the step has changed by no more than `k` radii. -/
theorem exists_reached_near (l : FaceLimits Exact) (k : ℕ) :
    ∃ s', Reached p M (p.faceAt l s k) s' ∧ norm (s' - s) ≤ k * ρ := by
  induction k with
  | zero =>
    refine ⟨s, reached_firstFace h hs, ?_⟩
    rw [sub_self, norm_zero, Nat.cast_zero, zero_mul]
  | succ k ih =>
    obtain ⟨s', hs', hnear⟩ := ih
    obtain ⟨d, hd, hnorm, -⟩ := hs'.exists_move hM h hρ h0 l
    refine ⟨s' + d, (faceAt_succ (p := p) l s k).symm ▸ hd, ?_⟩
    calc norm (s' + d - s) = norm (s' - s + d) := by rw [add_sub_right_comm]
      _ ≤ norm (s' - s) + norm d := norm_add_le _ _
      _ ≤ k * ρ + ρ := add_le_add hnear hnorm
      _ = (k + 1 : ℕ) * ρ := by push_cast; ring

end Run

/-- For any linear Hessian, symmetric or not: at every face the step leads to the point, which lies in the box, and
its image is the one at hand; a face changes the step in free coordinates and within the radius, and all faces
together within as many radii as there are coordinates. A minimization that converged has no coordinate left free,
or a small gradient on its last face, and that face has every coordinate that is left free. -/
theorem minimizeFaces_represents {p : Subproblem Exact n} {A : Vector ℝ n →ₗ[ℝ] Vector ℝ n} {g s : Vector ℝ n} {ρ : ℝ}
    (hg : p.model.gradient = g) (hH : Extends p.model.hessian A) (hx : p.box.Contains p.base)
    (hs : p.box.Contains (p.base + (s : Vector Exact n))) (hρ : p.radius = ρ) (h0 : 0 ≤ ρ) (l : FaceLimits Exact) :
    let K := (p.faceRun l s).steps
    let R := p.minimizeFaces l s
    (∀ k ≤ K, (p.faceAt l s k).point = p.base + (p.faceAt l s k).step ∧ p.box.Contains (p.faceAt l s k).point ∧
      (p.faceAt l s k).image = p.model.hessian (p.faceAt l s k).step) ∧
    (∀ k < K, ∃ d : Vector ℝ n, (p.faceAt l s (k + 1)).step = (p.faceAt l s k).step + (d : Vector Exact n) ∧
      norm d ≤ ρ ∧ ∀ i, (p.free (p.faceAt l s k)).get i = false → d.get i = 0) ∧
    norm (R.step - (s : Vector Exact n)) ≤ (n * ρ : ℝ) ∧
    (R.status = .converged → (∀ i, (p.box.free R.point).get i = false) ∨
      ∃ k, K = k + 1 ∧
        norm ((p.free (p.faceAt l s k)).restrict (p.model.gradient + p.model.hessian R.step)) ≤
          l.tolerance * norm ((p.free (p.faceAt l s k)).restrict p.model.gradient) ∧
        ∀ i, (p.box.free R.point).get i = true → (p.free (p.faceAt l s k)).get i = true) := by
  intro K R
  have h : p.Extends ⟨g, A⟩ := ⟨⟨hg, hH⟩, hx⟩
  have hreached := exists_reached_near (A := A) (fun _ => rfl) h hs hρ h0 l
  have hfinal : ∀ k, K = k → R.step = (p.faceAt l s k).step := fun k hk => by
    show (p.faceRun l s).state.step = _
    rw [state_faceRun, ← hk]
  refine ⟨fun k _ => ?_, fun k _ => ?_, ?_, fun hc => ?_⟩
  · obtain ⟨t, ht, -⟩ := hreached k
    rw [ht.step_eq, h.model.hessian]
    exact ⟨ht.point_eq, ht.contains, ht.image_eq⟩
  · obtain ⟨t, ht, -⟩ := hreached k
    obtain ⟨d, hd, hnorm, hfree⟩ := ht.exists_move (fun _ => rfl) h hρ h0 l
    refine ⟨d, ?_, hnorm, hfree⟩
    rw [faceAt_succ, hd.step_eq, ht.step_eq, Exact.coe_add_vector]
  · obtain ⟨t, ht, hnear⟩ := hreached K
    rw [hfinal K rfl, ht.step_eq, ← Exact.coe_sub_vector, ← Exact.coe_norm, Exact.coe_le]
    refine hnear.trans (mul_le_mul_of_nonneg_right ?_ h0)
    exact Nat.cast_le.2 (steps_advanceWhile_le _ _ _ _)
  · refine (converged_minimizeFaces hc).imp (fun hno i => ?_) fun ⟨k, hk, hle⟩ => ⟨k, hk, ?_, fun i hi => ?_⟩
    · rw [← Bool.not_eq_true]
      exact fun hi => Bool.eq_false_iff.1 hno ((Mask.nonempty_iff _).2 ⟨i, hi⟩)
    · obtain ⟨t, ht, -⟩ := hreached (k + 1)
      rw [hfinal _ hk, ht.step_eq, h.model.hessian]
      rw [ht.image_eq] at hle
      exact hle
    · obtain ⟨t, ht, -⟩ := hreached k
      obtain ⟨d, hd, -, hfree⟩ := ht.exists_move (fun _ => rfl) h hρ h0 l
      rw [← free_state_faceRun, state_faceRun, show (p.faceRun l s).steps = k + 1 from hk, faceAt_succ] at hi
      exact ht.free_of_free hd hfree hi

/-- A subproblem around the centre of a square, with any real Hessian. -/
noncomputable def overSquare (Q : SquareMatrix ℝ 2) : Subproblem Exact 2 where
  model := ⟨(#v[-1, 1] : Vector ℝ 2), (Exact.matrix Q).apply⟩
  box := ⟨(#v[-1, -1] : Vector ℝ 2), (#v[1, 1] : Vector ℝ 2)⟩
  base := (0 : Vector ℝ 2)
  radius := (1 : ℝ)
  rule := .default

theorem contains_overSquare (Q : SquareMatrix ℝ 2) :
    (overSquare Q).box.Contains (overSquare Q).base ∧
      (overSquare Q).box.Contains ((overSquare Q).base + ((#v[0, 0.5] : Vector ℝ 2) : Vector Exact 2)) := by
  have hbox : ∀ x : Vector ℝ 2, |x.get 0| ≤ 1 → |x.get 1| ≤ 1 → (overSquare Q).box.Contains x := fun x h0 h1 =>
    Box.contains_coe_iff.2 (Fin.forall_fin_two.2 ⟨abs_le.1 h0, abs_le.1 h1⟩)
  refine ⟨hbox 0 ?_ ?_, ?_⟩
  · rw [get_zero, abs_zero]; exact zero_le_one
  · rw [get_zero, abs_zero]; exact zero_le_one
  · show (overSquare Q).box.Contains (((0 : Vector ℝ 2) : Vector Exact 2) + (#v[0, 0.5] : Vector ℝ 2))
    rw [← Exact.coe_add_vector, zero_add]
    refine hbox _ ?_ ?_
    · show |(0 : ℝ)| ≤ 1
      norm_num
    · show |(0.5 : ℝ)| ≤ 1
      norm_num

/-- A Hessian that is not symmetric. -/
theorem minimizeFaces_represents_sheared :
    let p := overSquare #v[#v[1, 3], #v[0, 1]]
    let l : FaceLimits Exact := ⟨0.1, 2⟩
    let s : Vector ℝ 2 := #v[0, 0.5]
    let K := (p.faceRun l s).steps
    let R := p.minimizeFaces l s
    (p.box.Contains p.base ∧ p.box.Contains (p.base + (s : Vector Exact 2))) ∧
    (∀ k ≤ K, (p.faceAt l s k).point = p.base + (p.faceAt l s k).step ∧ p.box.Contains (p.faceAt l s k).point ∧
      (p.faceAt l s k).image = p.model.hessian (p.faceAt l s k).step) ∧
    (∀ k < K, ∃ d : Vector ℝ 2, (p.faceAt l s (k + 1)).step = (p.faceAt l s k).step + (d : Vector Exact 2) ∧
      norm d ≤ 1 ∧ ∀ i, (p.free (p.faceAt l s k)).get i = false → d.get i = 0) ∧
    norm (R.step - (s : Vector Exact 2)) ≤ ((2 : ℕ) * 1 : ℝ) ∧
    (R.status = .converged → (∀ i, (p.box.free R.point).get i = false) ∨
      ∃ k, K = k + 1 ∧
        norm ((p.free (p.faceAt l s k)).restrict (p.model.gradient + p.model.hessian R.step)) ≤
          l.tolerance * norm ((p.free (p.faceAt l s k)).restrict p.model.gradient) ∧
        ∀ i, (p.box.free R.point).get i = true → (p.free (p.faceAt l s k)).get i = true) := by
  intro p l s K R
  obtain ⟨hx, hs⟩ := contains_overSquare #v[#v[1, 3], #v[0, 1]]
  exact ⟨⟨hx, hs⟩, minimizeFaces_represents rfl (extends_matrix _) hx hs rfl zero_le_one l⟩

end BoxNewton.Subproblem
