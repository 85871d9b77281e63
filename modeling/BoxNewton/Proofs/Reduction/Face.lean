/-
A face in its own coordinates. The direction and the step of a face are computed in all coordinates, from a
model confined to the free ones. Computed in the free coordinates alone they are the same: conjugate gradients
run through padded states (`advance_pad`), and the projected paths of padded directions are padded, with the
same breakpoints (`shift_pad`, `breakpoints_pad`). So neither sees a coordinate off the mask, whatever its
bounds and the Hessian have there.
-/
import BoxNewton.Proofs.ConjugateGradient.Exact
import BoxNewton.Proofs.Problem.Quadratic
import BoxNewton.Proofs.Reduction.Mask
import BoxNewton.Proofs.Subproblem.ProjectedSearch

namespace BoxNewton

variable {α : Type} {n : ℕ}

/-! ## Models -/

namespace Model

/-- The model confined to the coordinates of a mask. -/
def confine [Zero α] (M : Model α n) (m : Mask n) : Model α n := ⟨m.restrict M.gradient, m.confine M.hessian⟩

/-- The model in the coordinates of a mask alone. -/
noncomputable def compress [Zero α] (M : Model α n) (m : Mask n) : Model α m.count :=
  ⟨m.compress M.gradient, fun u => m.compress (M.hessian (m.pad u))⟩

section Zero

variable [Zero α] (M : Model α n) (m : Mask n)

theorem gradient_confine : (M.confine m).gradient = m.pad (M.compress m).gradient := (m.pad_compress _).symm

theorem hessian_confine_pad (u : Vector α m.count) :
    (M.confine m).hessian (m.pad u) = m.pad ((M.compress m).hessian u) := by
  show m.restrict (M.hessian (m.restrict (m.pad u))) = m.pad (m.compress (M.hessian (m.pad u)))
  rw [m.restrict_pad, m.pad_compress]

end Zero

theorem slope_pad (M : Model ℝ n) (m : Mask n) (u : Vector ℝ m.count) :
    (M.confine m).slope (m.pad u) = (M.compress m).slope u := by
  rw [slope, gradient_confine, m.dot_pad]; rfl

theorem value_pad (M : Model ℝ n) (m : Mask n) (u : Vector ℝ m.count) :
    (M.confine m).value (m.pad u) = (M.compress m).value u := by
  rw [value_eq, value_eq, hessian_confine_pad, gradient_confine, m.dot_pad, m.dot_pad]

variable {q : Model Exact n} {M : Model ℝ n}

theorem Extends.confine (h : q.Extends M) (m : Mask n) : (q.confine m).Extends (M.confine m) where
  gradient := by
    show m.restrict q.gradient = ((m.restrict M.gradient : Vector ℝ n) : Vector Exact n)
    rw [h.gradient, Exact.coe_restrict]
  hessian := h.hessian.confine m

theorem Extends.compress (h : q.Extends M) (m : Mask n) : (q.compress m).Extends (M.compress m) where
  gradient := by
    show m.compress q.gradient = ((m.compress M.gradient : Vector ℝ m.count) : Vector Exact m.count)
    rw [h.gradient, Exact.coe_compress]
  hessian u := by
    show m.compress (q.hessian (m.pad (u : Vector Exact m.count))) = ((m.compress (M.hessian (m.pad u)) :
      Vector ℝ m.count) : Vector Exact m.count)
    rw [← Exact.coe_pad, h.hessian, Exact.coe_compress]

end Model

/-! ## Conjugate gradients -/

namespace ConjugateGradient

/-- A state in the coordinates of a mask, in all coordinates. -/
noncomputable def State.pad {m : Mask n} (s : State ℝ m.count) : State ℝ n where
  iterate := m.pad s.iterate
  residual := m.pad s.residual
  scaledResidual := m.pad s.scaledResidual
  direction := m.pad s.direction
  energy := s.energy
  status := s.status

namespace Problem

/-- The problem of a model without a change of variables. -/
def ofModel (M : Model α n) (radius tolerance scaledTolerance : α) : Problem α n :=
  ⟨M, .identity, radius, tolerance, scaledTolerance⟩

section Pad

variable (M : Model ℝ n) (m : Mask n) (ρ τ σ : ℝ)

theorem start_pad : (ofModel (M.confine m) ρ τ σ).start = (ofModel (M.compress m) ρ τ σ).start.pad := by
  have hresidual : -(M.confine m).gradient = m.pad (-(M.compress m).gradient) := by
    rw [M.gradient_confine, m.pad_neg]
  unfold start State.pad
  simp only [ofModel, Preconditioner.identity, id, hresidual, m.dot_pad, m.pad_zero]
  rfl

theorem curvature_pad (s : State ℝ m.count) :
    (ofModel (M.confine m) ρ τ σ).curvature s.pad = (ofModel (M.compress m) ρ τ σ).curvature s := by
  show dot (m.pad s.direction) ((M.confine m).hessian (m.pad s.direction)) = _
  rw [M.hessian_confine_pad, m.dot_pad]; rfl

theorem stepLength_pad (s : State ℝ m.count) :
    (ofModel (M.confine m) ρ τ σ).stepLength s.pad = (ofModel (M.compress m) ρ τ σ).stepLength s := by
  rw [stepLength, curvature_pad]; rfl

theorem boundaryStep_pad (x d : Vector ℝ m.count) :
    TrustRegion.boundaryStep (m.pad x) (m.pad d) ρ = TrustRegion.boundaryStep x d ρ := by
  simp only [TrustRegion.boundaryStep, m.dot_pad]

theorem leaves_pad (s : State ℝ m.count) :
    (ofModel (M.confine m) ρ τ σ).Leaves s.pad ↔ (ofModel (M.compress m) ρ τ σ).Leaves s := by
  rw [Leaves, curvature_pad, stepLength_pad]
  show _ ∨ TrustRegion.boundaryStep (m.pad s.iterate) (m.pad s.direction) ρ ≤ _ ↔ _
  rw [boundaryStep_pad]; rfl

/-- An iteration does the same with padded vectors. -/
theorem advance_pad (s : State ℝ m.count) :
    (ofModel (M.confine m) ρ τ σ).advance s.pad = ((ofModel (M.compress m) ρ τ σ).advance s).pad := by
  have himage := M.hessian_confine_pad m s.direction
  unfold advance State.pad
  simp only [ofModel, Preconditioner.identity, id, himage, m.dot_pad, boundaryStep_pad, ← m.pad_sub_hmul,
    ← m.pad_add_hmul, m.norm_pad, ← apply_ite m.pad]
  rfl

end Pad

variable {q : Model Exact n} {M : Model ℝ n}

theorem extends_ofModel (h : q.Extends M) (ρ : ℝ) (τ σ : Exact) : (ofModel q ρ τ σ).Extends (ofModel M ρ 0 0) :=
  ⟨h, fun _ => rfl, fun _ => rfl, rfl⟩

/-- Conjugate gradients for a confined model are conjugate gradients in the coordinates of the mask. -/
theorem exists_solve_pad (h : q.Extends M) (m : Mask n) (ρ : ℝ) (τ σ : Exact) (k : ℤ) :
    ∃ w : Vector ℝ m.count, ((ofModel (q.compress m) ρ τ σ).solve k).iterate = w ∧
      ((ofModel (q.confine m) ρ τ σ).solve k).iterate = (m.pad w : Vector ℝ n) ∧
      ((ofModel (q.confine m) ρ τ σ).solve k).iterations = ((ofModel (q.compress m) ρ τ σ).solve k).iterations ∧
      ((ofModel (q.confine m) ρ τ σ).solve k).status = ((ofModel (q.compress m) ρ τ σ).solve k).status := by
  have hsmall := extends_ofModel (h.compress m) ρ τ σ
  have hfull := extends_ofModel (h.confine m) ρ τ σ
  obtain ⟨s, _, rfl, hiterate, hiterate', hsteps, hstatus⟩ := hsmall.solve_related hfull
    (R := fun s t => t = s.pad) (fun hst => hst ▸ rfl) (start_pad M m ρ 0 0)
    (fun {s t} hst => by
      subst hst
      have hadvance := advance_pad M m ρ 0 0 s
      refine ⟨hsmall.status_advance_eq hfull (leaves_pad M m ρ 0 0 s) (curvature_pad M m ρ 0 0 s) ?_ rfl ?_, ?_⟩
      · rw [hadvance]; rfl
      · rw [hadvance]
        show ((norm (m.pad _) : ℝ) : Exact) ≤ τ ↔ _
        rw [m.norm_pad]; rfl
      · intro status
        rw [hadvance]; rfl) k
  exact ⟨s.iterate, hiterate, hiterate', hsteps, hstatus⟩

end Problem

end ConjugateGradient

/-! ## Boxes and paths -/

namespace Box

/-- The bounds of the coordinates of a mask. -/
def compress (b : Box α n) (m : Mask n) : Box α m.count := ⟨m.compress b.lower, m.compress b.upper⟩

variable {b : Box Exact n} {x : Vector Exact n} (m : Mask n)

theorem contains_compress (hx : b.Contains x) : (b.compress m).Contains (m.compress x) := fun k => by
  simp only [compress, Mask.get_compress]
  exact hx (m.position k)

/-- The path of a padded direction is padded. -/
theorem shift_pad (hx : b.Contains x) (w : Vector ℝ m.count) (t : ℝ) :
    b.shift x (m.pad w) t = m.pad ((b.compress m).shift (m.compress x) w t) := by
  refine m.ext_position (fun k => ?_) fun i hi => ?_
  · have hmove : b.move x (m.pad w : Vector ℝ n) t (m.position k) = (b.compress m).move (m.compress x) w t k := by
      simp only [move, compress, Mask.get_compress, Exact.get_coe, Mask.get_pad_position]
    rw [Mask.get_pad_position, shift, shift, get_ofFn, get_ofFn, hmove]
  · rw [shift_eq_zero hx (Mask.get_pad_of_not hi w), Mask.get_pad_of_not hi]

/-! ## Breakpoints -/

theorem breakpoint?_pad_position (w : Vector ℝ m.count) (k : Fin m.count) :
    b.breakpoint? x (m.pad w : Vector ℝ n) (m.position k) = (b.compress m).breakpoint? (m.compress x) w k := by
  simp only [breakpoint?, compress, Mask.get_compress, Exact.get_coe, Mask.get_pad_position]

/-- Coordinates off the mask have no breakpoint. -/
theorem breakpoint?_pad_of_not {m : Mask n} {i : Fin n} (hi : m.get i = false) (w : Vector ℝ m.count) :
    b.breakpoint? x (m.pad w : Vector ℝ n) i = none := by
  by_contra hne
  obtain ⟨s, hs⟩ := Option.ne_none_iff_exists'.1 hne
  exact ne_zero_of_breakpoint hs (Mask.get_pad_of_not hi w)

theorem breakpoints_pad (b : Box Exact n) (x : Vector Exact n) (w : Vector ℝ m.count) :
    b.breakpoints x (m.pad w : Vector ℝ n) = (b.compress m).breakpoints (m.compress x) w := by
  -- the coordinates off the mask drop out, and what is left are the positions, in an order that does not matter
  have hpositions : ((List.finRange n).filter fun i => m.get i).Perm ((List.finRange m.count).map m.position) := by
    refine (List.perm_ext_iff_of_nodup ((List.nodup_finRange n).filter _)
      ((List.nodup_finRange _).map m.position.injective)).2 fun i => ?_
    simp only [List.mem_filter, List.mem_finRange, true_and, List.mem_map]
    exact ⟨Mask.exists_position, fun ⟨k, hk⟩ => hk ▸ m.get_position k⟩
  have hfilter : (List.finRange n).filterMap (b.breakpoint? x (m.pad w : Vector ℝ n)) =
      ((List.finRange n).filter fun i => m.get i).filterMap (b.breakpoint? x (m.pad w : Vector ℝ n)) := by
    rw [List.filterMap_filter]
    refine List.filterMap_congr fun i _ => ?_
    cases hi : m.get i with
    | false => exact breakpoint?_pad_of_not hi w
    | true => rfl
  have hmap := hpositions.filterMap (b.breakpoint? x (m.pad w : Vector ℝ n))
  rw [List.filterMap_map] at hmap
  unfold breakpoints
  rw [hfilter, Breakpoints.ofList_perm hmap]
  simp only [Function.comp_def, breakpoint?_pad_position]

end Box

/-! ## The projected search -/

namespace BoxedModel

/-- The model confined to the coordinates of a mask, in the whole box. -/
def confine [Zero α] (q : BoxedModel α n) (m : Mask n) : BoxedModel α n := { q with model := q.model.confine m }

/-- The model, the box and the point in the coordinates of a mask alone. -/
noncomputable def compress [Zero α] (q : BoxedModel α n) (m : Mask n) : BoxedModel α m.count :=
  ⟨q.model.compress m, q.box.compress m, m.compress q.base⟩

section Padded

variable {q : BoxedModel Exact n} {M : Model ℝ n} (h : q.Extends M) (m : Mask n) (w : Vector ℝ m.count)
  (r : SearchRule Exact)

theorem Extends.confine (h : q.Extends M) : (q.confine m).Extends (M.confine m) := ⟨h.model.confine m, h.base⟩

theorem Extends.compress (h : q.Extends M) : (q.compress m).Extends (M.compress m) :=
  ⟨h.model.compress m, Box.contains_compress m h.base⟩

theorem firstBreakpoint_pad (q : BoxedModel Exact n) :
    (q.confine m).firstBreakpoint (m.pad w : Vector ℝ n) = (q.compress m).firstBreakpoint w :=
  congrArg Box.Breakpoints.first (Box.breakpoints_pad m q.box q.base w)

include h

/-- A trial along a padded direction predicts the same. -/
theorem accepts_pad (t : ℝ) :
    r.Accepts ((q.confine m).trial (m.pad w : Vector ℝ n) t) ↔ r.Accepts ((q.compress m).trial w t) := by
  rw [(h.confine m).trial, (h.compress m).trial]
  show ((M.confine m).value (q.box.shift q.base (m.pad w) t) : Exact) ≤
    r.decrease * (M.confine m).slope (q.box.shift q.base (m.pad w) t) ↔ _
  rw [Box.shift_pad m h.base, Model.value_pad, Model.slope_pad]; rfl

theorem projectedSearch_pad :
    (q.confine m).projectedSearch r (m.pad w : Vector ℝ n) = (q.compress m).projectedSearch r w :=
  projectedSearch_congr (firstBreakpoint_pad m w q) (accepts_pad h m w r)

/-- The search in the coordinates of the mask finds the same step, of the same length, after as many trials. -/
theorem exists_projectedStep_pad :
    let S := (q.confine m).projectedStep r (m.pad w : Vector ℝ n)
    let s := (q.compress m).projectedStep r w
    (∃ d : Vector ℝ m.count, s.step = d ∧ S.step = (m.pad d : Vector ℝ n) ∧
      s.point = m.compress q.base + (d : Vector Exact m.count) ∧
      S.point = q.base + ((m.pad d : Vector ℝ n) : Vector Exact n)) ∧
    S.length = s.length ∧ S.products = s.products := by
  intro S s
  have hrun := projectedSearch_pad h m w r
  have hlength : S.length = s.length := by
    show (if _ then (q.confine m).firstBreakpoint _ else ((q.confine m).projectedSearch r _).state.length) = _
    rw [hrun, firstBreakpoint_pad]; rfl
  obtain ⟨ℓ, hℓ⟩ := exists_stepped (q.compress m) r w
  obtain ⟨ℓ', hℓ'⟩ := exists_stepped (q.confine m) r (m.pad w)
  obtain rfl : ℓ' = ℓ := Exact.coe_inj.1 (hℓ'.length_eq.symm.trans (hlength.trans hℓ.length_eq))
  have hshift : (q.confine m).box.shift (q.confine m).base (m.pad w) ℓ' =
      m.pad ((q.compress m).box.shift (q.compress m).base w ℓ') := Box.shift_pad m h.base w ℓ'
  refine ⟨⟨_, hℓ.step_eq (h.compress m).base, ?_, hℓ.point_eq (h.compress m).base, ?_⟩, hlength, ?_⟩
  · rw [← hshift]
    exact hℓ'.step_eq (h.confine m).base
  · rw [← hshift]
    exact hℓ'.point_eq (h.confine m).base
  · exact congrArg Run.steps hrun

end Padded

/-- Conjugate gradients for a model confined to a mask, and the projected search along their result, are those of
the problem in the coordinates of the mask alone: the same direction, step and point on the mask, the same
numbers of iterations and products, the same status and length. Off the mask nothing moves. -/
theorem confine_eq_compress {q : BoxedModel Exact n} {M : Model ℝ n} (h : q.Extends M) (m : Mask n) (ρ : ℝ)
    (τ σ : Exact) (k : ℤ) (r : SearchRule Exact) :
    let W := (ConjugateGradient.Problem.ofModel (q.confine m).model ρ τ σ).solve k
    let w := (ConjugateGradient.Problem.ofModel (q.compress m).model ρ τ σ).solve k
    let S := (q.confine m).projectedStep r W.iterate
    let s := (q.compress m).projectedStep r w.iterate
    (m.compress W.iterate = w.iterate ∧ W.iterations = w.iterations ∧ W.status = w.status) ∧
    (m.compress S.step = s.step ∧ m.compress S.point = s.point ∧ S.length = s.length ∧ S.products = s.products) ∧
    ∀ i, m.get i = false → W.iterate.get i = 0 ∧ S.step.get i = 0 ∧ S.point.get i = q.base.get i := by
  intro W w S s
  obtain ⟨u, hw, hW, hiterations, hstatus⟩ := ConjugateGradient.Problem.exists_solve_pad h.model m ρ τ σ k
  have hS : S = (q.confine m).projectedStep r (m.pad u : Vector ℝ n) :=
    congrArg ((q.confine m).projectedStep r) hW
  have hs : s = (q.compress m).projectedStep r u := congrArg ((q.compress m).projectedStep r) hw
  obtain ⟨⟨d, hstep, hStep, hpoint, hPoint⟩, hlength, hproducts⟩ := exists_projectedStep_pad h m u r
  rw [← hS] at hStep hPoint hlength hproducts
  rw [← hs] at hstep hpoint hlength hproducts
  have hback : ∀ v : Vector ℝ m.count, m.compress ((m.pad v : Vector ℝ n) : Vector Exact n) = v := fun v => by
    rw [← Exact.coe_compress, m.compress_pad]
  have hoff : ∀ {i} (v : Vector ℝ m.count), m.get i = false → ((m.pad v : Vector ℝ n) : Vector Exact n).get i = 0 :=
    fun v hi => by rw [Exact.get_coe, Mask.get_pad_of_not hi]; rfl
  have hback_iterate : m.compress W.iterate = w.iterate := (congrArg m.compress hW).trans ((hback u).trans hw.symm)
  refine ⟨⟨hback_iterate, hiterations, hstatus⟩, ⟨?_, ?_, hlength, hproducts⟩, fun i hi => ⟨?_, ?_, ?_⟩⟩
  · rw [hStep, hback, hstep]
  · rw [hPoint, m.compress_add, hback, hpoint]
  · exact (congrArg (·.get i) hW).trans (hoff u hi)
  · rw [hStep, hoff d hi]
  · rw [hPoint, get_add, hoff d hi, Exact.add_zero]

/-- A model around a point whose second coordinate is at its bound, with a Hessian that mixes all three. -/
noncomputable def besideFace : BoxedModel Exact 3 where
  model := ⟨(#v[1, -1, 0.5] : Vector ℝ 3), (Exact.matrix #v[#v[0.5, 1, 1], #v[0, -1, 1], #v[1, 0, -0.5]]).apply⟩
  box := ⟨(#v[-1, -1, -1] : Vector ℝ 3), (#v[1, 1, 1] : Vector ℝ 3)⟩
  base := (#v[0, 1, 0.5] : Vector ℝ 3)

theorem extends_besideFace :
    besideFace.Extends ⟨#v[1, -1, 0.5], SquareMatrix.linear #v[#v[0.5, 1, 1], #v[0, -1, 1], #v[1, 0, -0.5]]⟩ where
  model := ⟨rfl, extends_matrix _⟩
  base := Box.contains_coe_iff.2 fun i => by
    fin_cases i
    · exact ⟨(by norm_num : (-1 : ℝ) ≤ 0), (by norm_num : (0 : ℝ) ≤ 1)⟩
    · exact ⟨(by norm_num : (-1 : ℝ) ≤ 1), (le_rfl : (1 : ℝ) ≤ 1)⟩
    · exact ⟨(by norm_num : (-1 : ℝ) ≤ 0.5), (by norm_num : (0.5 : ℝ) ≤ 1)⟩

/-- On the face of the two free coordinates. -/
theorem confine_eq_compress_besideFace :
    let q := besideFace
    let m : Mask 3 := #v[true, false, true]
    let W := (ConjugateGradient.Problem.ofModel (q.confine m).model (1 : ℝ) (0.1 : ℝ) (0 : ℝ)).solve 4
    let w := (ConjugateGradient.Problem.ofModel (q.compress m).model (1 : ℝ) (0.1 : ℝ) (0 : ℝ)).solve 4
    let S := (q.confine m).projectedStep .default W.iterate
    let s := (q.compress m).projectedStep .default w.iterate
    q.box.free q.base = m ∧
    (m.compress W.iterate = w.iterate ∧ W.iterations = w.iterations ∧ W.status = w.status) ∧
    (m.compress S.step = s.step ∧ m.compress S.point = s.point ∧ S.length = s.length ∧ S.products = s.products) ∧
    ∀ i, m.get i = false → W.iterate.get i = 0 ∧ S.step.get i = 0 ∧ S.point.get i = q.base.get i := by
  intro q m W w S s
  refine ⟨ext_get fun i => ?_, confine_eq_compress extends_besideFace m 1 _ _ 4 _⟩
  refine Bool.eq_iff_iff.2 (Box.free_coe_iff.trans ?_)
  fin_cases i
  · exact iff_of_true ⟨(by norm_num : (-1 : ℝ) < 0), (by norm_num : (0 : ℝ) < 1)⟩ rfl
  · exact iff_of_false (fun hi => lt_irrefl (1 : ℝ) hi.2) Bool.false_ne_true
  · exact iff_of_true ⟨(by norm_num : (-1 : ℝ) < 0.5), (by norm_num : (0.5 : ℝ) < 1)⟩ rfl

end BoxedModel

end BoxNewton
