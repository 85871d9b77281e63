/-
Projected paths. The ray `x + t w` from a point of a box is bent along the box by moving every
coordinate that passes its bound back to that bound. The path is straight between its breakpoints,
the values of `t` at which a coordinate reaches its bound.
-/
import BoxNewton.Box.Basic

namespace BoxNewton.Box

variable {α : Type} [Scalar α] {n : Nat}

/-- How far coordinate `i` moves from `x` when the ray along `w` is followed for `t`. A coordinate
that stays within its bounds moves by `t * w` exactly, and by no difference of rounded points. -/
def move (b : Box α n) (x w : Vector α n) (t : α) (i : Fin n) : α :=
  let d := t * w.get i
  if x.get i + d < b.lower.get i then b.lower.get i - x.get i
  else if b.upper.get i < x.get i + d then b.upper.get i - x.get i
  else d

/-- The displacement from `x` to the point of the projected path at `t`. -/
def displacement (b : Box α n) (x w : Vector α n) (t : α) : Vector α n :=
  .ofFn (b.move x w t)

@[simp] theorem get_displacement (b : Box α n) (x w : Vector α n) (t : α) (i : Fin n) :
    (b.displacement x w t).get i = b.move x w t i := by
  simp [displacement]

/-! ## Breakpoints -/

/-- The value of `t` at which coordinate `i` reaches the bound it moves towards, if it moves and is
not yet there. It is infinite where that bound is. -/
def breakpoint? (b : Box α n) (x w : Vector α n) (i : Fin n) : Option α :=
  if x.get i < b.upper.get i ∧ 0 < w.get i then some ((b.upper.get i - x.get i) / w.get i)
  else if b.lower.get i < x.get i ∧ w.get i < 0 then some ((b.lower.get i - x.get i) / w.get i)
  else none

/-- The number of breakpoints of a path with the first and the last of them. -/
structure Breakpoints (α : Type) where
  count : Nat
  first : α
  last : α

/-- A path that never moves has no breakpoints, which is written with zeros. -/
def Breakpoints.ofList : List α → Breakpoints α
  | [] => ⟨0, 0, 0⟩
  | t :: ts => ⟨ts.length + 1, ts.foldl lesser t, ts.foldl greater t⟩

/-- The breakpoints of the path from `x` along `w`. -/
def breakpoints (b : Box α n) (x w : Vector α n) : Breakpoints α :=
  .ofList ((List.finRange n).filterMap (b.breakpoint? x w))

end BoxNewton.Box
