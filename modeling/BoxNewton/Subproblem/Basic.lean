/-
The subproblem of one iteration: a quadratic model around a point of a box, to be decreased within
a trust region without leaving the box. Both searches for a step follow projected paths and compare
what the model predicts with a fraction of what its gradient predicts.
-/
import BoxNewton.Box.Path
import BoxNewton.Model

namespace BoxNewton

/-- When a search along a path takes a step, and after how many trials it gives up: the predicted
change has to reach the fraction `decrease` of the change that the gradient alone predicts. -/
structure SearchRule (α : Type) where
  decrease : α
  maxTrials : Int

/-- One percent, within fifty trials. -/
def SearchRule.default {α : Type} [Scalar α] : SearchRule α := ⟨0.01, 50⟩

/-- A quadratic model around the point `base` of a box. -/
structure BoxedModel (α : Type) (n : Nat) where
  model : Model α n
  box : Box α n
  base : Vector α n

/-- A boxed model with a trust region and the rule of its searches. -/
structure Subproblem (α : Type) (n : Nat) extends BoxedModel α n where
  radius : α
  rule : SearchRule α

variable {α : Type} [Scalar α] {n : Nat}

/-- A step on a path, with the changes that the model and its gradient predict for it. -/
structure Trial (α : Type) (n : Nat) where
  step : Vector α n
  value : α
  slope : α

/-- The step on the projected path along `w` at `t`. -/
def BoxedModel.trial (q : BoxedModel α n) (w : Vector α n) (t : α) : Trial α n :=
  let s := q.box.displacement q.base w t
  ⟨s, q.model.value s, q.model.slope s⟩

namespace SearchRule

/-- The step decreases the model enough. -/
def Accepts (r : SearchRule α) (t : Trial α n) : Prop := t.value ≤ r.decrease * t.slope

/-- The step decreases the model by more than enough. -/
def AcceptsStrictly (r : SearchRule α) (t : Trial α n) : Prop := t.value < r.decrease * t.slope

/-- The step fails to decrease the model by more than enough. For values that do not compare this
is neither true nor the opposite of `AcceptsStrictly`. -/
def Refuses (r : SearchRule α) (t : Trial α n) : Prop := r.decrease * t.slope ≤ t.value

instance (r : SearchRule α) (t : Trial α n) : Decidable (r.Accepts t) :=
  inferInstanceAs (Decidable (_ ≤ _))

instance (r : SearchRule α) (t : Trial α n) : Decidable (r.AcceptsStrictly t) :=
  inferInstanceAs (Decidable (_ < _))

instance (r : SearchRule α) (t : Trial α n) : Decidable (r.Refuses t) :=
  inferInstanceAs (Decidable (_ ≤ _))

end SearchRule

end BoxNewton
