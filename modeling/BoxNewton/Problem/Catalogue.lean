/-
A catalogue of smooth test functions, with derivatives in closed form. A function of the catalogue
can be shifted by a constant and raised behind a wall, a half-space which its derivatives ignore.
-/
import BoxNewton.Problem.Quadratic

namespace BoxNewton.Catalogue

variable {n : Nat}

/-- The sum of the terms in the order of their indices. -/
def total (term : Fin n → Float) : Float := (Vector.ofFn term).foldl (· + ·) 0

/-- The index before `i`, and `i` itself where there is none. -/
def before (i : Fin n) : Fin n := ⟨i.val - 1, Nat.lt_of_le_of_lt (Nat.sub_le _ _) i.isLt⟩

/-- The families of test functions, by their parameters. -/
inductive Family (n : Nat) where
  /-- `½ x · Q x + l · x` -/
  | quadratic (Q : SquareMatrix Float n) (l : Vector Float n)
  /-- The sum of `a (1 - xᵢ)² + b (xᵢ₊₁ - xᵢ²)²`. -/
  | rosenbrock (a b : Float)
  /-- The sum of `p x⁴ + q x² + l x`. -/
  | quartic (p q l : Vector Float n)
  /-- The sum of `l x - w log x`. -/
  | logBarrier (l w : Vector Float n)
  /-- The sum of `w exp (r x) + l x`. -/
  | exponential (w r l : Vector Float n)
  /-- The sum of `w cos x`, plus `½ m x · x`. -/
  | cosine (w : Vector Float n) (m : Float)
  /-- `p (u · x)⁴`, plus the sum of `½ d x²`. -/
  | coupled (p : Float) (u d : Vector Float n)

namespace Family

/-- The value of the function. -/
def value : Family n → Vector Float n → Float
  | quadratic Q l, x => 0.5 * dot x (Q.apply x) + dot l x
  | rosenbrock a b, x =>
    total fun i : Fin n =>
      if h : i + 1 < n then
        let t := x.get i
        let near := 1 - t
        let next := x.get ⟨i + 1, h⟩ - t * t
        a * (near * near) + b * (next * next)
      else 0
  | quartic p q l, x =>
    total fun i : Fin n =>
      let t := x.get i
      p.get i * (t * t * (t * t)) + q.get i * (t * t) + l.get i * t
  | logBarrier l w, x =>
    total fun i : Fin n =>
      let t := x.get i
      l.get i * t - w.get i * t.log
  | exponential w r l, x =>
    total (fun i : Fin n => w.get i * (r.get i * x.get i).exp) + dot l x
  | cosine w m, x =>
    total (fun i : Fin n => w.get i * (x.get i).cos) + 0.5 * m * dot x x
  | coupled p u d, x =>
    let t := dot u x
    p * (t * t * (t * t)) + 0.5 * total (fun i : Fin n => d.get i * (x.get i * x.get i))

/-- The gradient of the function. -/
def gradient : Family n → Vector Float n → Vector Float n
  | quadratic Q l, x => Q.symmetricPart.apply x + l
  | rosenbrock a b, x =>
    .ofFn fun i =>
      let t := x.get i
      let own :=
        if h : i + 1 < n then
          -2 * a * (1 - t) - 4 * b * t * (x.get ⟨i + 1, h⟩ - t * t)
        else 0
      let fromLeft :=
        if 0 < i.val then
          let s := x.get (before i)
          2 * b * (t - s * s)
        else 0
      own + fromLeft
  | quartic p q l, x =>
    .ofFn fun i =>
      let t := x.get i
      4 * p.get i * (t * t * t) + 2 * q.get i * t + l.get i
  | logBarrier l w, x => .ofFn fun i => l.get i - w.get i / x.get i
  | exponential w r l, x =>
    .ofFn fun i => w.get i * (r.get i * x.get i).exp * r.get i + l.get i
  | cosine w m, x => .ofFn fun i => m * x.get i - w.get i * (x.get i).sin
  | coupled p u d, x =>
    let t := dot u x
    .ofFn fun i => 4 * p * (t * t * t) * u.get i + d.get i * x.get i

/-- The product of the Hessian at `x` with `v`. -/
def product : Family n → Vector Float n → Operator Float n
  | quadratic Q _, _, v => Q.symmetricPart.apply v
  | rosenbrock a b, x, v =>
    .ofFn fun i =>
      let t := x.get i
      let own :=
        if h : i + 1 < n then
          let next := x.get ⟨i + 1, h⟩ - t * t
          (2 * a - 4 * b * next + 8 * b * (t * t)) * v.get i - 4 * b * t * v.get ⟨i + 1, h⟩
        else 0
      let fromLeft :=
        if 0 < i.val then
          2 * b * v.get i - 4 * b * x.get (before i) * v.get (before i)
        else 0
      own + fromLeft
  | quartic p q _, x, v =>
    .ofFn fun i => (12 * p.get i * (x.get i * x.get i) + 2 * q.get i) * v.get i
  | logBarrier _ w, x, v => .ofFn fun i => w.get i / (x.get i * x.get i) * v.get i
  | exponential w r _, x, v =>
    .ofFn fun i => w.get i * (r.get i * x.get i).exp * r.get i * r.get i * v.get i
  | cosine w m, x, v => .ofFn fun i => (m - w.get i * (x.get i).cos) * v.get i
  | coupled p u d, x, v =>
    let t := dot u x
    let s := dot u v
    .ofFn fun i => 12 * p * (t * t) * s * u.get i + d.get i * v.get i

end Family

/-- A function of the catalogue with its shift, and with the amount added where the first
coordinate exceeds the wall. -/
structure Entry (n : Nat) where
  family : Family n
  shift : Float
  wall : Float
  wallHeight : Float

/-- The amount that the wall adds at `x`. -/
def Entry.barrier (e : Entry n) (x : Vector Float n) : Float :=
  match x[0]? with
  | some first => if e.wall < first then e.wallHeight else 0
  | none => 0

/-- The objective of an entry, with twice the point as its auxiliary output. -/
def Entry.objective (e : Entry n) : Objective Float n (Vector Float n) where
  value x := e.family.value x + e.shift + e.barrier x
  auxiliary x := (2 : Float) * x
  derivatives := ⟨e.family.gradient, e.family.product⟩

end BoxNewton.Catalogue
