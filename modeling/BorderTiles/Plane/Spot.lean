import BorderTiles.Plane.Point

/-!
# Plane — Spot

Exact positions.  A `Spot` has rational coordinates, so turns, crossings and areas are decided
without rounding; every finite binary coordinate is one.  `Spot.toPoint` rounds to the nearest binary
numbers and gives a binary position back as it was.
-/

namespace BorderTiles

/-- A position with rational coordinates. -/
structure Spot where
  x : Rat
  y : Rat
  deriving DecidableEq, Repr

namespace Spot

instance : Inhabited Spot := ⟨⟨0, 0⟩⟩

/-- The first power of two beyond the range of binary numbers. -/
def far : Rat := mkRat (Nat.pow 2 1024) 1

/-- The value of a coordinate.  An infinite one counts as `far` or its negative, and NaN as zero. -/
def coordinate (x : Float) : Rat :=
  match Number.Binary.ofFloat? x with
  | some b => b.toRat
  | none => if x.isNaN then 0 else if x < 0 then -far else far

/-- Whether a coordinate stands for an infinite one. -/
def isFar (s : Spot) : Bool := s.x.abs == far || s.y.abs == far

/-- The position of a point. -/
def ofPoint (p : Point Float) : Spot := ⟨coordinate p.x, coordinate p.y⟩

/-- The point nearest to a position. -/
def toPoint (s : Spot) : Point Float := ⟨Number.ofRat s.x, Number.ofRat s.y, none⟩

/-- The order by `x`, then `y`. -/
def le (s t : Spot) : Bool := s.x < t.x || (s.x == t.x && s.y ≤ t.y)

/-- Twice the signed area of a triangle, positive if `a`, `b`, `c` turn counter-clockwise in axes
where `y` grows upward. -/
def turn (a b c : Spot) : Rat := (b.x - a.x) * (c.y - a.y) - (b.y - a.y) * (c.x - a.x)

/-- The position half way between two others. -/
def middle (a b : Spot) : Spot := ⟨(a.x + b.x) / 2, (a.y + b.y) / 2⟩

/-- The quadrant of the direction from `a` to `b`, counted counter-clockwise from the positive `x`
axis. -/
def quadrant (a b : Spot) : Nat :=
  if a.x ≤ b.x then (if a.y ≤ b.y then 0 else 3) else (if a.y ≤ b.y then 1 else 2)

/-- Whether, counter-clockwise from the positive `x` axis, the direction from `a` to `b` comes before
the direction from `a` to `c`. -/
def comesBefore (a b c : Spot) : Bool :=
  let m := quadrant a b
  let n := quadrant a c
  if m = n then 0 < turn a b c else m < n

end Spot
end BorderTiles
