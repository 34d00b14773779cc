import BorderTiles.Scalar

/-!
# Plane — Point

Points, lines and boxes.  A line is the list of its points; it is empty or has at least two, which
`Line.ofPoints?` checks.  A point may carry a height, which no calculation looks at.  `dropRepeats`
removes a value that equals the one kept before it.
-/

namespace BorderTiles

/-- A point of the plane. -/
structure Point (α : Type) where
  x : α
  y : α
  height : Option α := none
  deriving Repr

/-- A line through its points. -/
abbrev Line (α : Type) := List (Point α)

/-- A rectangle with sides along the axes. -/
structure Box (α : Type) where
  minX : α
  minY : α
  maxX : α
  maxY : α
  deriving Repr

/-- A list without the values that equal the one kept before them. -/
def dropRepeats {τ : Type} (same : τ → τ → Bool) : List τ → List τ
  | [] => []
  | a :: r => a :: go a r
where
  /-- What is kept of a list behind the kept value `last`. -/
  go (last : τ) : List τ → List τ
    | [] => []
    | b :: r => if same b last then go last r else b :: go b r

namespace Point
variable {α : Type} [Scalar α]

/-- Whether two points are at the same place. -/
def same (p q : Point α) : Bool := Scalar.eq p.x q.x && Scalar.eq p.y q.y

end Point

namespace Line
variable {α : Type}

/-- The line through the points, which must not be a single one. -/
def ofPoints? (points : List (Point α)) : Except Fault (Line α) :=
  if points.length = 1 then .error .lonePoint else .ok points

end Line

namespace Box
variable {α : Type} [Scalar α]

/-- The box grown to hold a point. -/
def insert (b : Box α) (p : Point α) : Box α where
  minX := Scalar.least b.minX p.x
  minY := Scalar.least b.minY p.y
  maxX := Scalar.greatest b.maxX p.x
  maxY := Scalar.greatest b.maxY p.y

/-- The smallest box around points. -/
def around? : List (Point α) → Option (Box α)
  | [] => none
  | p :: r => some (r.foldl insert ⟨p.x, p.y, p.x, p.y⟩)

/-- Whether a point is in the box or on its edge. -/
def contains (b : Box α) (p : Point α) : Bool :=
  !Scalar.lt p.x b.minX && !Scalar.lt b.maxX p.x && !Scalar.lt p.y b.minY && !Scalar.lt b.maxY p.y

end Box
end BorderTiles
