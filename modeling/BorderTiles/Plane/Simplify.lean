import BorderTiles.Plane.Segment

/-!
# Plane — Simplify

Leaving out points of a line within a tolerance.  A stretch of the line is replaced by the segment
between its ends if its farthest point is within the tolerance of that segment, enough points are left
for a line or ring, and the segment meets no other part of the line away from common ends; otherwise
the stretch is cut at its farthest point and both parts are treated in the same way.  The first and
the last point stay.
-/

namespace BorderTiles.Simplify

/-- The distance of two points. -/
def distance (p q : Point Float) : Float :=
  ((p.x - q.x) * (p.x - q.x) + (p.y - q.y) * (p.y - q.y)).sqrt

/-- The distance of a point from the segment between two others. -/
def distanceFrom (a b p : Point Float) : Float :=
  let dx := b.x - a.x
  let dy := b.y - a.y
  if dx == 0 && dy == 0 then distance p a
  else
    let squared := dx * dx + dy * dy
    let along := ((p.x - a.x) * dx + (p.y - a.y) * dy) / squared
    if along <= 0 then distance p a
    else if 1 <= along then distance p b
    else (((a.y - p.y) * dx - (a.x - p.x) * dy) / squared).abs * squared.sqrt

/-- The place and distance of the point of `l` between `i` and `j` that is farthest from the segment
between them, the first one of several. -/
def farthest (l : Array (Point Float)) (i j : Nat) : Nat × Float :=
  let a := l.getD i ⟨0, 0, none⟩
  let b := l.getD j ⟨0, 0, none⟩
  (List.range' (i + 1) (j - i - 1)).foldl (fun (k, d) m =>
    let e := distanceFrom a b (l.getD m ⟨0, 0, none⟩)
    if d < e then (m, e) else (k, d)) (i, -1)

/-- Whether two segments meet in a position that is not an end of both. -/
def collide (s t : Segment) : Bool :=
  (s.meeting t).any fun p => !((p = s.a || p = s.b) && (p = t.a || p = t.b))

/-- The state of a simplification. -/
structure Progress where
  /-- For each segment of the line, whether it still stands. -/
  standing : Array Bool
  /-- The segments that replace stretches. -/
  flattened : List Segment
  /-- The number of segments in the result. -/
  count : Nat
  /-- The places of the kept points, the latest first. -/
  kept : List Nat

/-- A line to simplify, with its exact segments. -/
structure Subject where
  points : Array (Point Float)
  segments : Array Segment
  tolerance : Float
  /-- The fewest points of the result. -/
  least : Nat

/-- Whether replacing the stretch from `i` to `j` by a segment keeps clear of the rest. -/
def isClear (t : Subject) (p : Progress) (i j : Nat) (flat : Segment) : Bool :=
  !p.flattened.any (collide flat) && (List.range t.segments.size).all fun k =>
    (i ≤ k && k < j) || !p.standing.getD k false || !collide flat (t.segments.getD k default)

/-- Whether the stretch from `i` to `j`, reached by `depth` cuts, may become a segment. -/
def mayFlatten (t : Subject) (p : Progress) (i j depth : Nat) (far : Float) : Bool :=
  let points := if p.count = 0 then 0 else p.count + 1
  let enough := t.least ≤ points || t.least ≤ depth + 1
  enough && !(t.tolerance < far) &&
    isClear t p i j
      ⟨.ofPoint (t.points.getD i ⟨0, 0, none⟩), .ofPoint (t.points.getD j ⟨0, 0, none⟩)⟩

/-- The stretch from `i` to `j` simplified. -/
def stretch (t : Subject) : (fuel i j depth : Nat) → Progress → Progress
  | 0, _, j, _, p => { p with count := p.count + 1, kept := j :: p.kept }
  | fuel + 1, i, j, depth, p =>
    let depth := depth + 1
    if j ≤ i + 1 then { p with count := p.count + 1, kept := j :: p.kept }
    else
      let (k, far) := farthest t.points i j
      if mayFlatten t p i j depth far then
        let flat : Segment :=
          ⟨.ofPoint (t.points.getD i ⟨0, 0, none⟩), .ofPoint (t.points.getD j ⟨0, 0, none⟩)⟩
        { standing := (List.range' i (j - i)).foldl (·.setIfInBounds · false) p.standing
          flattened := flat :: p.flattened
          count := p.count + 1
          kept := j :: p.kept }
      else stretch t fuel k j depth (stretch t fuel i k depth p)

end Simplify

namespace Line

/-- The line without the points that a tolerance lets go. -/
def simplify (tolerance : Float) (l : Line Float) : Line Float :=
  let points := l.toArray
  if points.size < 2 then l
  else
    let closed := match l.head?, l.getLast? with
      | some p, some q => p.same q
      | _, _ => false
    let segments := (Segment.ofSpots (l.map Spot.ofPoint)).toArray
    let subject : Simplify.Subject := ⟨points, segments, tolerance, if closed then 4 else 2⟩
    let start : Simplify.Progress := ⟨Array.replicate segments.size true, [], 0, [0]⟩
    let done := Simplify.stretch subject points.size 0 (points.size - 1) 0 start
    done.kept.reverse.filterMap (points[·]?)

end Line
end BorderTiles
