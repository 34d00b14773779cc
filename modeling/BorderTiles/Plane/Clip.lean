import BorderTiles.Plane.Region

/-!
# Plane — Clip

The part of a geometry inside a closed box.  Lines are cut where they meet themselves or each other
and where they meet the edge of the box; the pieces inside the box are kept, a stretch that is walked
twice once.  A position on the edge of the box that only touches a line is kept as a point.
`Geometry.meets` tells whether there is anything to keep.
-/

namespace BorderTiles

namespace Box

/-- The corners of a box, counter-clockwise from the lowest left one, which is repeated. -/
def corners (b : Box Float) : List Spot :=
  let corner (x y : Float) : Spot := ⟨Spot.coordinate x, Spot.coordinate y⟩
  [corner b.minX b.minY, corner b.maxX b.minY, corner b.maxX b.maxY, corner b.minX b.maxY,
    corner b.minX b.minY]

/-- The edge of a box. -/
def sides (b : Box Float) : List Segment := Segment.ofSpots b.corners

/-- Whether a position is in the box or on its edge. -/
def holds (b : Box Float) (s : Spot) : Bool :=
  Spot.coordinate b.minX ≤ s.x && s.x ≤ Spot.coordinate b.maxX
    && Spot.coordinate b.minY ≤ s.y && s.y ≤ Spot.coordinate b.maxY

/-- Whether the segment between two points meets the box: their box does, and the corners are not all
strictly on one side of the line through them. -/
def meetsSegment (b : Box Float) (p q : Point Float) : Bool :=
  let apart := (p.x < b.minX && q.x < b.minX) || (b.maxX < p.x && b.maxX < q.x)
    || (p.y < b.minY && q.y < b.minY) || (b.maxY < p.y && b.maxY < q.y)
  !apart && (b.contains p || b.contains q ||
    let turns := b.corners.map (Spot.turn (.ofPoint p) (.ofPoint q))
    !(turns.all (0 < ·) || turns.all (· < 0)))

/-- Whether a line meets the box. -/
def meetsLine (b : Box Float) : Line Float → Bool
  | [] => false
  | [p] => b.contains p
  | p :: q :: r => b.meetsSegment p q || meetsLine b (q :: r)

end Box

namespace Clip

/-- The exact positions along a line, without repeats. -/
def spotsOf (l : Line Float) : List Spot :=
  dropRepeats (· == ·) (l.map Spot.ofPoint)

/-- A segment of a line with its place: the number of the line and of the segment on it. -/
structure Placed where
  segment : Segment
  line : Nat
  index : Nat
  deriving DecidableEq

/-- The segments of lines whose boxes come near a box. -/
def nearSegments (lines : List (List Spot)) (box : List Segment) : List Placed :=
  let diagonal : Segment := ⟨(box.headD default).a, ((box.drop 1).headD default).b⟩
  (lines.zipIdx.flatMap fun (spots, n) =>
    (Segment.ofSpots spots).zipIdx.map fun (s, i) => ⟨s, n, i⟩).filter
      fun p => p.segment.near diagonal

/-- Where a segment meets another one, apart from the corner that it shares with its neighbour. -/
def crossings (p q : Placed) : List Spot :=
  if p = q then []
  else
    let meeting := p.segment.meeting q.segment
    let neighbours := p.line = q.line && (p.index + 1 = q.index || q.index + 1 = p.index)
    if neighbours && meeting.length ≤ 1 then [] else meeting

/-- What is left of lines in a box: its pieces, and the positions where lines only touch it. -/
structure Rest where
  pieces : List (List Spot)
  touched : List Spot

/-- Edges in walking order joined to pieces, which end at the nodes. -/
def chain (isNode : Spot → Bool) : List Segment → List (List Spot)
  | [] => []
  | s :: r =>
    match chain isNode r with
    | (c :: piece) :: pieces =>
      if c = s.b && !isNode c then (s.a :: c :: piece) :: pieces
      else [s.a, s.b] :: (c :: piece) :: pieces
    | pieces => [s.a, s.b] :: pieces

/-- Pieces without those that repeat an earlier one in either direction. -/
def distinctPieces (pieces : List (List Spot)) : List (List Spot) :=
  (pieces.foldl (fun kept piece =>
    if kept.contains piece || kept.contains piece.reverse then kept else piece :: kept) []).reverse

/-- What is left of lines in a box. -/
def rest (lines : List (Line Float)) (box : Box Float) : Rest :=
  let spots := lines.map spotsOf
  let sides := box.sides
  let placed := nearSegments spots sides
  let cuts := placed.map fun p =>
    let own := placed.flatMap (crossings p)
    let edge := sides.flatMap p.segment.meeting
    (p.segment, own, edge)
  let touching := (cuts.flatMap (·.2.2)).eraseDups
  let ends := spots.flatMap fun l => l.head?.toList ++ l.getLast?.toList
  let nodes := ((cuts.flatMap (·.2.1)) ++ touching ++ ends).eraseDups
  let edges := cuts.flatMap fun (s, own, edge) => s.splitAt (own ++ edge)
  let inside := edges.filter fun e => box.holds (Spot.middle e.a e.b)
  { pieces := distinctPieces (chain nodes.contains inside)
    touched := touching.filter fun s => !inside.any fun e => e.a = s || e.b = s }

/-- A piece as a line, unless its points fall together when they are rounded. -/
def toLine? (piece : List Spot) : Option (Line Float) :=
  let points := dropRepeats Point.same (piece.map Spot.toPoint)
  if points.length < 2 then none else some points

end Clip

namespace Geometry

/-- The parts of a geometry by dimension. -/
structure Parts where
  points : List (Point Float)
  lines : List (Line Float)
  polygons : List (List (Line Float))

mutual

/-- The points, lines and polygons of a geometry. -/
def parts : Geometry Float → Parts
  | point p => ⟨p.toList, [], []⟩
  | line l => ⟨[], [l], []⟩
  | polygon rings => ⟨[], [], [rings]⟩
  | many _ members => memberParts members

/-- The points, lines and polygons of members. -/
def memberParts : List (Geometry Float) → Parts
  | [] => ⟨[], [], []⟩
  | g :: r =>
    let p := parts g
    let q := memberParts r
    ⟨p.points ++ q.points, p.lines ++ q.lines, p.polygons ++ q.polygons⟩

end

/-- The members as one geometry: alone, in a collection of their kind, or in a mixed one. -/
def gather (points lines polygons : List (Geometry Float)) : Geometry Float :=
  match polygons ++ lines ++ points with
  | [g] => g
  | all =>
    if lines.isEmpty && polygons.isEmpty then many .points all
    else if points.isEmpty && polygons.isEmpty then many .lines all
    else if points.isEmpty && lines.isEmpty then many .polygons all
    else many .mixed all

/-- The region of a polygon inside a box. -/
def polygonIn (box : Box Float) (rings : List (Line Float)) : Region :=
  let outlines := rings.map fun r => Segment.ofSpots (Clip.spotsOf r)
  Region.overlay (box.sides :: outlines) fun
    | inBox :: inShell :: inHoles => inBox && inShell && !inHoles.any id
    | _ => false

/-- The part of a geometry inside a closed box. -/
def clip (g : Geometry Float) (box : Box Float) : Geometry Float :=
  let p := g.parts
  let regions := p.polygons.map fun rings => (rings, polygonIn box rings)
  let patches := regions.flatMap fun (_, r) => r.patches
  let outlines := (regions.filter fun (_, r) => r.isEmpty).flatMap (·.1)
  let rest := Clip.rest (p.lines ++ outlines) box
  let points := (p.points.filter box.contains).map fun q => (⟨q.x, q.y, none⟩ : Point Float)
  let touched := rest.touched.map Spot.toPoint
  gather ((points ++ touched).map fun q => point (some q))
    ((rest.pieces.filterMap Clip.toLine?).map line) (patches.map Patch.toGeometry)

/-- Whether a geometry and a closed box have a position in common. -/
def meets (g : Geometry Float) (box : Box Float) : Bool :=
  let p := g.parts
  p.points.any box.contains || p.lines.any box.meetsLine || p.polygons.any fun rings =>
    rings.any box.meetsLine || !(polygonIn box rings).isEmpty

/-- The smallest box around a geometry. -/
def bounds? (g : Geometry Float) : Option (Box Float) := Box.around? g.points

end Geometry
end BorderTiles
