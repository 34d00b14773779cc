import BorderTiles.Plane.Faces
import BorderTiles.Plane.Geometry

/-!
# Plane — Region

Areas of the plane.  A `Region` is given by its boundary: edges that meet at their ends only and have
the region on their left and not on their right.  `Region.overlay` builds one from outlines and a rule
that says which combinations of them are covered: all edges are cut where they meet, and the ones with
the region on exactly one side are kept.  `Region.contains` holds strictly inside.
-/

namespace BorderTiles

/-- An area of the plane, by the edges of its boundary. -/
structure Region where
  edges : List Segment

/-- A polygon of a region: its outline and the outlines of its holes. -/
structure Patch where
  shell : List Segment
  holes : List (List Segment)

namespace Region

/-- Distinct segments, each in the direction from its lesser end. -/
def distinct (segments : List Segment) : List Segment :=
  let le (s t : Segment) : Bool := if s.a = t.a then s.b.le t.b else s.a.le t.a
  ((segments.map Segment.ordered).mergeSort le).splitBy (· == ·) |>.filterMap (·.head?)

/-- Segments cut where they meet each other, each stretch once. -/
def cutAll (segments : List Segment) : List Segment :=
  let segments := distinct segments
  distinct (segments.flatMap fun s => s.splitAt (segments.flatMap fun t =>
    if s = t then [] else s.meeting t))

/-- Whether an outline, counter-clockwise if `turnsLeft`, encloses the left and the right side of an edge
that it does not cross. -/
def sidesIn (outline : List Segment) (turnsLeft : Bool) (e : Segment) : Bool × Bool :=
  let m := Spot.middle e.a e.b
  match outline.find? (·.holds m) with
  | some s =>
    let sameWay : Bool := s.a.le s.b == e.a.le e.b
    (sameWay == turnsLeft, sameWay != turnsLeft)
  | none =>
    let inside := Segment.insideParity outline m
    (inside, inside)

/-- The region that a rule covers; it is asked with the outlines that enclose a place. -/
def overlay (outlines : List (List Segment)) (covered : List Bool → Bool) : Region :=
  let turned := outlines.map fun o => (o, decide (0 < Segment.doubledArea o))
  ⟨(cutAll outlines.flatten).filterMap fun e =>
    let sides := turned.map fun (outline, turnsLeft) => sidesIn outline turnsLeft e
    match covered (sides.map (·.1)), covered (sides.map (·.2)) with
    | true, false => some e
    | false, true => some e.reverse
    | _, _ => none⟩

/-- Whether the outlines of a face, given first in the list, enclose a place; also what is left of the
list. -/
def faceCovers (f : Face) (flags : List Bool) : Bool × List Bool :=
  let holes := (flags.drop 1).take f.holes.length
  (flags.headD false && !holes.any id, flags.drop (f.holes.length + 1))

/-- Whether one of the faces covers a place. -/
def anyCovers : List Face → List Bool → Bool
  | [], _ => false
  | f :: r, flags =>
    let (here, rest) := faceCovers f flags
    here || anyCovers r rest

/-- The union of faces. -/
def ofFaces (faces : List Face) : Region :=
  overlay (faces.flatMap fun f => f.shell :: f.holes) (anyCovers faces)

/-- Whether the region has no area. -/
def isEmpty (r : Region) : Bool := r.edges.isEmpty

/-- Whether a position is strictly inside. -/
def containsSpot (r : Region) (p : Spot) : Bool :=
  !r.edges.any (·.holds p) && Segment.insideParity r.edges p

/-- Whether a point is strictly inside. -/
def contains (r : Region) (p : Point Float) : Bool :=
  if p.x.isFinite && p.y.isFinite then r.containsSpot (.ofPoint p) else false

/-- The area. -/
def area (r : Region) : Rat := Segment.doubledArea r.edges / 2

/-- The smallest box around the region. -/
def bounds? (r : Region) : Option (Box Float) :=
  Box.around? (r.edges.map fun e => e.a.toPoint)

/-- The edge that follows `e` with the region on the left of both: the first one, clockwise, behind the
reverse of `e`. -/
def following (r : Region) (e : Segment) : Segment :=
  let out := (r.edges.filter (·.a = e.b)).mergeSort fun s t => !Spot.comesBefore e.b t.b s.b
  let behind := out.filter fun s => Spot.comesBefore e.b s.b e.a
  (behind.getLast? <|> out.getLast?).getD e

/-- The edges from `e` on until the walk comes back to `start`. -/
def walkFrom (r : Region) (start : Segment) : (fuel : Nat) → Segment → List Segment
  | 0, e => [e]
  | fuel + 1, e =>
    let f := r.following e
    if f = start then [e] else e :: walkFrom r start fuel f

/-- A closed walk cut into outlines that pass no position twice.  `path` is the part walked since the
last cut, the latest edge first. -/
def simpleLoops (path : List Segment) : List Segment → List (List Segment)
  | [] => []
  | e :: r =>
    let walked := e :: path
    if walked.any (·.a = e.b) then
      let loop := walked.takeWhile (·.a ≠ e.b) ++ (walked.find? (·.a = e.b)).toList
      loop.reverse :: simpleLoops (walked.drop loop.length) r
    else simpleLoops walked r

/-- The outlines of the region, with the region on their left. -/
def outlines (r : Region) : List (List Segment) :=
  let step (state : List Segment × List (List Segment)) (e : Segment) :
      List Segment × List (List Segment) :=
    let (walked, found) := state
    if walked.contains e then state
    else
      let loop := r.walkFrom e r.edges.length e
      (loop ++ walked, simpleLoops [] loop ++ found)
  (r.edges.foldl step ([], [])).2

/-- The polygons of the region. -/
def patches (r : Region) : List Patch :=
  let outlines := r.outlines
  let shells := outlines.filter (0 < Segment.doubledArea ·)
  let holes := outlines.filter (Segment.doubledArea · < 0)
  let smallest (hole : List Segment) : Option Nat :=
    let inside := hole.head?.map fun e => Spot.middle e.a e.b
    let around := shells.zipIdx.filter fun (shell, _) => inside.any (Segment.insideParity shell)
    (around.mergeSort fun s t =>
      Segment.doubledArea s.1 ≤ Segment.doubledArea t.1).head?.map (·.2)
  shells.zipIdx.map fun (shell, n) => ⟨shell, holes.filter (smallest · == some n)⟩

end Region

namespace Patch

/-- The area of a polygon. -/
def area (p : Patch) : Rat :=
  (p.holes.foldl (fun sum hole => sum + Segment.doubledArea hole) (Segment.doubledArea p.shell)) / 2

/-- A closed outline as a line. -/
def outlineLine (edges : List Segment) : Line Float :=
  edges.map (·.a.toPoint) ++ (edges.head?.map (·.a.toPoint)).toList

/-- The polygon as a geometry. -/
def toGeometry (p : Patch) : Geometry Float :=
  .polygon (outlineLine p.shell :: p.holes.map outlineLine)

end Patch

namespace Region

/-- The region enclosed by the rings that lines form when they are joined at their ends, if any ring
closes.  Lines through a position that is not a number, and rings through an infinite one, are
refused. -/
def ofLines? (lines : List (Line Float)) : Except Fault (Option Region) :=
  if lines.any (·.any fun p => p.x.isNaN || p.y.isNaN) then .error .unplacedOutline
  else
    let faces := (Network.ofLines lines).faces
    if faces.any (·.shell.any fun e => e.a.isFar) then .error .unplacedOutline
    else
      let region := ofFaces faces
      .ok (if region.isEmpty then none else some region)

end Region
end BorderTiles
