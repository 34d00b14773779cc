import BorderTiles.Plane.Spot

/-!
# Plane — Network

The network of lines that meet at their ends.  Every line with at least two distinct consecutive
points gives two arcs, one each way, with consecutive numbers: the even one runs forward and the odd
one, its twin, backward.  The nodes are the ends of the lines, ordered by `x`, then `y`; `leaving`
lists the arcs of each node counter-clockwise from the positive `x` axis, equal directions in the
order of the lines.
-/

namespace BorderTiles

/-- A line walked in one direction. -/
structure Arc where
  points : List (Point Float)
  start : Spot
  /-- The position that tells the direction in which the arc leaves its start. -/
  toward : Spot

namespace Arc

instance : Inhabited Arc := ⟨⟨[], default, default⟩⟩

/-- The arc through points, if there are at least two. -/
def ofPoints? : List (Point Float) → Option Arc
  | p :: q :: r => some ⟨p :: q :: r, .ofPoint p, .ofPoint q⟩
  | _ => none

/-- The other direction of an arc. -/
def twin (i : Nat) : Nat := if i % 2 = 0 then i + 1 else i - 1

/-- Whether an arc runs in the direction of its line. -/
def isForward (i : Nat) : Bool := i % 2 = 0

end Arc

/-- Lines joined at their ends. -/
structure Network where
  arcs : Array Arc
  /-- The arcs that leave each node. -/
  leaving : Array (List Nat)
  /-- The node that each arc leaves. -/
  node : Array Nat

namespace Network

/-- The two arcs of a line, or none if it has no two distinct points. -/
def arcsOf (l : Line Float) : List Arc :=
  let points := dropRepeats Point.same l
  match Arc.ofPoints? points, Arc.ofPoints? points.reverse with
  | some forward, some backward => [forward, backward]
  | _, _ => []

/-- The network of lines. -/
def ofLines (lines : List (Line Float)) : Network :=
  let arcs := (lines.flatMap arcsOf).toArray
  let arc (i : Nat) : Arc := arcs.getD i default
  let byStart := (List.range arcs.size).mergeSort fun i j => (arc i).start.le (arc j).start
  let nodes := byStart.splitBy fun i j => (arc i).start == (arc j).start
  let leaving := nodes.map fun out =>
    out.mergeSort fun i j => !Spot.comesBefore (arc i).start (arc j).toward (arc i).toward
  let node := leaving.zipIdx.foldl (fun found (out, n) =>
    out.foldl (fun found i => found.setIfInBounds i n) found) (Array.replicate arcs.size 0)
  ⟨arcs, leaving.toArray, node⟩

/-- The arcs that leave the end of an arc. -/
def onward (g : Network) (i : Nat) : List Nat :=
  g.leaving.getD (g.node.getD (Arc.twin i) 0) []

/-- The points along arcs, without repeats. -/
def pointsAlong (g : Network) (arcs : List Nat) : List (Point Float) :=
  dropRepeats Point.same (arcs.flatMap fun i => (g.arcs.getD i default).points)

end Network
end BorderTiles
