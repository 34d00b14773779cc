import BorderTiles.Plane.Network
import BorderTiles.Plane.Segment

/-!
# Plane — Faces

The faces that a network of lines encloses.  Arcs that lead to a free end are removed until none is
left, then those with the same ring on both sides.  What is left is cut into rings, each of which
follows the next arc at every node; a ring that comes to a node more than once is cut there.  Rings
that meet themselves are dropped.  A clockwise ring is the outline of a face; a counter-clockwise one
encloses a connected part of the network and is a hole of the smallest face around it.
-/

namespace BorderTiles

/-- The outline of a face and its holes, each a closed list of edges. -/
structure Face where
  shell : List Segment
  holes : List (List Segment)

namespace Network

/-- A set of arcs by number. -/
abbrev ArcSet := Array Bool

/-- Whether an arc is in a set. -/
def isIn (i : Nat) (s : ArcSet) : Bool := s.getD i false

/-- A set without an arc and its twin. -/
def without (s : ArcSet) (i : Nat) : ArcSet :=
  (s.setIfInBounds i false).setIfInBounds (Arc.twin i) false

/-- The arcs of a set that do not lead to or from a free end, at most `fuel` rounds of removal being
made. -/
def prune (g : Network) : (fuel : Nat) → ArcSet → ArcSet
  | 0, live => live
  | fuel + 1, live =>
    let free := g.leaving.toList.filterMap fun out =>
      match out.filter (isIn · live) with
      | [i] => some i
      | _ => none
    if free.isEmpty then live else prune g fuel (free.foldl without live)

/-- The arc that each arc is followed by along a ring: the next one, counter-clockwise, behind its
twin. -/
def successors (g : Network) (live : ArcSet) : Array Nat :=
  g.leaving.foldl (fun next out =>
    let out := out.filter (isIn · live)
    match out with
    | [] => next
    | first :: more =>
      (out.zip (more ++ [first])).foldl (fun next (i, j) =>
        next.setIfInBounds (Arc.twin i) j) next) (Array.range g.arcs.size)

/-- The arcs met from `i` on until the walk comes back to `start`. -/
def ringFrom (next : Array Nat) (start : Nat) : (fuel i : Nat) → List Nat
  | 0, i => [i]
  | fuel + 1, i =>
    let j := next.getD i start
    if j = start then [i] else i :: ringFrom next start fuel j

/-- The rings of the live arcs. -/
def rings (g : Network) (live : ArcSet) (next : Array Nat) : List (List Nat) :=
  let step (state : ArcSet × List (List Nat)) (i : Nat) : ArcSet × List (List Nat) :=
    let (left, found) := state
    if isIn i left then
      let ring := ringFrom next i g.arcs.size i
      (ring.foldl (fun s j => s.setIfInBounds j false) left, ring :: found)
    else state
  ((List.range g.arcs.size).foldl step (live, [])).2.reverse

/-- The number of the ring that each arc is on. -/
def labels (g : Network) (rings : List (List Nat)) : Array (Option Nat) :=
  rings.zipIdx.foldl (fun found (ring, n) =>
    ring.foldl (fun found i => found.setIfInBounds i (some n)) found)
    (Array.replicate g.arcs.size none)

/-- The arcs that have different rings on their two sides. -/
def uncut (live : ArcSet) (label : Array (Option Nat)) : ArcSet :=
  live.mapIdx fun i alive => alive && label.getD i none ≠ label.getD (Arc.twin i) none

/-- What is remembered on the way around a node: the successors so far, the incoming arc that waits for
one, and the first outgoing arc. -/
structure Turnstile where
  next : Array Nat
  waiting : Option Nat
  first : Option Nat

/-- The successors with the passages of one ring through a node parted from each other. -/
def part (label : Array (Option Nat)) (ring : Nat) (out : List Nat) (next : Array Nat) : Array Nat :=
  let step (t : Turnstile) (i : Nat) : Turnstile :=
    let waiting :=
      if label.getD (Arc.twin i) none = some ring then some (Arc.twin i) else t.waiting
    if label.getD i none = some ring then
      { next := waiting.elim t.next (t.next.setIfInBounds · i)
        waiting := none
        first := t.first <|> some i }
    else { t with waiting }
  let t := out.reverse.foldl step ⟨next, none, none⟩
  match t.waiting, t.first with
  | some i, some j => t.next.setIfInBounds i j
  | _, _ => t.next

/-- The successors with every ring cut at the nodes it comes to more than once. -/
def partAll (g : Network) (label : Array (Option Nat)) (next : Array Nat) : Array Nat :=
  g.leaving.foldl (fun next out =>
    let met := out.filterMap fun i => label.getD i none
    let repeated := met.eraseDups.filter fun n => 1 < met.count n
    repeated.foldl (fun next ring => part label ring out next) next) next

/-- The closed edges along a ring of arcs. -/
def ringEdges (g : Network) (ring : List Nat) : List Segment :=
  Segment.ofSpots ((g.pointsAlong ring).map Spot.ofPoint)

/-- Whether closed edges enclose one area without meeting themselves elsewhere than at the common end
of neighbours. -/
def isSimple (edges : List Segment) : Bool :=
  let last := edges.length - 1
  2 < edges.length && edges.zipIdx.all fun (s, i) =>
    (edges.zipIdx.drop (i + 1)).all fun (t, j) =>
      let meeting := s.meeting t
      if j = i + 1 || (i = 0 && j = last) then meeting.length ≤ 1 else meeting.isEmpty

/-- Whether a closed outline lies in another: its first corner off the other decides. -/
def liesIn (inner outer : List Segment) : Bool :=
  match inner.find? fun s => !outer.any (·.holds s.a) with
  | some s => Segment.insideParity outer s.a
  | none => false

/-- The faces that lines enclose. -/
def faces (g : Network) : List Face :=
  let all : ArcSet := Array.replicate g.arcs.size true
  let pruned := g.prune g.arcs.size all
  let live := uncut pruned (g.labels (g.rings pruned (g.successors pruned)))
  let next := g.successors live
  let next := g.partAll (g.labels (g.rings live next)) next
  let outlines := ((g.rings live next).map g.ringEdges).filter isSimple
  let shells := outlines.filter (Segment.doubledArea · < 0)
  let holes := outlines.filter (0 < Segment.doubledArea ·)
  let smallest (hole : List Segment) : Option Nat :=
    let around := shells.zipIdx.filter fun (shell, _) => liesIn hole shell
    (around.mergeSort fun s t =>
      Segment.doubledArea t.1 ≤ Segment.doubledArea s.1).head?.map (·.2)
  shells.zipIdx.map fun (shell, n) => ⟨shell, holes.filter (smallest · == some n)⟩

end Network
end BorderTiles
