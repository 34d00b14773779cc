import BorderTiles.Plane.Network

/-!
# Plane — Merge

Joining lines into longest lines.  Where exactly two line ends meet, the lines are joined; at any
other count of ends a line stops.  Strings of arcs are first followed from the nodes of another degree
than two, then around the rings that are left, each arc once in either direction.  A joined line takes
the direction of most of its parts, that of the walk on a tie.
-/

namespace BorderTiles.Network

/-- The arc that goes on behind `i`, if exactly two ends meet there. -/
def following? (g : Network) (i : Nat) : Option Nat :=
  match g.onward i with
  | [j, k] => some (if j = Arc.twin i then k else j)
  | _ => none

/-- The arcs walked from `i` on, until the walk stops or comes back to `start`. -/
def walk (g : Network) (start : Nat) : (fuel i : Nat) → List Nat
  | 0, i => [i]
  | fuel + 1, i =>
    match g.following? i with
    | some j => if j = start then [i] else i :: walk g start fuel j
    | none => [i]

/-- The line along a string of arcs. -/
def stringLine (g : Network) (arcs : List Nat) : Line Float :=
  let points := g.pointsAlong arcs
  if arcs.countP Arc.isForward < arcs.countP (!Arc.isForward ·) then points.reverse else points

/-- The strings of arcs of the network, in the order in which they are found. -/
def strings (g : Network) : List (List Nat) :=
  let ends := g.leaving.toList.filter (·.length ≠ 2)
  let rings := g.leaving.toList.filter (·.length = 2)
  let step (state : Array Bool × List (List Nat)) (i : Nat) : Array Bool × List (List Nat) :=
    let (used, found) := state
    if used.getD i true then state
    else
      let arcs := g.walk i g.arcs.size i
      let used := arcs.foldl (fun used j =>
        (used.setIfInBounds j true).setIfInBounds (Arc.twin j) true) used
      (used, arcs :: found)
  ((ends ++ rings).flatten.foldl step (Array.replicate g.arcs.size false, [])).2.reverse

end BorderTiles.Network

namespace BorderTiles.Line

/-- Lines joined where exactly two of their ends meet. -/
def merge (lines : List (Line Float)) : List (Line Float) :=
  let g := Network.ofLines lines
  g.strings.map g.stringLine

end BorderTiles.Line
