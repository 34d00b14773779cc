import BorderTiles.Plane.Spot

/-!
# Plane — Segment

Straight segments between exact positions.  `Segment.meeting` lists where two segments meet: nowhere,
at one position, or along a stretch that is given by its two ends.  `Segment.insideParity` counts the
crossings of a ray, which tells the inside of closed edges from the outside.
-/

namespace BorderTiles

/-- A directed segment. -/
structure Segment where
  a : Spot
  b : Spot
  deriving DecidableEq, Repr

namespace Segment

instance : Inhabited Segment := ⟨⟨default, default⟩⟩

/-- The segments between consecutive positions. -/
def ofSpots : List Spot → List Segment
  | a :: b :: r => ⟨a, b⟩ :: ofSpots (b :: r)
  | _ => []

/-- The same segment in the other direction. -/
def reverse (s : Segment) : Segment := ⟨s.b, s.a⟩

/-- The segment directed from its lesser end. -/
def ordered (s : Segment) : Segment := if s.a.le s.b then s else s.reverse

/-- Whether a number lies before both ends of a stretch. -/
def precedes (a c d : Rat) : Bool := a < c && a < d

/-- Whether the stretches between `a` and `b` and between `c` and `d` have a number in common. -/
def stretchesMeet (a b c d : Rat) : Bool :=
  !((precedes a c d && precedes b c d) || (precedes c a b && precedes d a b))

/-- Whether the boxes around two segments have a position in common. -/
def near (s t : Segment) : Bool :=
  stretchesMeet s.a.x s.b.x t.a.x t.b.x && stretchesMeet s.a.y s.b.y t.a.y t.b.y

/-- Whether a position lies on the segment. -/
def holds (s : Segment) (p : Spot) : Bool :=
  near s ⟨p, p⟩ && Spot.turn s.a s.b p == 0

/-- Where two segments meet; of a common stretch its ends. -/
def meeting (s t : Segment) : List Spot :=
  if !near s t then []
  else
    let touching := [s.a, s.b].filter t.holds ++ [t.a, t.b].filter s.holds
    if touching.isEmpty then
      let d := Spot.turn t.a t.b s.a
      let e := Spot.turn t.a t.b s.b
      let f := Spot.turn s.a s.b t.a
      let g := Spot.turn s.a s.b t.b
      if (0 < d) ≠ (0 < e) ∧ (0 < f) ≠ (0 < g) then
        let k := d / (d - e)
        [⟨s.a.x + k * (s.b.x - s.a.x), s.a.y + k * (s.b.y - s.a.y)⟩]
      else []
    else touching.eraseDups

/-- Whether the ray from `p` in the positive `x` direction crosses the segment; its lower end counts
as part of it and its upper end does not. -/
def crossedFrom (p : Spot) (s : Segment) : Bool :=
  if s.a.y ≤ p.y then p.y < s.b.y && 0 < Spot.turn s.a s.b p
  else s.b.y ≤ p.y && Spot.turn s.a s.b p < 0

/-- Whether a position off the closed edges is inside them. -/
def insideParity (edges : List Segment) (p : Spot) : Bool :=
  edges.countP (crossedFrom p) % 2 = 1

/-- Twice the signed area that closed edges enclose, positive if they run counter-clockwise. -/
def doubledArea (edges : List Segment) : Rat :=
  edges.foldl (fun sum s => sum + (s.a.x * s.b.y - s.b.x * s.a.y)) 0

/-- The pieces of a segment between the given positions on it, in its direction. -/
def splitAt (s : Segment) (cuts : List Spot) : List Segment :=
  let spots := (s.a :: s.b :: cuts).eraseDups.mergeSort Spot.le
  ofSpots (if s.a.le s.b then spots else spots.reverse)

end Segment
end BorderTiles
