import BorderTiles.Plane.Point

/-!
# Mercator

The map projection and its tiles.  The world is the unit square: `x` grows eastward from the
antimeridian, `y` southward from the northern limit of the map to the southern one.  A `Mercator`
scalar has the two maps between a latitude and its `y`; everything else follows from them:
`toWorld` and `toDegrees`, the tile that a position falls into (`tileOf`), and the box of a tile in
degrees (`tileBox`).  At zoom `z` the square is cut into `2 ^ z` tiles each way.
-/

namespace BorderTiles

/-- Scalars with the two maps of the projection. -/
class Mercator (α : Type) extends Scalar α where
  /-- The northern limit of the map, in degrees; the southern one is its negative. -/
  limit : α
  /-- The `y` of a latitude within the limits. -/
  depth : α → α
  /-- The latitude of a `y`. -/
  latitude : α → Except Fault α

namespace Mercator
variable {α : Type} [Mercator α]
open Scalar

/-- The pixels along the side of a tile. -/
def tileSize : Nat := 256

/-- A latitude moved into the limits of the map; NaN goes to the northern one. -/
def clamp (lat : α) : α := greatest (-limit) (least limit lat)

/-- The `x` of a longitude. -/
def easting (lon : α) : α := (lon + ofNat 180) / ofNat 360

/-- The place of a longitude and latitude in the world square. -/
def toWorld (lon lat : α) : α × α := (easting lon, depth (clamp lat))

/-- The longitude and latitude of a place in the world square. -/
def ofWorld (x y : α) : Except Fault (α × α) := do
  let lat ← latitude y
  return (x * ofNat 360 - ofNat 180, lat)

/-- An index moved into `0 … last`, the start winning over the end. -/
def clampIndex (last i : Int) : Int := max 0 (min last i)

/-- The tile, at a zoom, of a longitude and latitude. -/
def tileOf (lat lon : α) (zoom : Number) : Except Fault (Int × Int) := do
  let n : α ← twoPow zoom
  let (wx, wy) := toWorld lon lat
  let x ← truncate (wx * n)
  let y ← truncate (wy * n)
  let last := (← truncate n) - 1
  return (clampIndex last x, clampIndex last y)

/-- The box of a tile in degrees, grown on every side by a margin in pixels, but not beyond the map in
the south and north. -/
def tileBox (x y : Int) (zoom margin : Number) : Except Fault (Box α) := do
  let n : α ← twoPow zoom
  let margin := (← ofNumber margin) / ofNat tileSize
  let left ← divide ((← ofWhole x) - margin) n
  let top ← divide ((← ofWhole y) - margin) n
  let (lonMin, latMax) ← ofWorld left (greatest (ofNat 0) top)
  let right ← divide ((← ofWhole (x + 1)) + margin) n
  let bottom ← divide ((← ofWhole (y + 1)) + margin) n
  let (lonMax, latMin) ← ofWorld right (least (ofNat 1) bottom)
  return ⟨lonMin, latMin, lonMax, latMax⟩

/-- The degrees of longitude along the side of a pixel. -/
def degreesPerPixel (zoom : Number) : Except Fault α := do
  let n : α ← twoPow zoom
  divide (ofNat 360) (ofNat tileSize * n)

end Mercator

/-- The circle's circumference over its diameter. -/
def circleRatio : Float := 3.141592653589793

instance : Mercator Float where
  limit := 85.0511287798066
  depth lat :=
    let r := lat * (circleRatio / 180)
    (1 - (r.tan + 1 / r.cos).log / circleRatio) / 2
  latitude y :=
    let t := circleRatio * (1 - 2 * y)
    let s := t.sinh
    if s.isInf && t.isFinite then .error .curveRange
    else .ok (s.atan * (180 / circleRatio))

namespace Line
variable {α : Type} [Mercator α]

/-- The two numbers of a position. -/
def pair : List α → Except Fault (α × α)
  | [lon, lat] => .ok (lon, lat)
  | position => .error (if position.length < 2 then .shortPosition position.length else .longPosition)

/-- The line, in the world square, through positions given by longitude and latitude.  Positions that
fall together with the one before are left out. -/
def ofDegrees (positions : List (List α)) : Except Fault (Line α) := do
  let points ← positions.mapM fun position => do
    let (lon, lat) ← pair position
    let (x, y) := Mercator.toWorld lon lat
    return (⟨x, y, none⟩ : Point α)
  let kept := dropRepeats Point.same points
  if kept.length < 2 then throw (.indistinct kept.length)
  return kept

/-- A line of the world square in degrees.  Points with a height are refused. -/
def toDegrees (l : Line α) : Except Fault (Line α) :=
  l.mapM fun p => do
    if p.height.isSome then throw .longPosition
    let (lon, lat) ← Mercator.ofWorld p.x p.y
    return ⟨lon, lat, none⟩

/-- The middle of the segment found at `ratio` of the points, moved by `offset` at a right angle: to
the right of the direction of travel, `y` growing southward, or to the left if negative.  On a segment
without length there is no direction and the middle stays. -/
def sample (l : Line α) (ratio offset : α) : Except Fault (Point α) := do
  let found ← Scalar.truncate (Scalar.ofNat l.length * ratio)
  let i := (max 0 (min ((l.length : Int) - 2) found)).toNat
  match l[i]?, l[i + 1]? with
  | some p, some q =>
    let dx := q.x - p.x
    let dy := q.y - p.y
    let midX := p.x + dx / Scalar.ofNat 2
    let midY := p.y + dy / Scalar.ofNat 2
    let length := Scalar.hypotenuse dx dy
    if Scalar.eq offset (Scalar.ofNat 0) || Scalar.eq length (Scalar.ofNat 0) then
      return ⟨midX, midY, none⟩
    else
      return ⟨midX - offset * dy / length, midY + offset * dx / length, none⟩
  | _, _ => throw .emptyLine

end Line
end BorderTiles
