import BorderTiles.Number.Basic
import BorderTiles.Number.Fixed

/-!
# Duration

A time span as text: seconds with two decimals, with the full minutes and hours before them once there
are any.
-/

namespace BorderTiles.Duration

/-- Full periods of `d` seconds in `x`, and what is left of `x`, which is exact. -/
def split (x d : Float) : Float × Float :=
  match Number.Binary.ofFloat? x, Number.Binary.ofFloat? d with
  | some b, some c =>
    let left := Number.ofRat (b.toRat - c.toRat * (b.toRat / c.toRat).floor)
    let periods := (x - left) / d
    let whole := periods.floor
    (if 0.5 < periods - whole then whole + 1 else whole, left)
  | _, _ => (0.0 / 0.0, 0.0 / 0.0)

/-- A time span of at least a minute in binary seconds. -/
def long (x : Float) : Except Fault String := do
  let (minutes, seconds) := split x 60
  if x < 3600 then
    return s!"{← Number.truncate minutes}m " ++ Number.fixed 2 seconds ++ "s"
  let (hours, rest) := split x 3600
  let hours ← Number.truncate hours
  let minutes ← Number.truncate (split rest 60).1
  return s!"{hours}h {minutes}m " ++ Number.fixed 2 seconds ++ "s"

/-- A time span of at least a minute in whole seconds. -/
def longWhole (n : Int) : String :=
  let seconds := Number.placed 2 ((n % 60).toNat * 100) ++ "s"
  if n < 3600 then s!"{n / 60}m " ++ seconds
  else s!"{n / 3600}h {n % 3600 / 60}m " ++ seconds

/-- A time span given in seconds. -/
def text : Number → Except Fault String
  | .whole n => do
    if n < 60 then return Number.fixed 2 (← (Number.whole n).toFloat) ++ "s"
    return longWhole n
  | .binary x => if x < 60 then .ok (Number.fixed 2 x ++ "s") else long x

end BorderTiles.Duration
