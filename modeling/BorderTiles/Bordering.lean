import BorderTiles.IdSet
import BorderTiles.Logged
import BorderTiles.Mercator
import BorderTiles.Plane.Kernel
import BorderTiles.Table

/-!
# Bordering

Which countries lie on the two sides of a line.  Ten samples are taken along the line, each a point ten
metres to the right and one as far to the left.  At every sample each candidate votes for the right if
it contains the right point, else for the left if it contains the left one.  The right goes to the
candidate with most votes (`winner?`), the lowest id on a tie; the left in the same way, among the
votes of all others.
-/

namespace BorderTiles

/-- The countries on the two sides of a line. -/
structure Bordering where
  left : Option Int
  right : Option Int
  deriving DecidableEq, Repr

namespace Bordering

/-- Whether, by these votes, `a` comes before `b`: by more votes, or as many and the lower id. -/
def beats (votes : List Int) (a b : Int) : Bool :=
  votes.count b < votes.count a || (votes.count a == votes.count b && a < b)

/-- The id with most votes, the lowest one on a tie. -/
def winner? (votes : List Int) : Option Int :=
  votes.foldl (fun best a =>
    match best with
    | none => some a
    | some b => some (if beats votes a b then a else b)) none

variable {α ρ : Type} [Mercator α]

/-- The samples along a line. -/
def samples : Nat := 10

/-- The length of the equator in metres. -/
def equator : α := Scalar.ofNat 4007501668557849 / Scalar.ofNat 100000000

/-- The distance of the sampled points from the line: ten metres at the equator. -/
def sampleOffset : α := Scalar.ofNat 10 / equator

/-- The place of a sample along a line. -/
def sampleRatio (i : Nat) : α := Scalar.ofNat (i + 1) / Scalar.ofNat (samples + 2)

/-- The points to the right and left of a line at one sample. -/
def sidePoints (line : Line α) (i : Nat) : Except Fault (Point α × Point α) := do
  let right ← line.sample (sampleRatio i) sampleOffset
  let left ← line.sample (sampleRatio i) (-sampleOffset)
  return (right, left)

/-- The known areas of the given ids, in increasing order of the ids. -/
def candidates (regions : Table Int ρ) (ids : List Int) : List (Int × ρ) :=
  (ids.mergeSort (· ≤ ·)).filterMap fun id => (regions.get? id).map (id, ·)

/-- The candidates that contain the right point of a sample. -/
def rightVotes (inside : ρ → Point α → Bool) (known : List (Int × ρ))
    (points : List (Point α × Point α)) : List Int :=
  points.flatMap fun (right, _) => (known.filter fun (_, area) => inside area right).map (·.1)

/-- The candidates that contain the left point of a sample and not the right one. -/
def leftVotes (inside : ρ → Point α → Bool) (known : List (Int × ρ))
    (points : List (Point α × Point α)) : List Int :=
  points.flatMap fun (right, left) =>
    (known.filter fun (_, area) => !inside area right && inside area left).map (·.1)

/-- The outcome of the votes. -/
def ofVotes (right left : List Int) : Bordering :=
  let winner := winner? right
  ⟨winner? (left.filter fun id => some id ≠ winner), winner⟩

/-- The countries on the two sides of a line, among the given ids. -/
def ofLine (inside : ρ → Point α → Bool) (regions : Table Int ρ) (ids : List Int) (line : Line α) :
    Logged α Bordering := do
  let known := candidates regions ids
  if known.isEmpty then return ⟨none, none⟩
  let points ← .ofExcept ((List.range samples).mapM (sidePoints line))
  let found := ofVotes (rightVotes inside known points) (leftVotes inside known points)
  if found.left.isNone && found.right.isNone then
    let middle ← .ofExcept (line.sample (Scalar.ofNat 1 / Scalar.ofNat 2) (Scalar.ofNat 0))
    let (lon, lat) ← .ofExcept (Mercator.ofWorld middle.x middle.y)
    .note (.noSide (known.map (·.1)) lat lon)
  return found

end Bordering
end BorderTiles
