import BorderTiles.Plane.Clip
import BorderTiles.Plane.Merge
import BorderTiles.Plane.Simplify

/-!
# Plane — Kernel

What the rest of the library asks of plane geometry.  Everything above this module is written over an
arbitrary `Kernel`, so its statements hold of every geometry that keeps the promises they name;
`Kernel.exact` is the one that runs.  `Kernel.merge` asks the kernel only for lines that are not empty,
and keeps the lines of its answer.
-/

namespace BorderTiles

/-- The operations of plane geometry over scalars `α` and areas `ρ`. -/
structure Kernel (α ρ : Type) where
  /-- Lines joined at their ends to longest lines: one line, or the members of a collection. -/
  join : List (Line α) → Line α ⊕ List (Geometry α)
  /-- The area that lines enclose, if they do. -/
  outline : List (Line α) → Except Fault (Option ρ)
  /-- Whether a point is strictly inside an area. -/
  inside : ρ → Point α → Bool
  /-- The smallest box around a geometry. -/
  bounds : Geometry α → Option (Box α)
  /-- Whether a geometry has a position in common with a box. -/
  meets : Geometry α → Box α → Bool
  /-- The part of a geometry inside a box. -/
  clip : Geometry α → Box α → Geometry α
  /-- A line without the points that a tolerance lets go. -/
  simplify : α → Line α → Line α

namespace Kernel
variable {α ρ : Type}

/-- The lines that come of joining lines.  Empty lines are not joined, and other geometries than lines
are left out. -/
def merge (k : Kernel α ρ) (lines : List (Line α)) : List (Line α) :=
  let lines := lines.filter (!·.isEmpty)
  if lines.isEmpty then []
  else
    match k.join lines with
    | .inl line => if line.isEmpty then [] else [line]
    | .inr members => if Geometry.allEmpty members then [] else members.filterMap Geometry.line?

/-- Plane geometry with exact decisions on binary coordinates. -/
def exact : Kernel Float Region where
  join lines :=
    match Line.merge lines with
    | [line] => .inl line
    | joined => .inr (joined.map .line)
  outline := Region.ofLines?
  inside := Region.contains
  bounds := Geometry.bounds?
  meets := Geometry.meets
  clip := Geometry.clip
  simplify := Line.simplify

end Kernel
end BorderTiles
