import BorderTiles.Feature
import BorderTiles.Mercator
import BorderTiles.Plane.Kernel
import BorderTiles.Zooms

/-!
# Tile — Assign

Cutting features into tiles.  A feature is looked for in the tiles between those of the two corners of
its box; it is put into each whose box, grown by the feature's buffer, it meets, with the part of its
geometry inside that box.  `assign` lists the tiles in the order they were first needed and the
features of a tile in their own order.
-/

namespace BorderTiles.Tile
variable {α ρ : Type} [Mercator α]

/-- The features of each tile. -/
abbrev Sheet (α : Type) := Table (Int × Int) (List (Feature α))

/-- The tiles of a zoom between those of the corners of a box. -/
def tilesAround (box : Box α) (zoom : Int) : Except Fault (List (Int × Int)) := do
  let (x₁, y₁) ← Mercator.tileOf box.minY box.minX (.whole zoom)
  let (x₂, y₂) ← Mercator.tileOf box.maxY box.maxX (.whole zoom)
  return (Zooms.upTo (min x₁ x₂) (max x₁ x₂)).flatMap fun x =>
    (Zooms.upTo (min y₁ y₂) (max y₁ y₂)).map fun y => (x, y)

/-- The part of a feature in a tile, if it has any. -/
def partIn? (k : Kernel α ρ) (f : Feature α) (g : Geometry α) (zoom : Int) (tile : Int × Int) :
    Except Fault (Option (Feature α)) := do
  let box ← Mercator.tileBox tile.1 tile.2 (.whole zoom) f.buffer
  if !k.meets g box then return none
  let clipped := k.clip g box
  return if clipped.isEmpty then none else some { f with geometry := some clipped }

/-- The parts of a feature at a zoom, with their tiles. -/
def partsOf (k : Kernel α ρ) (zoom : Int) (f : Feature α) :
    Except Fault (List ((Int × Int) × Feature α)) :=
  if zoom < f.minZoom || f.maxZoom < zoom then .ok []
  else
    match f.geometry with
    | none => .ok []
    | some g =>
      if g.isEmpty then .ok []
      else
        match k.bounds g with
        | none => .ok []
        | some box => do
          let tiles ← tilesAround box zoom
          let parts ← tiles.mapM fun tile => do
            return (← partIn? k f g zoom tile).map (tile, ·)
          return parts.filterMap id

/-- The features of all tiles of a zoom. -/
def assign (k : Kernel α ρ) (features : List (Feature α)) (zoom : Int) : Except Fault (Sheet α) := do
  let parts ← features.mapM (partsOf k zoom)
  return parts.flatten.foldl (fun sheet (tile, f) => sheet.append tile f) ∅

end BorderTiles.Tile
