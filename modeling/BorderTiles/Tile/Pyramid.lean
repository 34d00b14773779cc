import BorderTiles.Logged
import BorderTiles.Tile.Assign
import BorderTiles.Tile.Content

/-!
# Tile — Pyramid

The tiles of several zooms.  A `Pyramid` has the content of each written tile by zoom, column and row,
and the number of tiles written.  `Pyramid.perform` writes one tile, the work of a `Job`; `Place.path`
is the file of a tile below a directory.
-/

namespace BorderTiles.Tile
variable {α ρ : Type} [Mercator α]

/-- The place of a tile: zoom, column and row. -/
abbrev Place := Int × Int × Int

/-- The directory of a tile below another one. -/
def Place.directory (output : String) (p : Place) : String :=
  output ++ "/" ++ toString p.1 ++ "/" ++ toString p.2.1

/-- The file of a tile below a directory. -/
def Place.path (output : String) (p : Place) : String :=
  directory output p ++ "/" ++ toString p.2.2 ++ ".geojson"

/-- The tiles written. -/
structure Pyramid (α : Type) where
  tiles : Table Place (List (Drawn α))
  written : Nat

/-- No tile. -/
def Pyramid.empty : Pyramid α := ⟨∅, 0⟩

/-- A tile to write, with the features in it. -/
structure Job (α : Type) where
  place : Place
  features : List (Feature α)

/-- The jobs of the tiles of a zoom. -/
def Sheet.jobs (sheet : Sheet α) (zoom : Int) : List (Job α) :=
  sheet.entries.map fun e => ⟨(zoom, e.1), e.2⟩

/-- What the tile of a job shows. -/
def Job.content (k : Kernel α ρ) (job : Job α) : Except Fault (List (Drawn α)) :=
  Tile.content (.ofKernel k) job.features job.place.1

/-- The pyramid with the tile of a job written. -/
def Pyramid.perform (k : Kernel α ρ) (p : Pyramid α) (job : Job α) : Except Fault (Pyramid α) := do
  let lines ← job.content k
  return ⟨p.tiles.put job.place lines, p.written + 1⟩

/-- The pyramid with the tiles of one zoom written. -/
def Pyramid.writeZoom (k : Kernel α ρ) (features : List (Feature α)) (p : Pyramid α) (zoom : Int) :
    Logged α (Pyramid α) := do
  let sheet ← .ofExcept (assign k features zoom)
  let p ← .ofExcept ((sheet.jobs zoom).foldlM (Pyramid.perform k) p)
  .note (.tilesWritten zoom sheet.size)
  return p

/-- The tiles of features at each of the zooms. -/
def Pyramid.write (k : Kernel α ρ) (features : List (Feature α)) (zooms : List Int) :
    Logged α (Pyramid α) :=
  zooms.foldlM (Pyramid.writeZoom k features) .empty

end BorderTiles.Tile
