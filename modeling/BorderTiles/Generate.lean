import BorderTiles.Extract
import BorderTiles.NaturalEarth
import BorderTiles.Settings
import BorderTiles.Tile.Pyramid

/-!
# Generate

A whole run: generalised borders, then the borders of the extract, then the tiles.
-/

namespace BorderTiles.Generate
variable {α ρ : Type} [Mercator α]

/-- What a run reads. -/
structure Inputs (α : Type) where
  extract : Extract α
  /-- The path and the tables of a source of generalised borders. -/
  generalised : Option (String × List (String × List (NaturalEarth.Record α)))

/-- What a run gives. -/
structure Product (α : Type) where
  features : Nat
  zooms : List Int
  pyramid : Tile.Pyramid α

/-- The features of generalised borders. -/
def generalised (inputs : Inputs α) : Logged α (List (Feature α)) :=
  match inputs.generalised with
  | some (path, source) => NaturalEarth.read path source
  | none => .pure []

/-- The features of the run, those of generalised borders first. -/
def features (k : Kernel α ρ) (settings : Settings) (inputs : Inputs α) :
    Logged α (List (Feature α)) := do
  let names ← .ofExcept (settings.affirms "boundary_country_names")
  .note (.countryNames names)
  let general ← generalised inputs
  let _ ← .ofExcept settings.threads
  let size ← .ofExcept (settings.whole "batch_size")
  let entered := inputs.extract.enter (.new names general) size
  let _ ← (⟨entered.notices, entered.result⟩ : Logged α Nat)
  let finished := entered.layer.finish k
  let _ ← (⟨finished.notices, finished.result⟩ : Logged α Nat)
  return finished.layer.release.features

/-- The zoom levels that the text of the zooms names. -/
def levels (settings : Settings) : Except Fault (List Int) := do
  Zooms.parse (← settings.spelled "zoom")

/-- The run. -/
def run (k : Kernel α ρ) (settings : Settings) (inputs : Inputs α) : Logged α (Product α) := do
  let drawn ← features k settings inputs
  let zooms ← .ofExcept (levels settings)
  let _ ← .ofExcept (settings.whole "max_workers_tiles")
  let pyramid ← Tile.Pyramid.write k drawn zooms
  return ⟨drawn.length, zooms, pyramid⟩

end BorderTiles.Generate
