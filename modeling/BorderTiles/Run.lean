import BorderTiles.CommandLine
import BorderTiles.Generate

/-!
# Run

The program from its command line on.  `Run.configure` puts the settings together and reads the zooms
once, so that a bad setting is reported before anything else is done; `Run.run` gives the exit status
and the tiles.
-/

namespace BorderTiles.Run
variable {α ρ : Type} [Mercator α]
open CommandLine (Request)

/-- The files that a run can find, by path. -/
structure Files (α : Type) where
  extract : String → Option (Extract α)
  settings : String → Option String
  generalised : String → Option (List (String × List (NaturalEarth.Record α)))

/-- What a run gives. -/
structure Outcome (α : Type) where
  status : Nat
  tiles : Table Tile.Place (List (Tile.Drawn α))

/-- The end of a run that writes nothing. -/
def Outcome.stop (status : Nat) : Outcome α := ⟨status, ∅⟩

/-- A path that is given and not empty. -/
def given (path : Option String) : Option String := path.filter (!·.isEmpty)

/-- The settings from the defaults or the file, before the options. -/
def baseSettings (files : Files α) (r : Request) : Logged α Settings :=
  match given r.config with
  | some path => Settings.load path (files.settings path)
  | none => .pure Settings.defaults

/-- The settings with the options of a request. -/
def withOptions (s : Settings) (r : Request) : Settings :=
  let s := s.set "zoom" (.ofText? r.zoom)
  let s := s.set "threads" (r.threads.elim .null .whole)
  let s := s.set "batch_size" (r.batchSize.elim .null .whole)
  if r.countryNames then s else s.set "boundary_country_names" (.bool false)

/-- The settings of a request, whose zooms can be read. -/
def configure (files : Files α) (r : Request) : Logged α Settings := do
  let base ← baseSettings files r
  let s := withOptions base r
  let _ ← .ofExcept (Generate.levels s)
  return s

/-- Whether a fault in the settings is reported; any other one ends the run. -/
def isReported (fault : Fault) : Bool :=
  match fault.kind with
  | .value | .document | .missing => true
  | _ => false

/-- The settings of a request, or nothing if a fault in them has been reported. -/
def configured (files : Files α) (r : Request) : Logged α (Option Settings) :=
  let s := configure files r
  match s.result with
  | .ok settings => ⟨s.notices, .ok (some settings)⟩
  | .error fault =>
    if isReported fault then ⟨s.notices ++ [.invalidSettings fault], .ok none⟩
    else ⟨s.notices, .error fault⟩

/-- What a run on an extract gives. -/
def produce (k : Kernel α ρ) (files : Files α) (r : Request) (s : Settings) (extract : Extract α) :
    Logged α (Outcome α) := do
  .note (.input r.input)
  .note (.output r.output)
  .note (.zoomLevels (← .ofExcept (s.spelled "zoom")))
  let generalised := (given r.naturalEarth).map fun path =>
    (path, (files.generalised path).getD [])
  let product ← Generate.run k s ⟨extract, generalised⟩
  .note (.totalFeatures product.features)
  .note (.totalTiles product.pyramid.written)
  .note .closingRule
  return ⟨0, product.pyramid.tiles⟩

/-- The run of a request. -/
def serve (k : Kernel α ρ) (files : Files α) (r : Request) : Logged α (Outcome α) := do
  match files.extract r.input with
  | none =>
    .note (.missingInput r.input)
    return .stop 1
  | some extract =>
    match ← configured files r with
    | none => return .stop 1
    | some s => produce k files r s extract

/-- The status after showing help. -/
def helpStatus : Nat := 0

/-- The status after a command line that is not understood. -/
def usageStatus : Nat := 2

/-- The run of a command line. -/
def run (k : Kernel α ρ) (files : Files α) (args : List String) : Logged α (Outcome α) :=
  match CommandLine.parse args with
  | .help => .pure (.stop helpStatus)
  | .refused => .pure (.stop usageStatus)
  | .request r => serve k files r

end BorderTiles.Run
