import BorderTiles.Document.Printer
import BorderTiles.Duration
import BorderTiles.Extract.Document
import BorderTiles.NaturalEarth.Document
import BorderTiles.Run

/-!
# Main

The program: it finds the files that the command line names, runs, writes each tile to
`zoom/column/row.geojson` below the output directory, and prints the reports.
-/

namespace BorderTiles.Program

/-- How the program is called. -/
def usage : String :=
  "usage: bordertiles [-h] [--config FILE] [--natural-earth FILE] [--zoom ZOOM] [--threads N]\n"
    ++ "                   [--batch-size N] [--no-country-names] [--verbose] input output\n"

/-- The text of a file, if it can be read. -/
def textOf (path : String) : IO (Option String) := do
  try return some (← IO.FS.readFile path) catch _ => return none

/-- The document of a file, if it is one. -/
def documentOf (path : String) : IO (Option Value) := do
  return (← textOf path).bind fun text => (Value.parse text).toOption

/-- The files that a request names. -/
def filesOf (r : CommandLine.Request) : IO (Run.Files Float) := do
  let extract := (← documentOf r.input).bind Extract.ofDocument?
  let settings ← (Run.given r.config).elim (return none) textOf
  let general ← (Run.given r.naturalEarth).elim (return none) documentOf
  return {
    extract := fun path => if path = r.input then extract else none
    settings := fun path => if some path = r.config then settings else none
    generalised := fun path =>
      if some path = r.naturalEarth then general.map NaturalEarth.source else none }

/-- The document of a tile. -/
def tileDocument (lines : List (Tile.Drawn Float)) : Value :=
  GeoJson.collection (lines.map fun d => GeoJson.drawnLine d.id d.properties.entries d.line)

/-- The tiles are written below a directory. -/
def writeTiles (output : String) (tiles : Table Tile.Place (List (Tile.Drawn Float))) : IO Unit :=
  tiles.entries.forM fun (place, lines) => do
    IO.FS.createDirAll (Tile.Place.directory output place)
    IO.FS.writeFile (Tile.Place.path output place) (tileDocument lines).print

/-- The time since a moment, as a report. -/
def reportTime (start : Nat) : IO Unit := do
  let spent := ((← IO.monoMsNow) - start).toFloat / 1000
  match Duration.text (.binary spent) with
  | .ok text => IO.eprintln ("INFO Total processing time: " ++ text)
  | .error _ => return

/-- The run on the files of a request, with the exit status. -/
def serve (r : CommandLine.Request) : IO UInt32 := do
  let start ← IO.monoMsNow
  let outcome := Run.serve Kernel.exact (← filesOf r) r
  outcome.notices.forM fun notice => IO.eprintln notice.line
  match outcome.result with
  | .error fault =>
    IO.eprintln fault.message
    return 1
  | .ok finished =>
    writeTiles r.output finished.tiles
    if finished.status = 0 then reportTime start
    return finished.status.toUInt32

/-- The run of a command line, with the exit status. -/
def run (args : List String) : IO UInt32 := do
  match CommandLine.parse args with
  | .help =>
    IO.print usage
    return Run.helpStatus.toUInt32
  | .refused =>
    IO.eprint usage
    return Run.usageStatus.toUInt32
  | .request r => serve r

end BorderTiles.Program

/-- The program. -/
def main (args : List String) : IO UInt32 := BorderTiles.Program.run args
