import BorderTiles.Fault
import BorderTiles.Number.Fixed
import BorderTiles.Plane.Point

/-!
# Notice

What a run reports while it works.  A `Notice` is one report as data, `Notice.text` its wording and
`Notice.level` its weight.
-/

namespace BorderTiles

/-- The weight of a report. -/
inductive Level where
  | info
  | warning
  | error
  deriving DecidableEq, Repr

/-- A report. -/
inductive Notice (α : Type) where
  | settingsLoaded (path : String)
  | invalidSettings (cause : Fault)
  | missingInput (path : String)
  | input (path : String)
  | output (path : String)
  | zoomLevels (text : String)
  | countryNames (wanted : Bool)
  | tablesMissing (path : String) (names : List String)
  | tableRead (name : String) (count : Nat)
  | relationsFound (count codes : Nat)
  | wayWithoutPlace (id : Int)
  | wayWithoutLine (id : Int) (cause : Fault)
  | waysProcessed (count skipped : Nat)
  | outliningRegions (count : Nat)
  | outlineRefused (id : Int) (cause : Fault)
  | outlineOpen (id : Int)
  | regionsOutlined (count : Nat)
  | noSide (regions : List Int) (lat lon : α)
  | groupsMerged (count : Nat)
  | tilesWritten (zoom : Int) (count : Nat)
  | totalFeatures (count : Nat)
  | totalTiles (count : Nat)
  | closingRule

namespace Notice

/-- The weight of a report. -/
def level {α : Type} : Notice α → Level
  | invalidSettings _ | missingInput _ => .error
  | tablesMissing .. | wayWithoutPlace _ | wayWithoutLine .. | outlineRefused .. | outlineOpen _
  | noSide .. => .warning
  | _ => .info

/-- Ids as text. -/
def idsText (ids : List Int) : String := "[" ++ ", ".intercalate (ids.map toString) ++ "]"

/-- The wording of a report. -/
def text : Notice Float → String
  | settingsLoaded path => s!"Loaded configuration from {path}"
  | invalidSettings cause => s!"Invalid configuration: {cause.message}"
  | missingInput path => s!"{path} does not exist"
  | input path => s!"Input: {path}"
  | output path => s!"Output: {path}"
  | zoomLevels text => s!"Zoom levels: {text}"
  | countryNames wanted =>
    "boundary_country_names=" ++ (if wanted then "True" else "False")
      ++ " (add left/right codes of neighboring countries)"
  | tablesMissing path names =>
    s!"Natural Earth tables not found in {path}: " ++ ", ".intercalate names
  | tableRead name count => s!"Natural Earth {name}: {count} boundary features so far"
  | relationsFound count codes => s!"Found {count} boundary relations, {codes} with country codes"
  | wayWithoutPlace id => s!"Way {id} has nodes without location, skipping"
  | wayWithoutLine id cause => s!"Cannot extract boundary line from way {id}: {cause.message}"
  | waysProcessed count skipped => s!"Processed {count} boundary ways ({skipped} skipped)"
  | outliningRegions count => s!"Creating polygons for {count} boundaries"
  | outlineRefused id cause =>
    s!"Unable to build boundary polygon for OSM relation {id}: {cause.message}"
  | outlineOpen id =>
    s!"Unable to form closed polygon for OSM relation {id} (likely missing edges)"
  | regionsOutlined count => s!"Finished creating {count} country polygons"
  | noSide regions lat lon =>
    "no left or right country for border between OSM country relations: " ++ idsText regions
      ++ " around " ++ Number.fixed 5 lat ++ ", " ++ Number.fixed 5 lon
  | groupsMerged count => s!"Merged {count} boundary groups"
  | tilesWritten zoom count => s!"Zoom {zoom}: {count} tiles"
  | totalFeatures count => s!"Total features: {count}"
  | totalTiles count => s!"Total tiles written: {count}"
  | closingRule => String.ofList (List.replicate 50 '=')

/-- A report as a line. -/
def line (n : Notice Float) : String :=
  (match n.level with
    | .info => "INFO "
    | .warning => "WARNING "
    | .error => "ERROR ") ++ n.text

end Notice
end BorderTiles
