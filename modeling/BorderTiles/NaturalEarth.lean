import BorderTiles.Document.Reading
import BorderTiles.Feature
import BorderTiles.Logged

/-!
# NaturalEarth

Generalised borders for the low zooms.  Each supported table has a fixed level and fixed zooms
(`coverage?`); `readSource` goes through the supported tables in their order and draws every record that
has a geometry and is covered.  Names of properties are compared in lower case.
-/

namespace BorderTiles.NaturalEarth
variable {α : Type}

/-- A record of a table. -/
structure Record (α : Type) where
  /-- The geometry, if there is one, or why it is refused. -/
  geometry : Except Fault (Option (Geometry α))
  properties : List (String × Value)

/-- The supported tables. -/
def tables : List String :=
  ["ne_110m_admin_0_boundary_lines_land", "ne_50m_admin_0_boundary_lines_land",
    "ne_10m_admin_0_boundary_lines_land", "ne_10m_admin_1_states_provinces_lines"]

/-- The level of a record and the zooms it is drawn at. -/
structure Coverage where
  level : Int
  minZoom : Int
  maxZoom : Int
  deriving DecidableEq, Repr

/-- The value of a property, the last one of a name. -/
def property? (properties : List (String × Value)) (name : String) : Option Value :=
  Value.field? (.object properties) name

/-- Whether a record of states and provinces is important enough. -/
def isMajor (properties : List (String × Value)) : Except Fault Bool := do
  let zoom ← ((property? properties "min_zoom").getD .null).toBinary?
  return zoom.any (· <= 7)

/-- The coverage of a record of a table, if it is drawn. -/
def coverage? (table : String) (properties : List (String × Value)) :
    Except Fault (Option Coverage) :=
  match table with
  | "ne_110m_admin_0_boundary_lines_land" => .ok (some ⟨2, 0, 0⟩)
  | "ne_50m_admin_0_boundary_lines_land" => .ok (some ⟨2, 1, 3⟩)
  | "ne_10m_admin_0_boundary_lines_land" =>
    match property? properties "featurecla" with
    | some (.text "Lease Limit") => .ok none
    | _ => .ok (some ⟨2, 4, 4⟩)
  | "ne_10m_admin_1_states_provinces_lines" => do
    return if ← isMajor properties then some ⟨4, 1, 4⟩ else none
  | _ => .ok none

/-- Whether a record is of a disputed border.  The text of its class says so, if there is one. -/
def isDisputed (properties : List (String × Value)) : Except Fault Bool := do
  let text ← ((property? properties "featurecla").getD .null).spelled
  return text.startsWith "Disputed"

/-- The border that is drawn of a covered record. -/
def Coverage.border (c : Coverage) (disputed : Bool) (geometry : Option (Geometry α)) : Feature α :=
  let attrs := setAttr ∅ "admin_level" (.whole c.level)
  let attrs := setAttr attrs "maritime" (Feature.flag false)
  let attrs := setAttr attrs "disputed" (Feature.flag disputed)
  { layer := Feature.layerName
    geometry, attrs
    minZoom := c.minZoom
    maxZoom := c.maxZoom
    buffer := Feature.borderBuffer
    id := none }

/-- The feature of a record with a geometry, if it is drawn. -/
def feature? (table : String) (properties : List (String × Value)) (geometry : Option (Geometry α)) :
    Except Fault (Option (Feature α)) := do
  match ← coverage? table properties with
  | none => return none
  | some c => return some (c.border (← isDisputed properties) geometry)

/-- A name in lower case.  Only `A` to `Z` change.  The other letter whose lower case is among `a` to `z`
is the Kelvin sign, and no name that is looked for holds a `k`. -/
def lower (name : String) : String := String.ofList (name.toList.map Char.toLower)

/-- Properties with their names in lower case. -/
def lowered (properties : List (String × Value)) : List (String × Value) :=
  properties.map fun (name, v) => (lower name, v)

/-- The feature of a record of a table, if it is drawn. -/
def Record.feature? (table : String) (r : Record α) : Except Fault (Option (Feature α)) := do
  match ← r.geometry with
  | none => return none
  | some g => NaturalEarth.feature? table (lowered r.properties) (some g)

/-- What has been read: the features that are drawn, and their number. -/
structure Reading (α : Type) where
  drawn : List (Feature α)
  count : Nat

/-- A record is read. -/
def Reading.enter (table : String) (so : Reading α) (r : Record α) : Except Fault (Reading α) := do
  match ← r.feature? table with
  | none => return so
  | some f => return ⟨so.drawn ++ [f], so.count + 1⟩

/-- The records of a table are read. -/
def Reading.enterTable (so : Reading α) : String × List (Record α) → Logged α (Reading α)
  | (table, records) => do
    let so ← .ofExcept (records.foldlM (Reading.enter table) so)
    .note (.tableRead table so.count)
    return so

/-- The features of present tables, `count` features having been drawn before. -/
def readTables (count : Nat) (present : List (String × List (Record α))) :
    Logged α (List (Feature α)) := do
  return (← present.foldlM Reading.enterTable ⟨[], count⟩).drawn

/-- The supported tables that a source has, in their own order. -/
def present (source : List (String × List (Record α))) : List (String × List (Record α)) :=
  tables.filterMap fun t => source.find? (·.1 == t)

/-- The supported tables that a source lacks. -/
def missing (source : List (String × List (Record α))) : List String :=
  tables.filter fun t => !source.any (·.1 == t)

/-- The features of a source, and their number. -/
def readSource (path : String) (source : List (String × List (Record α))) : Logged α (Reading α) := do
  if !(missing source).isEmpty then .note (.tablesMissing path (missing source))
  (present source).foldlM Reading.enterTable ⟨[], 0⟩

/-- The features of a source. -/
def read (path : String) (source : List (String × List (Record α))) : Logged α (List (Feature α)) := do
  return (← readSource path source).drawn

end BorderTiles.NaturalEarth
