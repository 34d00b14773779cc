import BorderTiles.Document.Value
import BorderTiles.Plane.Geometry

/-!
# GeoJson

Geometries and lines as documents.  `GeoJson.geometry` reads an object with a type name and the
coordinates that go with it, or with the members of a mixed collection; coordinates without a number
are the empty geometry of the type.  `GeoJson.drawnLine` writes one line with an id and properties, and
`GeoJson.collection` the lines of a whole document.
-/

namespace BorderTiles.GeoJson

mutual

/-- Whether coordinates hold no number. -/
def isVoid : Value → Bool
  | .null => true
  | .list items => allVoid items
  | _ => false

/-- Whether no item of a list holds a number. -/
def allVoid : List Value → Bool
  | [] => true
  | v :: r => isVoid v && allVoid r

end

/-- The items of a list. -/
def items : Value → Except Fault (List Value)
  | .list vs => .ok vs
  | _ => .error .notGeometry

/-- A number of a position. -/
def coordinate : Value → Except Fault Float
  | .number n => n.toFloat
  | _ => .error .notGeometry

/-- A position of two numbers, or of three with a height. -/
def position (v : Value) : Except Fault (Point Float) := do
  match ← (← items v).mapM coordinate with
  | [x, y] => return ⟨x, y, none⟩
  | [x, y, z] => return ⟨x, y, some z⟩
  | _ => throw .notGeometry

/-- A line through positions. -/
def line (v : Value) : Except Fault (Line Float) := do
  Line.ofPoints? (← (← items v).mapM position)

/-- A ring, closed if it is not. -/
def ring (v : Value) : Except Fault (Line Float) := do
  let points ← (← items v).mapM position
  match points, points.getLast? with
  | p :: _, some q =>
    let closed := if p.same q then points else points ++ [p]
    if closed.length < 4 then throw .shortRing
    return closed
  | _, _ => return []

/-- The rings of a polygon. -/
def polygon (v : Value) : Except Fault (Geometry Float) := do
  return .polygon (← (← items v).mapM ring)

/-- The empty geometry of a type. -/
def void? : String → Option (Geometry Float)
  | "Point" => some (.point none)
  | "LineString" => some (.line [])
  | "Polygon" => some (.polygon [])
  | "MultiPoint" => some (.many .points [])
  | "MultiLineString" => some (.many .lines [])
  | "MultiPolygon" => some (.many .polygons [])
  | _ => none

/-- The geometry of a type with coordinates. -/
def ofCoordinates (type : String) (v : Value) : Except Fault (Geometry Float) :=
  if isVoid v then ((void? type).elim (.error .notGeometry) .ok)
  else
    match type with
    | "Point" => do return .point (some (← position v))
    | "LineString" => do return .line (← line v)
    | "Polygon" => polygon v
    | "MultiPoint" => do return .many .points (← (← items v).mapM fun p => do
        return .point (some (← position p)))
    | "MultiLineString" => do return .many .lines (← (← items v).mapM fun l => do
        return .line (← line l))
    | "MultiPolygon" => do return .many .polygons (← (← items v).mapM polygon)
    | _ => .error .notGeometry

mutual

/-- The geometry of a document. -/
def geometry : Value → Except Fault (Geometry Float)
  | .object fields =>
    match (Value.object fields).field? "type" with
    | some (.text "GeometryCollection") => do return .many .mixed (← fieldMembers fields)
    | some (.text type) =>
      match (Value.object fields).field? "coordinates" with
      | some coordinates => ofCoordinates type coordinates
      | none => .error .notGeometry
    | _ => .error .notGeometry
  | _ => .error .notGeometry

/-- The members of a mixed collection, by its fields. -/
def fieldMembers : List (String × Value) → Except Fault (List (Geometry Float))
  | [] => .ok []
  | (name, v) :: rest => if name == "geometries" then listMembers v else fieldMembers rest

/-- The members of a mixed collection, by their list. -/
def listMembers : Value → Except Fault (List (Geometry Float))
  | .list vs => members vs
  | _ => .error .notGeometry

/-- Geometries one by one. -/
def members : List Value → Except Fault (List (Geometry Float))
  | [] => .ok []
  | v :: r => do return (← geometry v) :: (← members r)

end

/-- The geometry of a document, none for null. -/
def geometry? : Value → Except Fault (Option (Geometry Float))
  | .null => .ok none
  | v => (geometry v).map some

/-- A position as a list of two numbers. -/
def ofPoint (p : Point Float) : Value :=
  .list [.number (.binary p.x), .number (.binary p.y)]

/-- A line with its id and properties. -/
def drawnLine (id : Option Int) (properties : List (String × Value)) (l : Line Float) : Value :=
  .object [
    ("type", .text "Feature"),
    ("id", id.elim .null .whole),
    ("properties", .object properties),
    ("geometry", .object [
      ("type", .text "LineString"),
      ("coordinates", .list (l.map ofPoint))])]

/-- A document of drawn lines. -/
def collection (lines : List Value) : Value :=
  .object [("type", .text "FeatureCollection"), ("features", .list lines)]

end BorderTiles.GeoJson
