import BorderTiles.GeoJson
import BorderTiles.NaturalEarth

/-!
# NaturalEarth — Document

A source of generalised borders as a document: an object with the records of each table under its name.
A record is an object with a `geometry` and `properties`.
-/

namespace BorderTiles.NaturalEarth

/-- A record of a table. -/
def Record.ofDocument (v : Value) : Record Float where
  geometry := GeoJson.geometry? ((v.field? "geometry").getD .null)
  properties :=
    match v.field? "properties" with
    | some (.object fields) => fields
    | _ => []

/-- The tables of a document with their records. -/
def source : Value → List (String × List (Record Float))
  | .object fields => fields.filterMap fun (name, v) =>
    match v with
    | .list records => some (name, records.map Record.ofDocument)
    | _ => none
  | _ => []

end BorderTiles.NaturalEarth
