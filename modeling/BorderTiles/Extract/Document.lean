import BorderTiles.Extract
import BorderTiles.Document.Value
import Std.Data.HashMap

/-!
# Extract — Document

An extract as a document: an object with the lists `nodes`, `ways` and `relations`.  A node is a list of
its id, longitude and latitude; of several with one id the last counts, and one outside the map has no
place.  Ways and relations are objects; a member of a relation is a list of its type and id.  Whatever has
another form is left out by `Extract.ofDocument?`, which gives nothing at all if a list is missing.
-/

namespace BorderTiles

/-- The tags of an object, whose values are texts or null. -/
def Tags.ofDocument : Value → Tags
  | .object fields => .ofList (fields.map fun (name, v) =>
      (name, match v with
        | .text s => some s
        | _ => none))
  | _ => ∅

namespace Extract

/-- A whole number. -/
def whole? : Value → Option Int
  | .number (.whole n) => some n
  | _ => none

/-- The items of a list under a name. -/
def items? (v : Value) (name : String) : Option (List Value) :=
  match v.field? name with
  | some (.list items) => some items
  | _ => none

/-- The tags under `tags`. -/
def tagsOf (v : Value) : Tags := .ofDocument ((v.field? "tags").getD .null)

/-- The id under `id`. -/
def id? (v : Value) : Option Int := (v.field? "id").bind whole?

/-- A longitude and latitude on the map. -/
def onMap (lon lat : Float) : Option (Float × Float) :=
  if lon.abs ≤ 180 && lat.abs ≤ 90 then some (lon, lat) else none

/-- A node with its place. -/
def node? : Value → Option (Int × Option (Float × Float))
  | .list [.number (.whole id), .number lon, .number lat] =>
    match lon.toFloat, lat.toFloat with
    | .ok x, .ok y => some (id, onMap x y)
    | _, _ => some (id, none)
  | _ => none

/-- A way. -/
def path? (v : Value) : Option Path := do
  return ⟨← id? v, (← items? v "nodes").filterMap whole?, tagsOf v⟩

/-- A member of a relation. -/
def member? : Value → Option Member
  | .list [.text "node", .number (.whole id)] => some (.node id)
  | .list [.text "way", .number (.whole id)] => some (.way id)
  | .list [.text "relation", .number (.whole id)] => some (.relation id)
  | _ => none

/-- A relation. -/
def membership? (v : Value) : Option Membership := do
  return ⟨← id? v, (← items? v "members").filterMap member?, tagsOf v⟩

/-- The extract of a document. -/
def ofDocument? (v : Value) : Option (Extract Float) := do
  let places := Std.HashMap.ofList ((← items? v "nodes").filterMap node?)
  return {
    place := fun id => (places.get? id).join
    relations := (← items? v "relations").filterMap membership?
    ways := (← items? v "ways").filterMap path? }

end Extract
end BorderTiles
