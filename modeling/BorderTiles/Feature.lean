import BorderTiles.Document.Value
import BorderTiles.Plane.Geometry
import BorderTiles.Table
import BorderTiles.Tags

/-!
# Feature

What is drawn: a geometry in degrees with the attributes and zooms it is drawn with.  `setAttr` sets
an attribute, or removes it if there is no value.  `Feature.border` is the feature of a border line,
and `firstZoom` the zoom from which a border is drawn.
-/

namespace BorderTiles

/-- A geometry to draw, with its attributes in the order they were set. -/
structure Feature (α : Type) where
  layer : String
  geometry : Option (Geometry α)
  attrs : Table String Value
  minZoom : Int
  maxZoom : Int
  /-- Pixels around a tile in which the geometry is still drawn. -/
  buffer : Number
  id : Option Int

/-- The zoom from which a border of a level is drawn; country borders at sea come first. -/
def firstZoom (level : Int) (maritime : Bool) : Int :=
  if maritime && level == 2 then 4
  else if level ≤ 4 then 5
  else if level ≤ 6 then 9
  else if level ≤ 8 then 11
  else 12

/-- Attributes with `value` under `key`, or without `key` if the value is null. -/
def setAttr (attrs : Table String Value) (key : String) (value : Value) : Table String Value :=
  match value with
  | .null => attrs.erase key
  | v => attrs.put key v

namespace Feature
variable {α : Type}

/-- The layer of all borders. -/
def layerName : String := "boundary"

/-- The buffer of all borders. -/
def borderBuffer : Number := .whole 4

/-- The last zoom of a border. -/
def lastZoom : Int := 14

/-- A truth value as an attribute. -/
def flag (b : Bool) : Value := .whole (if b then 1 else 0)

/-- What a border line says besides its geometry. -/
structure Border where
  level : Int
  disputed : Bool
  maritime : Bool
  minZoom : Int
  claimedBy : Option String
  disputedName : Option String
  leftCode : Option String
  rightCode : Option String
  id : Option Int

/-- The attributes of a border. -/
def Border.attrs (b : Border) : Table String Value :=
  let attrs := setAttr ∅ "admin_level" (.whole b.level)
  let attrs := setAttr attrs "disputed" (flag b.disputed)
  let attrs := setAttr attrs "maritime" (flag b.maritime)
  let attrs := setAttr attrs "claimed_by" (.ofText? b.claimedBy)
  let attrs := setAttr attrs "disputed_name" (.ofText? (b.disputedName.map cleanName))
  let attrs := setAttr attrs "adm0_l" (.ofText? b.leftCode)
  setAttr attrs "adm0_r" (.ofText? b.rightCode)

/-- The feature of a border line. -/
def border (line : Line α) (b : Border) : Feature α where
  layer := layerName
  geometry := some (.line line)
  attrs := b.attrs
  minZoom := b.minZoom
  maxZoom := lastZoom
  buffer := borderBuffer
  id := b.id

end Feature
end BorderTiles
