import BorderTiles.Feature
import BorderTiles.Mercator
import BorderTiles.Plane.Kernel
import BorderTiles.Zooms

/-!
# Tile — Content

What a tile shows.  Features of one layer with the same attributes form a class, whatever the order of
the attributes; numbers and truth values are the same attribute if they have the same value.  The lines
of a class are joined and simplified for the zoom, and drawn with the attributes of the first feature
of the class and its id.  How lines are joined and simplified is left to a `LineWork`; the tiles of a run
have that of their kernel.
-/

namespace BorderTiles.Tile
variable {α ρ : Type} [Mercator α]

/-- How the lines of a class are joined and simplified. -/
structure LineWork (α : Type) where
  merge : List (Line α) → List (Line α)
  /-- A line without the points that a tolerance lets go. -/
  simplify : α → Line α → Line α

/-- Lines joined and simplified by a plane geometry. -/
def LineWork.ofKernel (k : Kernel α ρ) : LineWork α := ⟨k.merge, k.simplify⟩

/-- A line of a finished tile. -/
structure Drawn (α : Type) where
  id : Option Int
  properties : Table String Value
  line : Line α

/-- Features that are drawn together. -/
structure Class (α : Type) where
  layer : String
  attrs : Table String Value
  id : Option Int
  lines : List (Line α)

/-- Attributes in the order of their names. -/
def ordered (attrs : Table String Value) : List (String × Value) :=
  attrs.entries.mergeSort fun a b => a.1 ≤ b.1

theorem nodup_ordered (attrs : Table String Value) : ((ordered attrs).map Prod.fst).Nodup :=
  ((List.mergeSort_perm _ _).map Prod.fst).nodup_iff.mpr attrs.nodup

/-- The table of attributes in the order of their names. -/
def sorted (attrs : Table String Value) : Table String Value := ⟨ordered attrs, nodup_ordered attrs⟩

/-- Whether two ordered lists of attributes have the same names and values. -/
def sameAttrs : List (String × Value) → List (String × Value) → Bool
  | [], [] => true
  | (a, v) :: r, (b, w) :: s => a == b && v.same w && sameAttrs r s
  | _, _ => false

/-- The fault of attributes with a compound value, of several the one of the first name. -/
def checkKeys (attrs : List (String × Value)) : Except Fault Unit :=
  attrs.forM fun (_, v) =>
    match v with
    | .list _ | .object _ => .error (.notKey v.typeName)
    | _ => .ok ()

/-- The classes with a feature entered. -/
def enter (f : Feature α) (lines : List (Line α)) : List (Class α) → List (Class α)
  | [] => [⟨f.layer, f.attrs, f.id, lines⟩]
  | c :: rest =>
    if c.layer == f.layer && sameAttrs (ordered c.attrs) (ordered f.attrs) then
      { c with lines := c.lines ++ lines } :: rest
    else c :: enter f lines rest

/-- The classes with a feature entered with its lines, unless its attributes cannot be compared or it has
no geometry. -/
def classify (found : List (Class α)) (f : Feature α) : Except Fault (List (Class α)) := do
  checkKeys (ordered f.attrs)
  match f.geometry with
  | none => throw .noGeometry
  | some g => return enter f g.lineParts found

/-- The classes of features, in the order of their first features. -/
def classes (features : List (Feature α)) : Except Fault (List (Class α)) :=
  features.foldlM classify []

/-- What the lines of a class are drawn with: its attributes in the order of their names, and its
layer. -/
def Class.properties (c : Class α) : Table String Value := (sorted c.attrs).put "layer" (.text c.layer)

/-- The lines that are drawn for a class. -/
def drawClass (work : LineWork α) (tolerance : α) (c : Class α) : List (Drawn α) :=
  (work.merge c.lines).filterMap fun line =>
    let line := work.simplify tolerance line
    if line.length < 2 then none
    else some ⟨c.id, c.properties, line⟩

/-- What a tile with the given features shows at a zoom. -/
def content (work : LineWork α) (features : List (Feature α)) (zoom : Int) :
    Except Fault (List (Drawn α)) := do
  let tolerance := Zooms.pixelTolerance zoom * (← Mercator.degreesPerPixel (.whole zoom))
  let found ← classes features
  return found.flatMap (drawClass work tolerance)

end BorderTiles.Tile
