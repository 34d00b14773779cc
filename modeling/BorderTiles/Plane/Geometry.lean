import BorderTiles.Plane.Point

/-!
# Plane — Geometry

Geometries: a point, a line, a polygon with its rings, and collections of these.  A collection is
empty if all its members are.  `Geometry.lineParts` lists the non-empty lines of a geometry, going
through collections of lines and mixed collections that are not empty, from left to right;
`memberLines_append` says that it distributes over a list of members.
-/

namespace BorderTiles

/-- The kinds of collections. -/
inductive Collection where
  | points
  | lines
  | polygons
  | mixed
  deriving DecidableEq, Repr

/-- Whether lines are looked for among the members of a collection. -/
def Collection.holdsLines : Collection → Bool
  | lines | mixed => true
  | points | polygons => false

/-- A geometry. -/
inductive Geometry (α : Type) where
  | point (p : Option (Point α))
  | line (l : Line α)
  | polygon (rings : List (Line α))
  | many (kind : Collection) (members : List (Geometry α))
  deriving Inhabited

namespace Geometry
variable {α : Type}

mutual

/-- Whether a geometry holds no point. -/
def isEmpty : Geometry α → Bool
  | point p => p.isNone
  | line l => List.isEmpty l
  | polygon rings => rings.all List.isEmpty
  | many _ members => allEmpty members

/-- Whether no member holds a point. -/
def allEmpty : List (Geometry α) → Bool
  | [] => true
  | g :: r => isEmpty g && allEmpty r

end

mutual

/-- The non-empty lines of a geometry. -/
def lineParts (g : Geometry α) : List (Line α) :=
  if isEmpty g then [] else
  match g with
  | line l => [l]
  | many kind members => if kind.holdsLines then memberLines members else []
  | point _ | polygon _ => []

/-- The non-empty lines of members, in order. -/
def memberLines : List (Geometry α) → List (Line α)
  | [] => []
  | g :: r => lineParts g ++ memberLines r

end

theorem memberLines_append (gs hs : List (Geometry α)) :
    memberLines (gs ++ hs) = memberLines gs ++ memberLines hs := by
  induction gs with
  | nil => rfl
  | cons g r ih => simp [memberLines, ih]

mutual

/-- The points of a geometry. -/
def points : Geometry α → List (Point α)
  | point p => p.toList
  | line l => l
  | polygon rings => rings.flatten
  | many _ members => memberPoints members

/-- The points of members, in order. -/
def memberPoints : List (Geometry α) → List (Point α)
  | [] => []
  | g :: r => points g ++ memberPoints r

end

/-- The line that a geometry is, if it is one. -/
def line? : Geometry α → Option (Line α)
  | line l => some l
  | point _ | polygon _ | many .. => none

/-- A geometry of the given lines: one line, or a collection. -/
def ofLines : List (Line α) → Geometry α
  | [l] => line l
  | ls => many .lines (ls.map line)

end Geometry
end BorderTiles
