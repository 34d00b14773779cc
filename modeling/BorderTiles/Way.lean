import BorderTiles.Feature
import BorderTiles.IdSet
import BorderTiles.Relation

/-!
# Way

Ways of the map that belong to boundary relations.  `Summary.of?` sums up the relations and tags of a
way; `Summary.group?` says whether its line waits to be joined with others of the same `Group`, which
it does if country names are wanted and it borders a country with a known code.
-/

namespace BorderTiles

/-- A way with its positions, longitude first, and the relations it is a member of. -/
structure Way (α : Type) where
  id : Int
  tags : Tags
  positions : List (List α)
  relations : List Relation

/-- What lines have in common that are joined with each other. -/
structure Group where
  level : Int
  disputed : Bool
  maritime : Bool
  minZoom : Int
  claimedBy : Option String
  disputedName : Option String
  regions : IdSet
  deriving DecidableEq

/-- What a way says about the border along it. -/
structure Summary where
  level : Int
  disputed : Bool
  maritime : Bool
  minZoom : Int
  claimedBy : Option String
  disputedName : Option String
  /-- The countries with a known code that the way borders. -/
  regions : IdSet
  /-- The countries whose outline the way is part of. -/
  outlined : IdSet
  deriving DecidableEq

namespace Summary

/-- The lowest level of the relations, if there is one. -/
def lowestLevel? : List Relation → Option Int
  | [] => none
  | r :: rest => some (rest.foldl (fun m s => min m s.level) r.level)

/-- The first text that a disputed relation gives. -/
def firstDisputed (field : Relation → Option String) (relations : List Relation) : Option String :=
  (relations.filter (·.disputed)).findSome? field

/-- The summary of a way that has at least one relation. -/
def of? (tags : Tags) (relations : List Relation) (codes : CountryCodes) : Option Summary :=
  (lowestLevel? relations).map fun level =>
    let fromTags (name : String) := if tags.isDisputed then tags.text? name else none
    let regions :=
      if level = 2 then relations.filter fun r => r.level == 2 && codes.holds r.id else []
    { level
      disputed := relations.any (·.disputed) || tags.isDisputed
      maritime := tags.isMaritime
      minZoom := firstZoom level tags.isMaritime
      claimedBy := firstDisputed (·.claimedBy) relations <|> fromTags "claimed_by"
      disputedName := firstDisputed (·.name) relations <|> fromTags "name"
      regions := .ofList (regions.map (·.id))
      outlined := .ofList ((relations.filter (·.level ≤ 2)).map (·.id)) }

/-- The group that the line of a way waits in; without one it is drawn at once. -/
def group? (s : Summary) (countryNames : Bool) : Option Group :=
  if countryNames && !s.regions.isEmpty then
    some ⟨s.level, s.disputed, s.maritime, s.minZoom, s.claimedBy, s.disputedName, s.regions⟩
  else none

/-- The border that is drawn at once for a way. -/
def border (s : Summary) (id : Int) : Feature.Border where
  level := s.level
  disputed := s.disputed
  maritime := s.maritime
  minZoom := s.minZoom
  claimedBy := s.claimedBy
  disputedName := s.disputedName
  leftCode := none
  rightCode := none
  id := some id

end Summary
end BorderTiles
