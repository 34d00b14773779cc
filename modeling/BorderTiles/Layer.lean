import BorderTiles.Attribution

/-!
# Layer

The border layer of a run.  `Layer.enterRelation` notes the relations, `Layer.enterWay` draws the line
of a way or lets it wait, `Layer.finish` draws what waits once all input is there, and `Layer.release`
forgets everything but the features.  A `Step` is what an operation gives: the layer after it, its
reports, and its result or the fault that ended it.
-/

namespace BorderTiles

/-- The state of the layer. -/
structure Layer (α : Type) where
  /-- Whether the countries on both sides of a border are wanted. -/
  countryNames : Bool
  relations : Table Int Relation
  codes : CountryCodes
  pools : Pools α
  finished : Bool
  /-- The features drawn so far, the oldest first. -/
  features : List (Feature α)

/-- What an operation on the layer gives. -/
structure Step (α τ : Type) where
  layer : Layer α
  notices : List (Notice α)
  result : Except Fault τ

namespace Layer
variable {α ρ : Type}

/-- A layer that has seen nothing. -/
def new (countryNames : Bool) (features : List (Feature α)) : Layer α :=
  ⟨countryNames, ∅, ∅, .empty, false, features⟩

/-- A relation of the map is met. -/
def enterRelation (layer : Layer α) (id : Int) (tags : Tags) : Option Relation × Layer α :=
  match Relation.enter id tags layer.codes with
  | (none, codes) => (none, { layer with codes })
  | (some r, codes) => (some r, { layer with codes, relations := layer.relations.put id r })

/-- The accepted relations among ids, in their order. -/
def relationsOf (layer : Layer α) (ids : List Int) : List Relation :=
  ids.filterMap layer.relations.get?

/-- What is done with the line of a way. -/
inductive Decision where
  /-- It is drawn at once. -/
  | immediate
  /-- It waits in a group. -/
  | deferred (group : Group)
  deriving DecidableEq

/-- What is done with the line of a way of this summary. -/
def decision (s : Summary) (countryNames : Bool) : Decision :=
  match s.group? countryNames with
  | some group => .deferred group
  | none => .immediate

variable [Mercator α]

/-- The line of a summarised way is drawn or waits. -/
def enterLine (layer : Layer α) (id : Int) (s : Summary) (line : Line α) :
    Step α (Option Decision) :=
  let group := s.group? layer.countryNames
  let layer := { layer with pools := layer.pools.add line s.outlined.toList group }
  match decision s layer.countryNames with
  | .deferred group => ⟨layer, [], .ok (some (.deferred group))⟩
  | .immediate =>
    match line.toDegrees with
    | .error fault => ⟨layer, [], .error fault⟩
    | .ok degrees =>
      ⟨{ layer with features := layer.features ++ [.border degrees (s.border id)] }, [],
        .ok (some .immediate)⟩

/-- A way of the map is met.  Nothing is done with one that has no accepted relation or no line. -/
def enterWay (layer : Layer α) (way : Way α) : Step α (Option Decision) :=
  match Summary.of? way.tags way.relations layer.codes with
  | none => ⟨layer, [], .ok none⟩
  | some s =>
    match Line.ofDegrees way.positions with
    | .ok line => layer.enterLine way.id s line
    | .error fault =>
      if fault.kind = .geometry then ⟨layer, [.wayWithoutLine way.id fault], .ok none⟩
      else ⟨layer, [], .error fault⟩

/-- The end of the input.  It comes once. -/
def finish (k : Kernel α ρ) (layer : Layer α) : Step α Nat :=
  if layer.finished then ⟨layer, [], .error .alreadyFinished⟩
  else
    let (regions, outlined) := Attribution.outlineRegions k layer.pools.regions
    let attribution := attributeGroups k regions layer.codes layer.pools.groups
    let merged := match attribution.result with
      | .ok count => [.groupsMerged count]
      | .error _ => []
    { layer := { layer with
        finished := true
        pools := ⟨∅, .ofList attribution.left⟩
        features := layer.features ++ attribution.features }
      notices := outlined ++ attribution.notices ++ merged
      result := attribution.result }

/-- The layer without anything but its features. -/
def release (layer : Layer α) : Layer α :=
  { layer with relations := ∅, codes := ∅, pools := .empty }

end Layer
end BorderTiles
