import BorderTiles.Bordering
import BorderTiles.Pools

/-!
# Attribution

What happens to the waiting lines at the end of the input.  `outlineRegions` builds the areas of the
countries, each from its own lines; one that fails or does not close is reported and left out.
`attributeGroups` joins the lines of each group and draws every joined line with the codes of the
countries on its two sides, under the number of its group.
-/

namespace BorderTiles
variable {α ρ : Type}

namespace Attribution

/-- What comes of the lines of one region: its area, or the report of why there is none. -/
def outlineRegion (k : Kernel α ρ) (id : Int) (lines : List (Line α)) : Except (Notice α) ρ :=
  match k.outline lines with
  | .ok (some area) => .ok area
  | .ok none => .error (.outlineOpen id)
  | .error cause => .error (.outlineRefused id cause)

/-- The areas of regions by id, entered into `known`. -/
def outlineEach (k : Kernel α ρ) (known : Table Int ρ) :
    List (Int × List (Line α)) → Table Int ρ × List (Notice α)
  | [] => (known, [])
  | (id, lines) :: rest =>
    match outlineRegion k id lines with
    | .ok area => outlineEach k (known.put id area) rest
    | .error notice =>
      let (known, notices) := outlineEach k known rest
      (known, notice :: notices)

/-- The areas of all regions whose lines close, with the reports. -/
def outlineRegions (k : Kernel α ρ) (lines : Table Int (List (Line α))) :
    Table Int ρ × List (Notice α) :=
  let (known, notices) := outlineEach k ∅ lines.entries
  (known, .outliningRegions lines.size :: notices ++ [.regionsOutlined known.size])

variable [Mercator α]

/-- The feature of a joined line of the group with a number. -/
def attributed (k : Kernel α ρ) (regions : Table Int ρ) (codes : CountryCodes) (number : Nat)
    (g : Group) (line : Line α) : Logged α (Feature α) := do
  let sides ← Bordering.ofLine k.inside regions g.regions.toList line
  let degrees ← .ofExcept line.toDegrees
  return .border degrees {
    level := g.level
    disputed := g.disputed
    maritime := g.maritime
    minZoom := g.minZoom
    claimedBy := g.claimedBy
    disputedName := if g.disputed then g.disputedName else none
    leftCode := codes.code? sides.left
    rightCode := codes.code? sides.right
    id := some number }

end Attribution

/-- What came of the groups: the features drawn, the reports, the groups that were not reached because
of a fault, and the number of groups or the fault. -/
structure Attribution (α : Type) where
  features : List (Feature α)
  notices : List (Notice α)
  left : List (Group × List (Line α))
  result : Except Fault Nat

namespace Attribution
variable [Mercator α]

/-- The features of the joined lines of one group, up to the first fault. -/
def ofLines (draw : Line α → Logged α (Feature α)) :
    List (Line α) → List (Feature α) × Logged α Unit
  | [] => ([], .pure ())
  | line :: rest =>
    let drawn := draw line
    match drawn.result with
    | .error fault => ([], ⟨drawn.notices, .error fault⟩)
    | .ok f =>
      let (features, tail) := ofLines draw rest
      (f :: features, ⟨drawn.notices ++ tail.notices, tail.result⟩)

/-- What comes of groups, of which `number` have been treated before. -/
def ofGroups (k : Kernel α ρ) (regions : Table Int ρ) (codes : CountryCodes) (number : Nat) :
    List (Group × List (Line α)) → Attribution α
  | [] => ⟨[], [], [], .ok number⟩
  | (g, lines) :: rest =>
    let (features, outcome) := ofLines (attributed k regions codes (number + 1) g) (k.merge lines)
    match outcome.result with
    | .error fault => ⟨features, outcome.notices, rest, .error fault⟩
    | .ok () =>
      let tail := ofGroups k regions codes (number + 1) rest
      { tail with
        features := features ++ tail.features
        notices := outcome.notices ++ tail.notices }

end Attribution

/-- What comes of all waiting groups. -/
def attributeGroups [Mercator α] (k : Kernel α ρ) (regions : Table Int ρ) (codes : CountryCodes)
    (groups : Table Group (List (Line α))) : Attribution α :=
  Attribution.ofGroups k regions codes 0 groups.entries

end BorderTiles
