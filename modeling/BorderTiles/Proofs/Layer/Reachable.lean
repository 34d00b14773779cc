import BorderTiles.Proofs.Fractions
import BorderTiles.Proofs.Layer.Visits
import Mathlib.Algebra.Order.Group.Multiset

/-!
# Layer — reachable states

`Reachable k` holds of every state that a new layer comes to by relations, ways, finishes and releases
in any order.  A finish may be refused because it is not the first; one that a fault breaks off in the
middle (`Call.Completes`) is not followed, since it leaves groups behind whose outlines are gone.

`Sound` is what all these states have in common (`reachable_sound`):

* stored relations have a level of `2 … 10`, and every group is `Group.Regular`;
* no list of waiting lines is empty;
* a line that waits to be named after a country also waits for the outline of that country.
-/

namespace BorderTiles

/-- What the layer is asked for. -/
inductive Call (α : Type) where
  | relation (id : Int) (tags : Tags)
  | way (w : MapWay α)
  | finish
  | release

namespace Pools
variable {α : Type}

/-- The lines of all groups that border a country. -/
def waitingFor (p : Pools α) (id : Int) : List (Line α) :=
  p.groups.gather fun g => g.regions.toList.contains id

theorem waitingFor_empty (id : Int) : (empty : Pools α).waitingFor id = [] := rfl

/-- A line added under a group waits for the countries of the group. -/
theorem waitingFor_add (p : Pools α) (line : Line α) (outlined : List Int) (group : Option Group)
    (id : Int) : ((p.add line outlined group).waitingFor id).Perm
      ((if group.any fun g => g.regions.toList.contains id then [line] else []) ++
        p.waitingFor id) := by
  cases group with
  | none => exact .refl _
  | some g => exact Table.gather_append _ _ g line

end Pools

namespace Layer
variable {α ρ : Type}

section
variable [Mercator α]

/-- The layer after a call. -/
def after (k : Kernel α ρ) (layer : Layer α) : Call α → Layer α
  | .relation id tags => (layer.enterRelation id tags).2
  | .way w => (layer.enterWay (layer.resolve w)).layer
  | .finish => (layer.finish k).layer
  | .release => layer.release

/-- A call is not broken off by a fault: a finish is refused as a second one or comes to its end. -/
def Completes (k : Kernel α ρ) (layer : Layer α) : Call α → Prop
  | .finish => layer.finished = true ∨ ∃ count, (layer.finish k).result = .ok count
  | .relation .. | .way _ | .release => True

/-- The states that calls lead to from a new layer. -/
inductive Reachable (k : Kernel α ρ) : Layer α → Prop where
  | new (names : Bool) (features : List (Feature α)) : Reachable k (.new names features)
  | call {layer : Layer α} (h : Reachable k layer) (c : Call α) (hc : layer.Completes k c) :
      Reachable k (layer.after k c)

end

/-! ### The invariant -/

/-- What every reachable state satisfies. -/
structure Sound (layer : Layer α) : Prop where
  levels : ∀ id r, layer.relations.get? id = some r → 2 ≤ r.level ∧ r.level ≤ 10
  regionsFilled : layer.pools.regions.Filled
  groupsFilled : layer.pools.groups.Filled
  regular : ∀ g lines, layer.pools.groups.get? g = some lines → g.Regular layer.codes
  outlined : ∀ id, (layer.pools.waitingFor id : Multiset (Line α)) ≤ layer.pools.regions.listOf id

/-- Where no line waits, only the stored relations matter. -/
theorem Sound.of_pools_empty {layer : Layer α} (hp : layer.pools = .empty)
    (hl : ∀ id r, layer.relations.get? id = some r → 2 ≤ r.level ∧ r.level ≤ 10) :
    layer.Sound where
  levels := hl
  regionsFilled := hp ▸ Table.filled_empty
  groupsFilled := hp ▸ Table.filled_empty
  regular g lines h := by rw [hp] at h; cases h
  outlined id := by rw [hp, Pools.waitingFor_empty]; exact Multiset.zero_le _

theorem sound_new (names : Bool) (features : List (Feature α)) : (new names features).Sound :=
  .of_pools_empty rfl fun _ _ h => by cases h

theorem Sound.enterRelation {layer : Layer α} (h : layer.Sound) (id : Int) (tags : Tags) :
    (layer.enterRelation id tags).2.Sound := by
  rcases layer.enterRelation_cases id tags with e | ⟨r, hr, e⟩
  · rw [e]
    exact h
  · rw [e]
    exact {
      levels := Table.forall_update h.levels (Relation.level_of_ofTags? hr)
      regionsFilled := h.regionsFilled
      groupsFilled := h.groupsFilled
      regular := fun g lines hg =>
        have hreg := h.regular g lines hg
        { hreg with coded := fun a ha => CountryCodes.holds_enter (hreg.coded a ha) id tags }
      outlined := h.outlined }

theorem Sound.enterRelations {layer : Layer α} (h : layer.Sound) (relations : List (Int × Tags)) :
    (layer.enterRelations relations).Sound := by
  induction relations generalizing layer with
  | nil => exact h
  | cons r rest ih => exact ih (h.enterRelation r.1 r.2)

theorem Sound.release {layer : Layer α} : layer.release.Sound :=
  .of_pools_empty rfl fun _ _ h => by cases h

variable [Mercator α]

/-- **A line that is taken keeps the invariant.**  It enters the outlines of all its countries, among
them those of its group. -/
theorem Sound.taking {layer : Layer α} (h : layer.Sound) {tags : Tags} {relations : List Relation}
    {s : Summary} (hs : Summary.of? tags relations layer.codes = some s) (id : Int)
    (line : Line α) : (layer.taking id s line).Sound where
  levels := h.levels
  regionsFilled := (Pools.filled_add ⟨h.regionsFilled, h.groupsFilled⟩ ..).1
  groupsFilled := (Pools.filled_add ⟨h.regionsFilled, h.groupsFilled⟩ ..).2
  regular := by
    dsimp only [Layer.taking, Pools.add]
    cases hg : s.group? layer.countryNames with
    | none => exact h.regular
    | some g =>
        exact Table.forall_update h.regular
          (Summary.regular_of_group? hs hg)
  outlined a := by
    dsimp only [Layer.taking]
    rw [Pools.listOf_add, Multiset.coe_eq_coe.mpr (Pools.waitingFor_add ..), ← Multiset.coe_add,
      ← Multiset.coe_add, add_comm]
    -- the line waits once for each country of its group, and that country is outlined once
    refine add_le_add (h.outlined a) ?_
    split
    · next hany =>
        obtain ⟨g, hg, ha⟩ := (Option.any_eq_true ..).mp hany
        obtain ⟨-, -, rfl⟩ := Summary.group?_eq_some_iff.mp hg
        have hout : a ∈ s.outlined :=
          Summary.regions_subset_outlined hs (List.contains_iff_mem.mp ha)
        rw [IdSet.count_toList hout]
        exact le_refl _
    · exact Multiset.zero_le _

theorem Sound.enterWay {layer : Layer α} (h : layer.Sound) (w : Way α) :
    (layer.enterWay w).layer.Sound := by
  rw [enterWay_layer]
  split
  · next s line hw => exact h.taking (Way.accepted?_eq_some_iff.mp hw).1 w.id line
  · exact h

theorem Sound.enterWays {layer : Layer α} (h : layer.Sound) (ways : List (MapWay α)) :
    (layer.enterWays ways).Sound := by
  induction ways generalizing layer with
  | nil => exact h
  | cons w rest ih => exact ih (h.enterWay (layer.resolve w))

theorem Sound.finish {k : Kernel α ρ} {layer : Layer α} (h : layer.Sound)
    (hc : layer.Completes k .finish) : (layer.finish k).layer.Sound := by
  rcases hc with hf | ⟨count, hcount⟩
  · rw [finish_of_finished hf]
    exact h
  · refine .of_pools_empty (pools_of_finish hcount) ?_
    rw [(finish_frame k layer).2.1]
    exact h.levels

theorem Sound.after {k : Kernel α ρ} {layer : Layer α} (h : layer.Sound) {c : Call α}
    (hc : layer.Completes k c) : (layer.after k c).Sound := by
  cases c with
  | relation id tags => exact h.enterRelation id tags
  | way w => exact h.enterWay _
  | finish => exact h.finish hc
  | release => exact .release

/-- **Every reachable state is sound.** -/
theorem reachable_sound {k : Kernel α ρ} {layer : Layer α} (h : Reachable k layer) :
    layer.Sound := by
  induction h with
  | new names features => exact sound_new names features
  | call _ c hc ih => exact ih.after hc

/-- Also where a line comes to wait after a finish. -/
theorem sound_with_late_border :
    let layer : Layer Rat := (((new true []).after Kernel.upright
      (.relation 1 (Relation.adminTags "2" (some "AAA")))).after Kernel.upright .finish).after
        Kernel.upright (.way ⟨10, ∅, [[0, 0], [0, Mercator.limit]], [1]⟩)
    layer.Sound ∧ layer.finished = true ∧ layer.pools.groups.size = 1 := by
  have hstart : Reachable Kernel.upright ((new true []).after Kernel.upright
      (.relation 1 (Relation.adminTags "2" (some "AAA")))) := .call (.new true []) _ trivial
  have hfinish : Reachable Kernel.upright _ := .call hstart .finish (.inr ⟨0, by decide +kernel⟩)
  refine ⟨reachable_sound (.call hfinish (.way _) trivial), ?_, ?_⟩
  · decide +kernel
  · decide +kernel

end Layer
end BorderTiles
