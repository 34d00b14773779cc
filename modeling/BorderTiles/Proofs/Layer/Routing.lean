import BorderTiles.Proofs.Layer.Reachable
import BorderTiles.Proofs.Layer.Segments

/-!
# Layer — where the lines of ways go, in any order

Ways are met in whatever order their batches are done.  `Routed` says where each of their lines goes,
which depends on the way, the codes and whether names are wanted, and on nothing that was met before.
`SameRouting` is what two orders of the same ways have in common: the keys of both pools, the lines
under each key and the features, all up to their order, and the number of groups that are drawn at the
end.  `enterEach_routed` says that ways are routed, that refused ones change nothing, and that their
order does not matter.
-/

namespace BorderTiles

namespace Attribution
variable {α ρ : Type} [Mercator α] {k : Kernel α ρ} {areas : Table Int ρ} {codes : CountryCodes}

/-- All groups are counted, unless a fault comes up. -/
theorem count_of_attributeGroups {groups : Table Group (List (Line α))} {count : Nat}
    (h : (attributeGroups k areas codes groups).result = .ok count) : count = groups.size := by
  obtain ⟨done, -, -, hall⟩ := ofGroups_features k areas codes 0 groups.entries
  exact (hall count h).2.trans (Nat.zero_add _)

/-- The joined lines of projected lines can all be drawn, so that all groups are counted. -/
theorem attributeGroups_ok (hk : k.KeepsSegments) {size : Nat} (hα : Mercator.Regular α size)
    {groups : Table Group (List (Line α))}
    (h : ∀ g lines, (g, lines) ∈ groups.entries → ∀ l ∈ lines, l.Projected)
    (hsize : (segmentsOf (groups.entries.flatMap Prod.snd)).card < size) (areas : Table Int ρ)
    (codes : CountryCodes) : (attributeGroups k areas codes groups).result = .ok groups.size := by
  have hdraw : ∀ j ∈ joined k 0 groups.entries, ∃ f, (j.draw k areas codes).result = .ok f :=
    fun j => draw_ok hk hα h hsize areas codes
  obtain ⟨count, hcount⟩ := ofGroups_ok_of_drawn hdraw
  rw [← count_of_attributeGroups hcount]
  exact hcount

end Attribution

namespace Layer
variable {α ρ : Type} [Mercator α]

/-- What is drawn at once for a way. -/
def DrawnFor (layer : Layer α) (w : Way α) (f : Feature α) : Prop :=
  f.id = some w.id ∧ ∃ s line degrees, w.accepted? layer.codes = some (s, line) ∧
    line.toDegrees = .ok degrees ∧ f = .border degrees (s.border w.id)

/-- Where the lines of ways go that are met one after another, with no line waiting before. -/
structure Routed (layer : Layer α) (ways : List (Way α)) : Prop where
  /-- The answer for a way is the one that would have been given for it first. -/
  answers : layer.answers ways = ways.map fun w => (layer.enterWay w).result
  /-- Every way that is part of a border is decided by its summary. -/
  decided : ∀ w line, w.line? = some line → ∃ s, Summary.of? w.tags w.relations layer.codes = some s ∧
    (layer.enterWay w).result = .ok (some (decision s layer.countryNames))
  regions : ∀ id, (layer.enterEach ways).pools.regions.listOf id = ways.filterMap (Way.outline? id)
  groups : ∀ g, (layer.enterEach ways).pools.groups.listOf g = ways.filterMap (layer.waits? g)
  filled : (layer.enterEach ways).pools.regions.Filled ∧ (layer.enterEach ways).pools.groups.Filled
  features : ∃ drawn, (layer.enterEach ways).features = layer.features ++ drawn ∧
    List.Forall₂ layer.DrawnFor
      (ways.filter fun w => (layer.enterWay w).result = .ok (some .immediate)) drawn
  relations : (layer.enterEach ways).relations = layer.relations
  codes : (layer.enterEach ways).codes = layer.codes

/-- What two lists of ways lead to that differ in their order only. -/
structure SameRouting (layer : Layer α) (xs ys : List (Way α)) : Prop where
  regionKeys : ∀ id, id ∈ (layer.enterEach xs).pools.regions.keys ↔
    id ∈ (layer.enterEach ys).pools.regions.keys
  regions : ∀ id, ((layer.enterEach xs).pools.regions.listOf id).Perm
    ((layer.enterEach ys).pools.regions.listOf id)
  groupKeys : ∀ g, g ∈ (layer.enterEach xs).pools.groups.keys ↔
    g ∈ (layer.enterEach ys).pools.groups.keys
  groups : ∀ g, ((layer.enterEach xs).pools.groups.listOf g).Perm
    ((layer.enterEach ys).pools.groups.listOf g)
  features : ∃ as bs, (layer.enterEach xs).features = layer.features ++ as ∧
    (layer.enterEach ys).features = layer.features ++ bs ∧ as.Perm bs
  /-- Whatever becomes of the lines, the groups that are drawn are as many. -/
  counted : ∀ {ρ : Type} (k k' : Kernel α ρ) (areas areas' : Table Int ρ) m n,
    (attributeGroups k areas layer.codes (layer.enterEach xs).pools.groups).result = .ok m →
    (attributeGroups k' areas' layer.codes (layer.enterEach ys).pools.groups).result = .ok n → m = n
  /-- All of them are drawn if the lines are joined and projected as they should. -/
  drawn : ∀ {ρ : Type} (k : Kernel α ρ), k.KeepsSegments →
    (∀ w ∈ xs, ∀ position ∈ w.positions, FinitePosition position) →
    Mercator.Regular α ((segmentsOf (xs.filterMap Way.line?)).card + 1) →
    ∃ count, ∀ areas : Table Int ρ,
      (attributeGroups k areas layer.codes (layer.enterEach xs).pools.groups).result = .ok count ∧
      (attributeGroups k areas layer.codes (layer.enterEach ys).pools.groups).result = .ok count

variable {layer : Layer α} {ways : List (Way α)}

/-! ### Where lines go -/

/-- **A way that is part of a border is decided by its summary.** -/
theorem decided_of_line? (hα : Mercator.Reversible α) {w : Way α} {line : Line α}
    (h : w.line? = some line) : ∃ s, Summary.of? w.tags w.relations layer.codes = some s ∧
      (layer.enterWay w).result = .ok (some (decision s layer.countryNames)) := by
  rw [← w.map_accepted? layer.codes, Option.map_eq_some_iff] at h
  obtain ⟨⟨s, line⟩, ha, rfl⟩ := h
  obtain ⟨hs, hline⟩ := Way.accepted?_eq_some_iff.mp ha
  obtain ⟨degrees, hdegrees⟩ := Line.toDegrees_ok hα (Line.onMap_of_ofDegrees hline)
  refine ⟨s, hs, ?_⟩
  rw [enterWay_of_accepted ha, enterLine_result, hdegrees, decision]
  cases s.group? layer.countryNames <;> rfl

/-- What is drawn at ways are the features of those that are drawn at once. -/
theorem drawnFor_drawn (layer : Layer α) (ways : List (Way α)) :
    List.Forall₂ layer.DrawnFor
      (ways.filter fun w => (layer.enterWay w).result = .ok (some .immediate))
      (ways.flatMap layer.drawn) := by
  induction ways with
  | nil => exact .nil
  | cons w rest ih =>
      by_cases himmediate : (layer.enterWay w).result = .ok (some .immediate)
      · obtain ⟨s, line, degrees, ha, hg, hd⟩ := enterWay_immediate.mp himmediate
        have hdrawn : layer.drawn w = [.border degrees (s.border w.id)] := by
          simp only [drawn, drawnAtOnce, ha, hg, hd]
        rw [List.filter_cons_of_pos (by simpa using himmediate), List.flatMap_cons, hdrawn]
        exact .cons ⟨rfl, s, line, degrees, ha, hd, rfl⟩ ih
      · rw [List.filter_cons_of_neg (by simpa using himmediate), List.flatMap_cons,
          drawn_of_not_immediate himmediate]
        exact ih

/-- Where no line has waited before, no list is empty. -/
theorem filled_of_empty (hempty : layer.pools = .empty) (ways : List (Way α)) :
    (layer.enterEach ways).pools.regions.Filled ∧ (layer.enterEach ways).pools.groups.Filled := by
  refine filled_enterEach ?_ ways
  rw [hempty]
  exact ⟨Table.filled_empty, Table.filled_empty⟩

/-- **Ways are routed.** -/
theorem routed (hα : Mercator.Reversible α) (hempty : layer.pools = .empty) (ways : List (Way α)) :
    layer.Routed ways where
  answers := answers_eq_map layer ways
  decided _ _ := decided_of_line? hα
  regions id := by rw [listOf_regions_enterEach, hempty]; rfl
  groups g := by rw [listOf_groups_enterEach, hempty]; rfl
  filled := filled_of_empty hempty ways
  features := ⟨_, enterEach_features layer ways, drawnFor_drawn layer ways⟩
  relations := (layer.enterEach_frame ways).2.1
  codes := (layer.enterEach_frame ways).2.2.1

/-- A way that has no relation, or whose positions make no line, changes nothing. -/
theorem enterWay_refused (layer : Layer α) {w : Way α}
    (h : w.relations = [] ∨ ∃ fault, Line.ofDegrees w.positions = .error fault) :
    (layer.enterWay w).layer = layer := by
  refine (enterWay_of_not_accepted ?_).1
  rcases h with hnone | ⟨fault, hfault⟩
  · rw [Way.accepted?, Summary.of?_eq_none_iff.mpr hnone]
  · rw [Way.accepted?, hfault]
    cases Summary.of? w.tags w.relations layer.codes <;> rfl

/-! ### The groups are drawn -/

/-- A way leaves no more segments waiting than those of its line and those that waited before. -/
theorem waitingLines_enterWay (layer : Layer α) (w : Way α) :
    segmentsOf (layer.enterWay w).layer.waitingLines ≤
      segmentsOf w.line?.toList + segmentsOf layer.waitingLines := by
  rw [enterWay_layer, ← w.map_accepted? layer.codes]
  cases w.accepted? layer.codes with
  | none => exact Multiset.le_add_left _ _
  | some e =>
      obtain ⟨s, line⟩ := e
      rw [waitingLines_taking]
      refine add_le_add_left ?_ _
      cases s.group? layer.countryNames with
      | none => exact Multiset.zero_le _
      | some g => exact le_refl _

theorem waitingLines_enterEach (layer : Layer α) (ways : List (Way α)) :
    segmentsOf (layer.enterEach ways).waitingLines ≤
      segmentsOf (ways.filterMap Way.line?) + segmentsOf layer.waitingLines := by
  induction ways generalizing layer with
  | nil => exact Multiset.le_add_left _ _
  | cons w rest ih =>
      rw [segmentsOf_filterMap_cons, add_comm (segmentsOf w.line?.toList), add_assoc]
      exact (ih _).trans (add_le_add_right (waitingLines_enterWay layer w) _)

/-- Where no line has waited before, only lines of ways wait. -/
theorem projected_of_entries (hempty : layer.pools = .empty)
    (hways : ∀ w ∈ ways, ∀ position ∈ w.positions, FinitePosition position) {g : Group}
    {lines : List (Line α)} (h : (g, lines) ∈ (layer.enterEach ways).pools.groups.entries) :
    ∀ l ∈ lines, l.Projected := by
  have hlines : lines = ways.filterMap (layer.waits? g) :=
    calc lines = (layer.enterEach ways).pools.groups.listOf g := by
          rw [Table.listOf, Table.mem_entries_iff.mp h, Option.getD_some]
      _ = ways.filterMap (layer.waits? g) := by rw [listOf_groups_enterEach, hempty]; rfl
  intro l hl
  rw [hlines] at hl
  obtain ⟨w, hw, hwaits⟩ := List.mem_filterMap.mp hl
  exact Line.ofDegrees_projected (hways w hw) (Way.ofDegrees_of_line? (line?_of_waits? hwaits))

/-- The groups of ways are all drawn, if the lines are joined and projected as they should. -/
theorem attributeGroups_enterEach {k : Kernel α ρ} (hk : k.KeepsSegments)
    (hempty : layer.pools = .empty)
    (hways : ∀ w ∈ ways, ∀ position ∈ w.positions, FinitePosition position)
    (hα : Mercator.Regular α ((segmentsOf (ways.filterMap Way.line?)).card + 1))
    (areas : Table Int ρ) :
    (attributeGroups k areas layer.codes (layer.enterEach ways).pools.groups).result =
      .ok (layer.enterEach ways).pools.groups.size := by
  have hle : segmentsOf (layer.enterEach ways).waitingLines ≤
      segmentsOf (ways.filterMap Way.line?) := by
    have h := waitingLines_enterEach layer ways
    rwa [waitingLines_of_empty (congrArg Pools.groups hempty), segmentsOf_nil, add_zero] at h
  exact Attribution.attributeGroups_ok hk hα (fun g lines => projected_of_entries hempty hways)
    (Nat.lt_succ_of_le (Multiset.card_le_card hle)) areas layer.codes

/-! ### Any order -/

/-- **The order of ways does not matter.** -/
theorem sameRouting (hempty : layer.pools = .empty) {xs ys : List (Way α)} (h : xs.Perm ys) :
    layer.SameRouting xs ys := by
  obtain ⟨hxr, hxg⟩ := filled_of_empty hempty xs
  obtain ⟨hyr, hyg⟩ := filled_of_empty hempty ys
  have hregions : ∀ id, ((layer.enterEach xs).pools.regions.listOf id).Perm
      ((layer.enterEach ys).pools.regions.listOf id) := by
    intro id
    rw [listOf_regions_enterEach, listOf_regions_enterEach]
    exact (h.filterMap _).append_left _
  have hgroups : ∀ g, ((layer.enterEach xs).pools.groups.listOf g).Perm
      ((layer.enterEach ys).pools.groups.listOf g) := by
    intro g
    rw [listOf_groups_enterEach, listOf_groups_enterEach]
    exact (h.filterMap _).append_left _
  -- no list is empty, so the keys are those under which anything waits
  have hkeys := hxg.mem_keys_congr hyg hgroups
  have hsize := Table.size_eq_of_keys hkeys
  exact {
    regionKeys := hxr.mem_keys_congr hyr hregions
    regions := hregions
    groupKeys := hkeys
    groups := hgroups
    features := ⟨_, _, enterEach_features layer xs, enterEach_features layer ys,
      h.flatMap_right _⟩
    counted := by
      intro ρ k k' areas areas' m n hm hn
      rw [Attribution.count_of_attributeGroups hm, Attribution.count_of_attributeGroups hn, hsize]
    drawn := by
      intro ρ k hk hways hα
      refine ⟨_, fun areas => ⟨attributeGroups_enterEach hk hempty hways hα areas, ?_⟩⟩
      rw [hsize]
      refine attributeGroups_enterEach hk hempty (fun w hw => hways w (h.mem_iff.mpr hw)) ?_ areas
      rwa [segmentsOf_perm (h.filterMap _).symm] }

/-- **Where the lines of ways go, in any order.**  Ways are routed; one that is refused changes
nothing; and what the ways lead to does not depend on their order. -/
theorem enterEach_routed (hα : Mercator.Reversible α) (hempty : layer.pools = .empty)
    (ways : List (Way α)) :
    layer.Routed ways ∧
      (∀ (now : Layer α) (w : Way α),
        (w.relations = [] ∨ ∃ fault, Line.ofDegrees w.positions = .error fault) →
        (now.enterWay w).layer = now) ∧
      ∀ shuffled, ways.Perm shuffled → layer.SameRouting ways shuffled :=
  ⟨routed hα hempty ways, fun now _ => now.enterWay_refused, fun _ => sameRouting hempty⟩

/-- A border of the first country and of its part, and ways that are refused: without a relation, with
one place only, and with a position that is none. -/
def mixed : List (MapWay Rat) :=
  [⟨15, ∅, [[-45, 0], [0, 0]], [1, 3, 1]⟩, ⟨16, ∅, [[0, 0], [1, 1]], []⟩,
    ⟨17, ∅, [[1, 1], [1, 1]], [2]⟩, ⟨18, ∅, [[0, 0], [1]], [2]⟩]

/-- Nine ways in both directions: five lines wait in three groups and one is drawn at once. -/
theorem enterEach_routed_mixed :
    let layer : Layer Rat := (new true []).enterRelations countries
    let ways := (borders ++ mixed).map layer.resolve
    layer.Routed ways ∧ layer.SameRouting ways ways.reverse ∧
      (layer.enterEach ways).pools.groups.entries.map (fun e => (e.1.regions.toList, e.2.length)) =
        [([1, 2], 1), ([1], 2), ([2], 2)] ∧
      (layer.enterEach ways).features.map Feature.id = [some 14] := by
  intro layer ways
  have hempty : layer.pools = .empty := (enterRelations_frame _ countries).2.1
  obtain ⟨hrouted, -, hsame⟩ := enterEach_routed reversible_rat hempty ways
  exact ⟨hrouted, hsame _ (List.reverse_perm ways).symm, by decide +kernel, by decide +kernel⟩

end Layer
end BorderTiles
