import BorderTiles.Way
import BorderTiles.Proofs.Relation

/-!
# Way — summaries and groups

What the summary of a way says of its relations, and what the group of a waiting line says of the
ways that wait in it.

* `of?_eq_none_iff`: a way has a summary unless it has no relation.  `exists_level_of_of?`: its level is
  that of one of the relations.
* `mem_regions`, `mem_outlined`: the countries of a summary are relations of the way.
* `Group.Regular`: the key of a group is one of level 2, drawn from the zoom of its kind, with at
  least one country, all with a code, and without a name or a claimant unless disputed.
  `regular_of_group?`: the group that a summary waits in is regular.
-/

namespace BorderTiles

namespace IdSet

theorem nodup_toList (s : IdSet) : s.toList.Nodup := s.increasing.imp Int.ne_of_lt

theorem isEmpty_eq_false_iff {s : IdSet} : s.isEmpty = false ↔ ∃ n, n ∈ s := by
  rw [isEmpty, List.isEmpty_eq_false_iff_exists_mem]
  rfl

/-- In the list of a set a member stands once. -/
theorem count_toList {s : IdSet} {n : Int} (h : n ∈ s) : s.toList.count n = 1 :=
  List.count_eq_one_of_mem s.nodup_toList h

end IdSet

namespace Summary

variable {tags : Tags} {relations : List Relation} {codes : CountryCodes} {s : Summary}

/-! ### What a summary says -/

theorem of?_eq_none_iff : of? tags relations codes = none ↔ relations = [] := by
  cases relations <;> simp [of?, lowestLevel?]

/-- The zoom of a summary is that of its level and kind. -/
theorem minZoom_of_of? (h : of? tags relations codes = some s) :
    s.minZoom = firstZoom s.level s.maritime := by
  obtain ⟨level, -, rfl⟩ := Option.map_eq_some_iff.mp h
  rfl

theorem lowestLevel?_eq_min? : lowestLevel? relations = (relations.map (·.level)).min? := by
  cases relations with
  | nil => rfl
  | cons r rest => rw [List.map_cons, List.min?_cons', List.foldl_map, lowestLevel?]

/-- The lowest level is that of a relation, and no relation has a lower one. -/
theorem lowestLevel?_eq_some_iff {level : Int} : lowestLevel? relations = some level ↔
    (∃ r ∈ relations, r.level = level) ∧ ∀ r ∈ relations, level ≤ r.level := by
  rw [lowestLevel?_eq_min?, List.min?_eq_some_iff, List.mem_map, List.forall_mem_map]

/-- The level of a summary is that of a relation of the way. -/
theorem exists_level_of_of? (h : of? tags relations codes = some s) :
    ∃ r ∈ relations, r.level = s.level := by
  obtain ⟨level, hlevel, rfl⟩ := Option.map_eq_some_iff.mp h
  exact (lowestLevel?_eq_some_iff.mp hlevel).1

/-- A country of the summary is a relation of the way, of level 2 and with a code, and no relation of
the way has a lower level. -/
theorem mem_regions (h : of? tags relations codes = some s) {id : Int} (hid : id ∈ s.regions) :
    s.level = 2 ∧ ∃ r ∈ relations, r.id = id ∧ r.level = 2 ∧ codes.holds id = true := by
  obtain ⟨level, -, rfl⟩ := Option.map_eq_some_iff.mp h
  obtain ⟨r, hr, rfl⟩ := List.mem_map.mp (IdSet.mem_ofList.mp hid)
  dsimp only at hr ⊢
  split at hr
  · next hlevel =>
      obtain ⟨hmem, hcond⟩ := List.mem_filter.mp hr
      rw [Bool.and_eq_true, beq_iff_eq] at hcond
      exact ⟨hlevel, r, hmem, rfl, hcond⟩
  · cases hr

/-- A way is part of the outline of its relations of level 2 or below. -/
theorem mem_outlined (h : of? tags relations codes = some s) {id : Int} :
    id ∈ s.outlined ↔ ∃ r ∈ relations, r.id = id ∧ r.level ≤ 2 := by
  obtain ⟨level, -, rfl⟩ := Option.map_eq_some_iff.mp h
  simp only [IdSet.mem_ofList, List.mem_map, List.mem_filter, decide_eq_true_iff]
  exact ⟨fun ⟨r, ⟨hr, hl⟩, e⟩ => ⟨r, hr, e, hl⟩, fun ⟨r, hr, e, hl⟩ => ⟨r, ⟨hr, hl⟩, e⟩⟩

theorem regions_subset_outlined (h : of? tags relations codes = some s) {id : Int}
    (hid : id ∈ s.regions) : id ∈ s.outlined := by
  obtain ⟨-, r, hr, e, hl, -⟩ := mem_regions h hid
  exact (mem_outlined h).mpr ⟨r, hr, e, by omega⟩

theorem firstDisputed_of_calm {field : Relation → Option String}
    (h : relations.any (·.disputed) = false) : firstDisputed field relations = none := by
  have hnil : relations.filter (·.disputed) = [] :=
    List.filter_eq_nil_iff.mpr fun r hr hd => by simp [List.any_eq_false.mp h r hr] at hd
  rw [firstDisputed, hnil]
  rfl

/-- Only a disputed border has a claimant or a name. -/
theorem calm_of_of? (h : of? tags relations codes = some s) (hd : s.disputed = false) :
    s.claimedBy = none ∧ s.disputedName = none := by
  obtain ⟨level, -, rfl⟩ := Option.map_eq_some_iff.mp h
  obtain ⟨hr, ht⟩ := Bool.or_eq_false_iff.mp hd
  simp [firstDisputed_of_calm hr, ht]

/-! ### Groups -/

theorem group?_eq_some_iff {names : Bool} {g : Group} :
    s.group? names = some g ↔ names = true ∧ (∃ id, id ∈ s.regions) ∧
      g = ⟨s.level, s.disputed, s.maritime, s.minZoom, s.claimedBy, s.disputedName, s.regions⟩ := by
  rw [← IdSet.isEmpty_eq_false_iff, group?]
  cases names <;> cases s.regions.isEmpty <;> simp [eq_comm]

theorem group?_false : s.group? false = none := rfl

end Summary

/-- A group of country borders, with every country in the table of codes. -/
structure Group.Regular (g : Group) (codes : CountryCodes) : Prop where
  level : g.level = 2
  minZoom : g.minZoom = firstZoom 2 g.maritime
  bordering : ∃ id, id ∈ g.regions
  coded : ∀ id ∈ g.regions, codes.holds id = true
  calm : g.disputed = false → g.claimedBy = none ∧ g.disputedName = none

namespace Summary

variable {tags : Tags} {relations : List Relation} {codes : CountryCodes} {s : Summary}
  {names : Bool} {g : Group}

theorem regular_of_group? (h : of? tags relations codes = some s) (hg : s.group? names = some g) :
    g.Regular codes := by
  obtain ⟨-, ⟨id, hid⟩, rfl⟩ := group?_eq_some_iff.mp hg
  have hlevel : s.level = 2 := (mem_regions h hid).1
  refine ⟨hlevel, ?_, ⟨id, hid⟩, fun a ha => ?_, calm_of_of? h⟩
  · dsimp only
    rw [minZoom_of_of? h, hlevel]
  · obtain ⟨-, r, -, -, -, hc⟩ := mem_regions h ha
    exact hc

/-- Every way that waits in a group has a relation of level 2 for each country of the group. -/
theorem relation_of_group? (h : of? tags relations codes = some s) (hg : s.group? names = some g)
    {id : Int} (hid : id ∈ g.regions) : ∃ r ∈ relations, r.id = id ∧ r.level = 2 := by
  obtain ⟨-, -, rfl⟩ := group?_eq_some_iff.mp hg
  obtain ⟨-, r, hr, e, hl, -⟩ := mem_regions h hid
  exact ⟨r, hr, e, hl⟩

end Summary
end BorderTiles
