import BorderTiles.Proofs.Feature
import BorderTiles.Proofs.Layer.Reachable

/-!
# Layer — the countries on the sides

What the attributes `adm0_l` and `adm0_r` of a feature say that is drawn at the end of the input.  A
country is shown exactly if it has been found on that side (`Named`): it is one of the countries of the
group, it has an area and a code, and every way that waits in the group is a border of it.
`finish_names_sides` says so of all features drawn at the end, whatever the input.
-/

namespace BorderTiles.Layer
variable {α ρ : Type} [Mercator α]

/-- What is shown of the country found on a side of a line of a group. -/
structure Named (k : Kernel α ρ) (layer : Layer α) (visits : List (Visit α)) (g : Group)
    (country : Option Int) (shown : Option Value) : Prop where
  shown_iff : shown.isSome ↔ country.isSome
  bordering : ∀ id, country = some id → id ∈ g.regions ∧ (layer.outlines k).contains id = true
  coded : ∀ id, country = some id →
    ∃ code, layer.codes.get? (some id) = some (some code) ∧ shown = some (.text code)
  bordered : ∀ id, country = some id → ∀ v ∈ visits, v.result = .ok (some (.deferred g)) →
    ∃ r ∈ v.way.relations, r.id = id ∧ r.level = 2

/-- What is drawn of a joined line with these countries on its sides. -/
structure NamesSides (k : Kernel α ρ) (layer : Layer α) (visits : List (Visit α))
    (j : Attribution.Joined α) (f : Feature α) (sides : Bordering) : Prop where
  found : (Bordering.ofLine k.inside (layer.outlines k) j.group.regions.toList j.line).result =
    .ok sides
  drawn : ∃ degrees, j.line.toDegrees = .ok degrees ∧ f.geometry = some (.line degrees)
  left : Named k layer visits j.group sides.left (f.attrs.get? "adm0_l")
  right : Named k layer visits j.group sides.right (f.attrs.get? "adm0_r")
  different : ∀ id, sides.left = some id → sides.right ≠ some id

/-- A way that waits in a group is a border of each country of the group. -/
theorem relation_of_visit {layer : Layer α} {ways : List (MapWay α)} {v : Visit α} {g : Group}
    (hv : v ∈ layer.visits ways) (hg : v.result = .ok (some (.deferred g))) {id : Int}
    (hid : id ∈ g.regions) : ∃ r ∈ v.way.relations, r.id = id ∧ r.level = 2 := by
  rw [visits_eq_map] at hv
  obtain ⟨w, -, rfl⟩ := List.mem_map.mp hv
  obtain ⟨s, line, ha, hs⟩ := visit_deferred.mp hg
  exact Summary.relation_of_group? (Way.accepted?_eq_some_iff.mp ha).1 hs hid

/-- A country found among those of a group is named. -/
theorem named_of_mem {k : Kernel α ρ} {input layer : Layer α} {ways : List (MapWay α)} {g : Group}
    {country : Option Int} (hcodes : layer.codes.Spelled) (hg : g.Regular layer.codes)
    (h : ∀ id, country = some id →
      id ∈ g.regions.toList ∧ (layer.outlines k).contains id = true) :
    Named k layer (input.visits ways) g country
      ((layer.codes.code? country).map Value.text) := by
  have hcode : ∀ id, country = some id → ∃ code,
      layer.codes.get? (some id) = some (some code) ∧ layer.codes.code? (some id) = some code :=
    fun id hid => hcodes.code?_of_holds (hg.coded id (h id hid).1)
  refine ⟨?_, h, ?_, fun id hid v hv hr => relation_of_visit hv hr (h id hid).1⟩
  · cases country with
    | none => exact Iff.rfl
    | some id =>
        obtain ⟨code, -, hc⟩ := hcode id rfl
        simp [hc]
  · rintro id rfl
    obtain ⟨code, hget, hc⟩ := hcode id rfl
    exact ⟨code, hget, by rw [hc]; rfl⟩

/-- A joined line of a regular group is drawn with the countries found on its sides. -/
theorem namesSides_of_draw {k : Kernel α ρ} {input layer : Layer α} {ways : List (MapWay α)}
    {j : Attribution.Joined α} {f : Feature α} (hcodes : layer.codes.Spelled)
    (hg : j.group.Regular layer.codes)
    (h : (j.draw k (layer.outlines k) layer.codes).result = .ok f) :
    ∃ sides, NamesSides k layer (input.visits ways) j f sides := by
  obtain ⟨sides, degrees, hsides, hdegrees, rfl⟩ := Attribution.Joined.draw_eq_ok.mp h
  refine ⟨sides, hsides, ⟨degrees, hdegrees, rfl⟩, ?_, ?_, fun id =>
    Bordering.ofLine_left_ne_right hsides⟩
  · rw [show (Feature.border degrees _).attrs.get? "adm0_l" = _ from Feature.Border.get?_left _]
    exact named_of_mem hcodes hg fun id hid => Bordering.ofLine_mem hsides (.inl hid)
  · rw [show (Feature.border degrees _).attrs.get? "adm0_r" = _ from Feature.Border.get?_right _]
    exact named_of_mem hcodes hg fun id hid => Bordering.ofLine_mem hsides (.inr hid)

/-- **The countries on the sides of what is drawn at the end.**  The lines of a group are those of the
ways that wait in it; they are joined and drawn in order, all of them unless a fault comes up, and
every feature names the countries found on its sides. -/
theorem finish_names_sides (k : Kernel α ρ) (names : Bool) (relations : List (Int × Tags))
    (ways : List (MapWay α)) :
    let input : Layer α := (new names []).enterRelations relations
    let layer := input.enterWays ways
    let visits := input.visits ways
    (∀ g, layer.pools.groups.listOf g = visits.filterMap (Visit.waiting? g)) ∧
    ∃ done emitted, (layer.finish k).layer.features = layer.features ++ emitted ∧
      done <+: Attribution.joined k 0 layer.pools.groups.entries ∧
      ((∃ count, (layer.finish k).result = .ok count) →
        done = Attribution.joined k 0 layer.pools.groups.entries) ∧
      List.Forall₂ (fun j f => ∃ sides, NamesSides k layer visits j f sides) done emitted := by
  intro input layer visits
  obtain ⟨-, hempty, hunfinished, -⟩ := enterRelations_new (α := α) names relations
  obtain ⟨-, -, hcodes, hfinished⟩ := input.enterWays_frame ways
  have hspelled : layer.codes.Spelled :=
    hcodes ▸ spelled_enterRelations CountryCodes.spelled_empty relations
  have hsound : layer.Sound := ((sound_new names []).enterRelations relations).enterWays ways
  obtain ⟨done, emitted, hfeatures, hfirst, hdrawn, hall⟩ :=
    finish_features k (hfinished.trans hunfinished)
  refine ⟨listOf_groups_of_empty hempty ways, done, emitted, hfeatures, hfirst, ?_, ?_⟩
  · rintro ⟨count, hcount⟩
    exact (hall count hcount).1
  · have hregular : ∀ j ∈ done, j.group.Regular layer.codes := by
      intro j hj
      obtain ⟨lines, hmem, -⟩ := Attribution.mem_joined (hfirst.subset hj)
      exact hsound.regular _ lines (Table.mem_entries_iff.mp hmem)
    refine ((List.forall₂_and_left done emitted).mpr ⟨hregular, hdrawn⟩).imp ?_
    rintro j f ⟨hj, hf⟩
    exact namesSides_of_draw hspelled hj hf

end BorderTiles.Layer
