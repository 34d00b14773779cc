import BorderTiles.Proofs.Feature
import BorderTiles.Proofs.Layer.Reachable

/-!
# Layer — with and without country names

Two layers meet the same input, and only one of them wants country names (`Twins`).

* They keep the same lines for the outlines (`Twins.enterWays`).
* What the one with names draws at once is what the other draws for the same ways
  (`Twins.drawn_eq`).
* The one without names has no group, draws nothing at the end and shows no country
  (`finish_of_unnamed`, `unnamed_of_mem_drawn`).
* What the one with names draws at the end for a group is, but for the geometry and the countries,
  what the other has drawn for each way that waits in the group (`Twins.agrees`).

`finish_with_and_without_names` puts the four together.
-/

namespace BorderTiles

/-- A feature that is another one but for its geometry, its number and the countries it names. -/
structure Feature.Renames {α : Type} (f plain : Feature α) : Prop where
  layer : f.layer = plain.layer
  minZoom : f.minZoom = plain.minZoom
  maxZoom : f.maxZoom = plain.maxZoom
  buffer : f.buffer = plain.buffer
  attrs : (f.attrs.erase "adm0_l").erase "adm0_r" = plain.attrs

/-- What is drawn for a group, without the countries, is what is drawn at once for a way of it. -/
theorem Summary.renames_of_group? {α : Type} {tags : Tags} {relations : List Relation}
    {codes : CountryCodes} {s : Summary} {names : Bool} {g : Group}
    (hs : Summary.of? tags relations codes = some s) (hg : s.group? names = some g)
    (line degrees : Line α) (number : Nat) (sides : Bordering) (id : Int) :
    (Feature.border line (g.border codes number sides)).Renames
      (Feature.border degrees (s.border id)) := by
  obtain ⟨-, -, rfl⟩ := Summary.group?_eq_some_iff.mp hg
  -- a name is left out only where there is none: it comes with a dispute
  have hname : (if s.disputed then s.disputedName else none) = s.disputedName := by
    split
    · rfl
    · next h => exact (Summary.calm_of_of? hs (Bool.eq_false_iff.mpr h)).2.symm
  refine ⟨rfl, rfl, rfl, rfl, ?_⟩
  show ((Feature.Border.attrs _).erase "adm0_l").erase "adm0_r" = (s.border id).attrs
  rw [Feature.Border.erase_sides]
  simp only [Group.border, hname]
  rfl

namespace Layer
variable {α ρ : Type}

/-- Two layers that have met the same input, the first one wanting country names. -/
structure Twins (named plain : Layer α) : Prop where
  wanted : named.countryNames = true
  unwanted : plain.countryNames = false
  relations : named.relations = plain.relations
  codes : named.codes = plain.codes
  regions : named.pools.regions = plain.pools.regions

theorem twins_new (features : List (Feature α)) : Twins (new true features) (new false features) :=
  ⟨rfl, rfl, rfl, rfl, rfl⟩

theorem Twins.enterRelation {named plain : Layer α} (h : named.Twins plain) (id : Int)
    (tags : Tags) : (named.enterRelation id tags).2.Twins (plain.enterRelation id tags).2 := by
  obtain ⟨hn, hn', hr, hc, hp⟩ := h
  cases hrel : Relation.ofTags? id tags with
  | none =>
      simp only [Layer.enterRelation, Relation.enter, hrel]
      exact ⟨hn, hn', hr, hc, hp⟩
  | some r =>
      simp only [Layer.enterRelation, Relation.enter, hrel]
      exact ⟨hn, hn', by rw [hr], by rw [hc], hp⟩

theorem Twins.enterRelations {named plain : Layer α} (h : named.Twins plain)
    (relations : List (Int × Tags)) :
    (named.enterRelations relations).Twins (plain.enterRelations relations) := by
  induction relations generalizing named plain with
  | nil => exact h
  | cons r rest ih => exact ih (h.enterRelation r.1 r.2)

theorem Twins.resolve {named plain : Layer α} (h : named.Twins plain) (w : MapWay α) :
    named.resolve w = plain.resolve w :=
  resolve_congr h.relations w

variable [Mercator α] {named plain : Layer α}

/-- The lines for the outlines do not depend on whether a line waits in a group. -/
theorem Twins.enterWay (h : named.Twins plain) (w : Way α) :
    (named.enterWay w).layer.Twins (plain.enterWay w).layer := by
  obtain ⟨hn, hr, hc, -⟩ := named.enterWay_frame w
  obtain ⟨hn', hr', hc', -⟩ := plain.enterWay_frame w
  refine ⟨hn.trans h.wanted, hn'.trans h.unwanted, hr.trans (h.relations.trans hr'.symm),
    hc.trans (h.codes.trans hc'.symm), ?_⟩
  rw [enterWay_layer, enterWay_layer, h.codes]
  cases w.accepted? plain.codes with
  | none => exact h.regions
  | some e => simp only [taking, Pools.add, h.regions]

theorem Twins.enterWays (h : named.Twins plain) (ways : List (MapWay α)) :
    (named.enterWays ways).Twins (plain.enterWays ways) := by
  induction ways generalizing named plain with
  | nil => exact h
  | cons w rest ih =>
      rw [enterWays_cons, enterWays_cons, h.resolve]
      exact ih (h.enterWay _)

/-! ### Without names -/

/-- Without names no line waits in a group. -/
theorem groups_enterWays_of_unnamed (h : plain.countryNames = false) (ways : List (MapWay α)) :
    (plain.enterWays ways).pools.groups = plain.pools.groups := by
  induction ways generalizing plain with
  | nil => rfl
  | cons w rest ih =>
      rw [enterWays_cons, ih ((plain.enterWay_frame _).1.trans h), enterWay_layer]
      split
      · simp only [taking, Pools.add, h, Summary.group?_false, Option.elim_none]
      · rfl

/-- Without a group the first finish draws nothing. -/
theorem finish_of_unnamed {k : Kernel α ρ} (hf : plain.finished = false)
    (hg : plain.pools.groups = ∅) : (plain.finish k).result = .ok 0 ∧
      (plain.finish k).layer.features = plain.features ∧
      (plain.finish k).layer.pools.groups = ∅ := by
  obtain ⟨hresult, hlayer⟩ := finish_of_not_finished (k := k) hf
  have hnothing : plain.attribution k = ⟨[], [], [], .ok 0⟩ := by
    simp only [attribution, attributeGroups, hg]
    rfl
  rw [hresult, hlayer, hnothing]
  exact ⟨rfl, List.append_nil _, rfl⟩

/-- What is drawn at once names no country. -/
theorem unnamed_of_mem_drawn {layer : Layer α} {w : MapWay α} {f : Feature α}
    (h : f ∈ (layer.visit w).drawn) :
    f.attrs.get? "adm0_l" = none ∧ f.attrs.get? "adm0_r" = none := by
  rw [visit_drawn] at h
  split at h
  · rw [drawnAtOnce] at h
    split at h
    · obtain rfl := List.mem_singleton.mp h
      exact ⟨Feature.Border.get?_left _, Feature.Border.get?_right _⟩
    · cases h
  · cases h

/-! ### One way under both layers -/

/-- What is drawn for a way while names are wanted: what is drawn without, if it is drawn at once. -/
theorem Twins.drawn_eq (h : named.Twins plain) (w : MapWay α) : (named.visit w).drawn =
    if (named.visit w).result = .ok (some .immediate) then (plain.visit w).drawn else [] := by
  split
  · next himmediate =>
      obtain ⟨s, line, degrees, ha, hg, hd⟩ := visit_immediate.mp himmediate
      rw [visit_drawn, visit_drawn, ← h.resolve, ← h.codes, ha]
      simp only [drawnAtOnce, hg, h.unwanted, Summary.group?_false]
  · next hno => exact drawn_eq_nil hno

/-- **A way that waits in a group** is drawn without names as the group is with them. -/
theorem Twins.agrees (h : named.Twins plain) {w : MapWay α} {g : Group}
    (hw : (named.visit w).result = .ok (some (.deferred g))) :
    ((∃ fault, (plain.visit w).result = .error fault) ∨ ∃ f, (plain.visit w).drawn = [f]) ∧
      ∀ f ∈ (plain.visit w).drawn, ∀ line number sides,
        (Feature.border line (g.border named.codes number sides)).Renames f := by
  obtain ⟨s, line, ha, hg⟩ := visit_deferred.mp hw
  have hs : Summary.of? (named.resolve w).tags (named.resolve w).relations named.codes = some s :=
    (Way.accepted?_eq_some_iff.mp ha).1
  have ha' : (plain.resolve w).accepted? plain.codes = some (s, line) := by
    rw [← h.resolve, ← h.codes, ha]
  have hresult : (plain.visit w).result = line.toDegrees.map fun _ => some .immediate := by
    simp only [visit, enterWay_of_accepted ha', enterLine_result, h.unwanted, Summary.group?_false]
  rw [visit_drawn, hresult, ha', h.unwanted]
  simp only [drawnAtOnce, Summary.group?_false]
  cases hd : line.toDegrees with
  | error fault => exact ⟨.inl ⟨fault, rfl⟩, fun f hf => absurd hf List.not_mem_nil⟩
  | ok degrees =>
      refine ⟨.inr ⟨_, rfl⟩, ?_⟩
      intro f hf line number sides
      obtain rfl := List.mem_singleton.mp hf
      exact Summary.renames_of_group? hs hg line degrees number sides w.id

/-! ### Two runs over the same input -/

/-- What two layers have in common once they have met the same ways, of which `visits` says what came
of each in the one and in the other. -/
structure AgreeOnWays (named plain : Layer α) (visits : List (Visit α × Visit α)) : Prop where
  regions : named.pools.regions = plain.pools.regions
  plain_features : plain.features = visits.flatMap fun v => v.2.drawn
  named_features : named.features =
    (visits.filter fun v => v.1.result = .ok (some .immediate)).flatMap fun v => v.2.drawn

/-- What holds of a run without names: no line ever waits in a group, the end draws nothing, and no
country is shown. -/
structure Nameless (k : Kernel α ρ) (input : Layer α) (ways : List (MapWay α)) : Prop where
  groups : ∀ n, (input.enterWays (ways.take n)).pools.groups = ∅
  groups_finish : ((input.enterWays ways).finish k).layer.pools.groups = ∅
  result_finish : ((input.enterWays ways).finish k).result = .ok 0
  features_finish : ((input.enterWays ways).finish k).layer.features =
    (input.enterWays ways).features
  unnamed : ∀ f ∈ (input.enterWays ways).features,
    f.attrs.get? "adm0_l" = none ∧ f.attrs.get? "adm0_r" = none

/-- What is drawn of a joined line at the end is, but for its countries, what was drawn without names
for each way that waits in its group; that is one feature, unless a fault came up. -/
def AgreesAtEnd (visits : List (Visit α × Visit α)) (j : Attribution.Joined α) (f : Feature α) :
    Prop :=
  ∀ v ∈ visits, v.1.result = .ok (some (.deferred j.group)) →
    ((∃ fault, v.2.result = .error fault) ∨ ∃ plain, v.2.drawn = [plain]) ∧
      ∀ plain ∈ v.2.drawn, f.Renames plain

/-- What came of each way under both layers. -/
theorem zip_visits (named plain : Layer α) (ways : List (MapWay α)) :
    (named.visits ways).zip (plain.visits ways) =
      ways.map fun w => (named.visit w, plain.visit w) := by
  rw [visits_eq_map, visits_eq_map, List.zip_map']

theorem Twins.agreeOnWays (h : named.Twins plain) (hn : named.features = [])
    (hp : plain.features = []) (ways : List (MapWay α)) :
    AgreeOnWays (named.enterWays ways) (plain.enterWays ways)
      ((named.visits ways).zip (plain.visits ways)) where
  regions := (h.enterWays ways).regions
  plain_features := by
    rw [enterWays_features, hp, List.nil_append, zip_visits, visits_eq_map, List.flatMap_map,
      List.flatMap_map]
  named_features := by
    rw [enterWays_features, hn, List.nil_append, zip_visits, visits_eq_map, List.flatMap_map]
    clear hn hp
    induction ways with
    | nil => rfl
    | cons w rest ih =>
        rw [List.flatMap_cons, List.map_cons, List.filter_cons, ih, h.drawn_eq]
        by_cases himmediate : (named.visit w).result = .ok (some .immediate)
        · simp only [himmediate, decide_true, if_true, List.flatMap_cons]
        · simp only [himmediate, decide_false, if_false, Bool.false_eq_true, List.nil_append]

theorem Twins.agreesAtEnd (h : named.Twins plain) {k : Kernel α ρ} {regions : Table Int ρ}
    {j : Attribution.Joined α} {f : Feature α}
    (hf : (j.draw k regions named.codes).result = .ok f) (ways : List (MapWay α)) :
    AgreesAtEnd ((named.visits ways).zip (plain.visits ways)) j f := by
  intro v hv hwaits
  rw [zip_visits] at hv
  obtain ⟨w, -, rfl⟩ := List.mem_map.mp hv
  obtain ⟨sides, degrees, -, -, rfl⟩ := Attribution.Joined.draw_eq_ok.mp hf
  obtain ⟨hone, hagrees⟩ := h.agrees hwaits
  exact ⟨hone, fun drawn hdrawn => hagrees drawn hdrawn degrees j.number sides⟩

theorem nameless {k : Kernel α ρ} {input : Layer α} (hn : input.countryNames = false)
    (hf : input.finished = false) (hg : input.pools.groups = ∅) (hd : input.features = [])
    (ways : List (MapWay α)) : Nameless k input ways := by
  have hgroups : ∀ met, (input.enterWays met).pools.groups = ∅ := by
    intro met
    exact (groups_enterWays_of_unnamed hn met).trans hg
  obtain ⟨-, -, -, hfinished⟩ := input.enterWays_frame ways
  obtain ⟨hresult, hfeatures, hleft⟩ :=
    finish_of_unnamed (k := k) (hfinished.trans hf) (hgroups ways)
  refine ⟨fun n => hgroups _, hleft, hresult, hfeatures, ?_⟩
  rw [enterWays_features, hd, List.nil_append, visits_eq_map]
  intro f hmem
  obtain ⟨v, hv, hf⟩ := List.mem_flatMap.mp hmem
  obtain ⟨w, -, rfl⟩ := List.mem_map.mp hv
  exact unnamed_of_mem_drawn hf

/-- **The same input with and without country names.**  Until the end the two layers differ only in
the lines that wait; at the end the one with names draws these lines as the other has drawn their ways,
but joined and with countries. -/
theorem finish_with_and_without_names (k : Kernel α ρ) (relations : List (Int × Tags))
    (ways : List (MapWay α)) :
    let input : Layer α := (new true []).enterRelations relations
    let plain : Layer α := (new false []).enterRelations relations
    let layer := input.enterWays ways
    let visits := (input.visits ways).zip (plain.visits ways)
    AgreeOnWays layer (plain.enterWays ways) visits ∧ Nameless k plain ways ∧
    (∀ g, layer.pools.groups.listOf g = (input.visits ways).filterMap (Visit.waiting? g)) ∧
    ∃ done emitted, (layer.finish k).layer.features = layer.features ++ emitted ∧
      done <+: Attribution.joined k 0 layer.pools.groups.entries ∧
      ((∃ count, (layer.finish k).result = .ok count) →
        done = Attribution.joined k 0 layer.pools.groups.entries) ∧
      List.Forall₂ (AgreesAtEnd visits) done emitted := by
  intro input plain layer visits
  obtain ⟨-, hempty, hunfinished, hdrawn⟩ := enterRelations_new (α := α) true relations
  obtain ⟨hunwanted, hempty', hunfinished', hdrawn'⟩ := enterRelations_new (α := α) false relations
  obtain ⟨-, -, hcodes, hfinished⟩ := input.enterWays_frame ways
  have htwins : input.Twins plain := (twins_new []).enterRelations relations
  refine ⟨htwins.agreeOnWays hdrawn hdrawn' ways,
    nameless hunwanted hunfinished' hempty' hdrawn' ways, listOf_groups_of_empty hempty ways, ?_⟩
  obtain ⟨done, emitted, hfeatures, hfirst, hdraws, hall⟩ :=
    finish_features k (hfinished.trans hunfinished)
  rw [hcodes] at hdraws
  exact ⟨done, emitted, hfeatures, hfirst, fun ⟨count, hcount⟩ => (hall count hcount).1,
    hdraws.imp fun j f hf => htwins.agreesAtEnd hf ways⟩

end Layer
end BorderTiles
