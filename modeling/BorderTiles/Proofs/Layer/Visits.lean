import BorderTiles.Proofs.Layer.Ways

/-!
# Layer — one way after another

A `MapWay` is a way whose memberships are ids, looked up when it is met (`Layer.resolve`).
`Layer.visit` is what comes of one way, `Layer.visits` what comes of one after another.

* `visits_eq_map`: no way changes what comes of a later one.
* `visit_deferred`, `visit_immediate`: when the line of a way waits, and when it is drawn at once.
* `enterWays_features`, `listOf_groups_enterWays`: the features, and the lines of a group, are those of
  the ways, in their order.
-/

namespace BorderTiles

/-- A way as the map has it, with the ids of the relations it is a member of. -/
structure MapWay (α : Type) where
  id : Int
  tags : Tags
  positions : List (List α)
  memberships : List Int

/-- What came of one way: the way with its memberships looked up, the answer, and the features drawn. -/
structure Visit (α : Type) where
  way : Way α
  result : Except Fault (Option Layer.Decision)
  drawn : List (Feature α)

namespace Visit
variable {α : Type} [Mercator α]

/-- The line of a way that is part of a border. -/
def line? (v : Visit α) : Option (Line α) :=
  if v.way.relations.isEmpty then none else (Line.ofDegrees v.way.positions).toOption

/-- The line of a way, if it waits in the group. -/
def waiting? (g : Group) (v : Visit α) : Option (Line α) :=
  if v.result = .ok (some (.deferred g)) then v.line? else none

/-- The line of a way, if it is drawn at once. -/
def immediate? (v : Visit α) : Option (Line α) :=
  if v.result = .ok (some .immediate) then v.line? else none

theorem line?_eq_some {v : Visit α} {l : Line α} (h : v.line? = some l) :
    Line.ofDegrees v.way.positions = .ok l :=
  Way.ofDegrees_of_line? h

/-- A line that waits is the line of its way. -/
theorem line?_of_waiting? {g : Group} {v : Visit α} {l : Line α} (h : v.waiting? g = some l) :
    v.line? = some l := by
  rw [waiting?] at h
  split at h
  · exact h
  · cases h

end Visit

namespace Layer
variable {α ρ : Type}

/-- A way with its memberships looked up. -/
def resolve (layer : Layer α) (w : MapWay α) : Way α :=
  ⟨w.id, w.tags, w.positions, layer.relationsOf w.memberships⟩

theorem resolve_congr {a b : Layer α} (hr : a.relations = b.relations) (w : MapWay α) :
    a.resolve w = b.resolve w := by
  simp only [resolve, relationsOf, hr]

/-- If all ids are stored, each gives its record. -/
theorem forall₂_relationsOf {layer : Layer α} {ids : List Int}
    (h : ∀ id ∈ ids, ∃ r, layer.relations.get? id = some r) :
    List.Forall₂ (fun id r => layer.relations.get? id = some r) ids (layer.relationsOf ids) := by
  rw [relationsOf]
  induction ids with
  | nil => exact .nil
  | cons id rest ih =>
      obtain ⟨r, hr⟩ := h id List.mem_cons_self
      rw [List.filterMap_cons_some hr]
      exact .cons hr (ih fun a ha => h a (List.mem_cons_of_mem id ha))

/-- The relations of an input are met. -/
def enterRelations (layer : Layer α) (relations : List (Int × Tags)) : Layer α :=
  relations.foldl (fun layer r => (layer.enterRelation r.1 r.2).2) layer

theorem enterRelations_frame (layer : Layer α) (relations : List (Int × Tags)) :
    (layer.enterRelations relations).countryNames = layer.countryNames ∧
      (layer.enterRelations relations).pools = layer.pools ∧
      (layer.enterRelations relations).finished = layer.finished ∧
      (layer.enterRelations relations).features = layer.features := by
  induction relations generalizing layer with
  | nil => exact ⟨rfl, rfl, rfl, rfl⟩
  | cons r rest ih =>
      obtain ⟨hn, hp, hf, hd⟩ := ih (layer.enterRelation r.1 r.2).2
      obtain ⟨hn', hp', hf', hd'⟩ := enterRelation_frame layer r.1 r.2
      exact ⟨hn.trans hn', hp.trans hp', hf.trans hf', hd.trans hd'⟩

/-- A relation that is accepted is stored, and one that has been stored stays so. -/
theorem stored_enterRelation {layer : Layer α} {id a : Int} {tags : Tags}
    (h : (∃ r, layer.relations.get? a = some r) ∨ (a = id ∧ (Relation.ofTags? id tags).isSome)) :
    ∃ r, (layer.enterRelation id tags).2.relations.get? a = some r := by
  rcases layer.enterRelation_cases id tags with e | ⟨r, -, e⟩
  · rcases h with h | ⟨-, haccepted⟩
    · rw [e]
      exact h
    · rw [← layer.enterRelation_record, e] at haccepted
      cases haccepted
  · simp only [e, Table.get?_put]
    split
    · exact ⟨r, rfl⟩
    · next hne => exact h.resolve_right fun hid => hne hid.1

/-- Every accepted relation of an input is stored. -/
theorem stored_enterRelations {layer : Layer α} {relations : List (Int × Tags)} {id : Int}
    (h : (∃ r, layer.relations.get? id = some r) ∨
      ∃ tags, (id, tags) ∈ relations ∧ (Relation.ofTags? id tags).isSome) :
    ∃ r, (layer.enterRelations relations).relations.get? id = some r := by
  induction relations generalizing layer with
  | nil => exact h.resolve_right (by simp)
  | cons r rest ih =>
      obtain ⟨a, tags⟩ := r
      refine ih ?_
      rcases h with h | ⟨tags', hmem, haccepted⟩
      · exact .inl (stored_enterRelation (.inl h))
      · rcases List.mem_cons.mp hmem with heq | hmem
        · cases heq
          exact .inl (stored_enterRelation (.inr ⟨rfl, haccepted⟩))
        · exact .inr ⟨tags', hmem, haccepted⟩

/-- After the relations of an input no line waits and nothing is drawn. -/
theorem enterRelations_new (names : Bool) (relations : List (Int × Tags)) :
    let input : Layer α := (new names []).enterRelations relations
    input.countryNames = names ∧ input.pools.groups = ∅ ∧ input.finished = false ∧
      input.features = [] := by
  intro input
  obtain ⟨hn, hp, hf, hd⟩ := enterRelations_frame (new names ([] : List (Feature α))) relations
  exact ⟨hn, congrArg Pools.groups hp, hf, hd⟩

theorem spelled_enterRelations {layer : Layer α} (h : layer.codes.Spelled)
    (relations : List (Int × Tags)) : (layer.enterRelations relations).codes.Spelled := by
  induction relations generalizing layer with
  | nil => exact h
  | cons r rest ih => exact ih (spelled_enterRelation h r.1 r.2)

variable [Mercator α]

/-- The ways of an input are met, each with its memberships as they stand then. -/
def enterWays (layer : Layer α) (ways : List (MapWay α)) : Layer α :=
  ways.foldl (fun layer w => (layer.enterWay (layer.resolve w)).layer) layer

/-- What comes of a way that is met now. -/
def visit (layer : Layer α) (w : MapWay α) : Visit α where
  way := layer.resolve w
  result := (layer.enterWay (layer.resolve w)).result
  drawn := (layer.enterWay (layer.resolve w)).layer.features.drop layer.features.length

/-- What comes of ways that are met one after another. -/
def visits (layer : Layer α) : List (MapWay α) → List (Visit α)
  | [] => []
  | w :: rest => layer.visit w :: (layer.enterWay (layer.resolve w)).layer.visits rest

theorem enterWays_cons (layer : Layer α) (w : MapWay α) (ways : List (MapWay α)) :
    layer.enterWays (w :: ways) = (layer.enterWay (layer.resolve w)).layer.enterWays ways := rfl

/-- The features drawn at a way. -/
theorem visit_drawn (layer : Layer α) (w : MapWay α) :
    (layer.visit w).drawn =
      match (layer.resolve w).accepted? layer.codes with
      | some (s, line) => drawnAtOnce layer.countryNames w.id s line
      | none => [] := by
  simp only [visit, enterWay_layer]
  cases (layer.resolve w).accepted? layer.codes with
  | none => exact List.drop_length
  | some e => exact List.drop_left

/-! ### When a line waits -/

/-- The line of a way that is part of a border is the one that is accepted. -/
theorem visit_line? (layer : Layer α) (w : MapWay α) :
    (layer.visit w).line? = ((layer.resolve w).accepted? layer.codes).map Prod.snd :=
  ((layer.resolve w).map_accepted? layer.codes).symm

theorem visit_deferred {layer : Layer α} {w : MapWay α} {g : Group} :
    (layer.visit w).result = .ok (some (.deferred g)) ↔
      ∃ s line, (layer.resolve w).accepted? layer.codes = some (s, line) ∧
        s.group? layer.countryNames = some g :=
  enterWay_deferred

theorem visit_immediate {layer : Layer α} {w : MapWay α} :
    (layer.visit w).result = .ok (some .immediate) ↔
      ∃ s line degrees, (layer.resolve w).accepted? layer.codes = some (s, line) ∧
        s.group? layer.countryNames = none ∧ line.toDegrees = .ok degrees :=
  enterWay_immediate

/-- Nothing is drawn at a way whose line is not drawn at once. -/
theorem drawn_eq_nil {layer : Layer α} {w : MapWay α}
    (h : (layer.visit w).result ≠ .ok (some .immediate)) : (layer.visit w).drawn = [] :=
  (visit_drawn layer w).trans (drawn_of_not_immediate h)

/-! ### Many ways -/

/-- What comes of a way depends on the relations, the codes and whether names are wanted only. -/
theorem visit_congr {a b : Layer α} (hn : a.countryNames = b.countryNames)
    (hr : a.relations = b.relations) (hc : a.codes = b.codes) (w : MapWay α) :
    a.visit w = b.visit w := by
  have hw : a.resolve w = b.resolve w := resolve_congr hr w
  have hd : (a.visit w).drawn = (b.visit w).drawn := by rw [visit_drawn, visit_drawn, hw, hn, hc]
  have hresult : (a.visit w).result = (b.visit w).result := by
    simp only [visit, hw]
    exact enterWay_result_congr hn hc _
  calc a.visit w = ⟨a.resolve w, (a.visit w).result, (a.visit w).drawn⟩ := rfl
    _ = ⟨b.resolve w, (b.visit w).result, (b.visit w).drawn⟩ := by rw [hw, hresult, hd]

/-- **No way changes what comes of a later one.** -/
theorem visits_eq_map (layer : Layer α) (ways : List (MapWay α)) :
    layer.visits ways = ways.map layer.visit := by
  induction ways generalizing layer with
  | nil => rfl
  | cons w rest ih =>
      obtain ⟨hn, hr, hc, -⟩ := enterWay_frame layer (layer.resolve w)
      rw [visits, ih, List.map_cons]
      exact congrArg _ (List.map_congr_left fun v _ => visit_congr hn hr hc v)

/-- The relations do not change while ways are met, so that all memberships can be looked up before. -/
theorem enterWays_eq (layer : Layer α) (ways : List (MapWay α)) :
    layer.enterWays ways = layer.enterEach (ways.map layer.resolve) := by
  induction ways generalizing layer with
  | nil => rfl
  | cons w rest ih =>
      obtain ⟨-, hr, -, -⟩ := enterWay_frame layer (layer.resolve w)
      have hrest : rest.map (layer.enterWay (layer.resolve w)).layer.resolve =
          rest.map layer.resolve :=
        List.map_congr_left fun v _ => resolve_congr hr v
      rw [enterWays_cons, ih, hrest]
      rfl

theorem enterWays_frame (layer : Layer α) (ways : List (MapWay α)) :
    (layer.enterWays ways).countryNames = layer.countryNames ∧
      (layer.enterWays ways).relations = layer.relations ∧
      (layer.enterWays ways).codes = layer.codes ∧
      (layer.enterWays ways).finished = layer.finished := by
  rw [enterWays_eq]
  exact enterEach_frame layer _

/-- The features of ways stand in the order of the ways. -/
theorem enterWays_features (layer : Layer α) (ways : List (MapWay α)) :
    (layer.enterWays ways).features =
      layer.features ++ (layer.visits ways).flatMap Visit.drawn := by
  have hdrawn : (layer.visits ways).flatMap Visit.drawn =
      (ways.map layer.resolve).flatMap layer.drawn := by
    rw [visits_eq_map, List.flatMap_map, List.flatMap_map]
    exact List.flatMap_congr fun w _ => visit_drawn layer w
  rw [enterWays_eq, enterEach_features, hdrawn]

/-- **The lines of a group** are those of the ways that wait in it, in their order. -/
theorem listOf_groups_enterWays (layer : Layer α) (ways : List (MapWay α)) (g : Group) :
    (layer.enterWays ways).pools.groups.listOf g =
      layer.pools.groups.listOf g ++ (layer.visits ways).filterMap (Visit.waiting? g) := by
  rw [enterWays_eq, listOf_groups_enterEach, visits_eq_map, List.filterMap_map, List.filterMap_map]
  rfl

/-- The lines of a group, if none has waited before. -/
theorem listOf_groups_of_empty {layer : Layer α} (h : layer.pools.groups = ∅)
    (ways : List (MapWay α)) (g : Group) : (layer.enterWays ways).pools.groups.listOf g =
      (layer.visits ways).filterMap (Visit.waiting? g) := by
  rw [listOf_groups_enterWays, h, Table.listOf_empty, List.nil_append]

end Layer
end BorderTiles
