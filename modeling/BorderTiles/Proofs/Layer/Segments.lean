import BorderTiles.Proofs.Layer.Visits
import BorderTiles.Proofs.Segments

/-!
# Layer — no segment is lost or doubled

A line that is part of a border takes one of two ways into the features: it is drawn at once, or it
waits, is joined with others and drawn at the end.

* `visit_balance`, `visits_balance`: what is met is drawn or waits, segment by segment.
* `drawnAs_visits`: what is drawn at once are the lines of the ways, in degrees.
* `segmentsOf_joined`, `draw_ok`: joining the lines that wait keeps their segments, and all joined
  lines can be drawn.

`finish_keeps_segments` puts the two ways together for a whole run.
-/

namespace BorderTiles

/-- A feature that shows a line, in degrees. -/
def Line.DrawnAs {α : Type} [Mercator α] (l : Line α) (f : Feature α) : Prop :=
  ∃ degrees, l.toDegrees = .ok degrees ∧ f.geometry = some (.line degrees)

namespace Attribution
variable {α ρ : Type}

theorem segmentsOf_le_of_mem {groups : List (Group × List (Line α))} {g : Group}
    {lines : List (Line α)} (h : (g, lines) ∈ groups) :
    segmentsOf lines ≤ segmentsOf (groups.flatMap Prod.snd) := by
  obtain ⟨before, after, rfl⟩ := List.append_of_mem h
  rw [List.flatMap_append, List.flatMap_cons, segmentsOf_append, segmentsOf_append]
  exact le_trans (Multiset.le_add_right _ _) (Multiset.le_add_left _ _)

variable [Mercator α] {k : Kernel α ρ}

/-- Joining the lines of groups keeps their segments. -/
theorem segmentsOf_joined (hk : k.KeepsSegments) {groups : List (Group × List (Line α))}
    (h : ∀ g lines, (g, lines) ∈ groups → ∀ l ∈ lines, l.Projected) (number : Nat) :
    segmentsOf ((joined k number groups).map Joined.line) =
      segmentsOf (groups.flatMap Prod.snd) := by
  induction groups generalizing number with
  | nil => rfl
  | cons e rest ih =>
      obtain ⟨g, lines⟩ := e
      obtain ⟨hsegments, -⟩ := hk.merge_spec (h g lines List.mem_cons_self)
      have hrest := ih (fun a ls hmem => h a ls (List.mem_cons_of_mem _ hmem)) (number + 1)
      have hhere : ((k.merge lines).map (Joined.mk (number + 1) g)).map Joined.line =
          k.merge lines := by
        rw [List.map_map]
        exact List.map_id _
      rw [joined, List.map_append, hhere, segmentsOf_append, hsegments, hrest, List.flatMap_cons,
        segmentsOf_append]

/-- A joined line of projected lines can be drawn. -/
theorem draw_ok (hk : k.KeepsSegments) {size : Nat} (hα : Mercator.Regular α size)
    {groups : List (Group × List (Line α))}
    (h : ∀ g lines, (g, lines) ∈ groups → ∀ l ∈ lines, l.Projected)
    (hsize : (segmentsOf (groups.flatMap Prod.snd)).card < size) (regions : Table Int ρ)
    (codes : CountryCodes) {number : Nat} {j : Joined α} (hj : j ∈ joined k number groups) :
    ∃ f, (j.draw k regions codes).result = .ok f := by
  obtain ⟨lines, hmem, hline⟩ := mem_joined hj
  have hlines : ∀ l ∈ lines, l.Projected := h _ _ hmem
  have hpoints : ∀ p ∈ j.line, p.OnMap := fun p hp => (hk.projected hlines hline p hp).onMap
  have htwo : 2 ≤ j.line.length := (hk.merge_spec hlines).2 _ hline
  have hlength : j.line.length ≤ size :=
    calc j.line.length ≤ (segmentsOf lines).card + 1 := hk.length_le hlines hline
      _ ≤ (segmentsOf (groups.flatMap Prod.snd)).card + 1 :=
        Nat.add_le_add_right (Multiset.card_le_card (segmentsOf_le_of_mem hmem)) 1
      _ ≤ size := hsize
  exact Joined.draw_ok (Line.drawable_of_onMap hα hpoints htwo hlength) regions codes

theorem Joined.drawnAs {regions : Table Int ρ} {codes : CountryCodes} {j : Joined α}
    {f : Feature α} (h : (j.draw k regions codes).result = .ok f) : j.line.DrawnAs f := by
  obtain ⟨-, degrees, -, hdegrees, rfl⟩ := Joined.draw_eq_ok.mp h
  exact ⟨degrees, hdegrees, rfl⟩

end Attribution

namespace Layer
variable {α ρ : Type}

/-- All lines that wait. -/
def waitingLines (layer : Layer α) : List (Line α) := layer.pools.groups.entries.flatMap Prod.snd

theorem waitingLines_of_empty {layer : Layer α} (h : layer.pools.groups = ∅) :
    layer.waitingLines = [] := by
  rw [waitingLines, h]
  rfl

theorem segmentsOf_filterMap_cons {τ : Type} (f : τ → Option (Line α)) (x : τ) (xs : List τ) :
    segmentsOf ((x :: xs).filterMap f) = segmentsOf (f x).toList + segmentsOf (xs.filterMap f) := by
  rw [← segmentsOf_append, List.filterMap_cons]
  cases f x <;> rfl

variable [Mercator α]

/-! ### One way -/

/-- A line that is taken joins those that wait, or is drawn. -/
theorem perm_waitingLines_taking (layer : Layer α) (id : Int) (s : Summary) (line : Line α) :
    (layer.taking id s line).waitingLines.Perm
      (((s.group? layer.countryNames).map fun _ => line).toList ++ layer.waitingLines) := by
  cases hg : s.group? layer.countryNames with
  | none => simp [waitingLines, taking, Pools.add, hg]
  | some g =>
      have hperm := Table.gather_append (fun _ => true) layer.pools.groups g line
      simp only [Table.gather, List.filter_true] at hperm
      simp only [waitingLines, taking, Pools.add, hg, Option.elim_some, Option.map_some]
      exact hperm

theorem waitingLines_taking (layer : Layer α) (id : Int) (s : Summary) (line : Line α) :
    segmentsOf (layer.taking id s line).waitingLines =
      segmentsOf ((s.group? layer.countryNames).map fun _ => line).toList +
        segmentsOf layer.waitingLines := by
  rw [segmentsOf_perm (layer.perm_waitingLines_taking id s line), segmentsOf_append]

/-- **One way**: its line, if it is part of a border, is drawn at once or waits. -/
theorem visit_balance (hα : Mercator.Reversible α) (layer : Layer α) (w : MapWay α) :
    segmentsOf (layer.visit w).line?.toList + segmentsOf layer.waitingLines =
      segmentsOf (layer.visit w).immediate?.toList +
        segmentsOf (layer.enterWay (layer.resolve w)).layer.waitingLines := by
  rw [Visit.immediate?, visit_line?, enterWay_layer]
  cases ha : (layer.resolve w).accepted? layer.codes with
  | none => simp
  | some e =>
      obtain ⟨s, line⟩ := e
      obtain ⟨-, hline⟩ := Way.accepted?_eq_some_iff.mp ha
      -- a line on the map has degrees, so it does not wait only if it is drawn
      obtain ⟨degrees, hdegrees⟩ := Line.toDegrees_ok hα (Line.onMap_of_ofDegrees hline)
      have himmediate : (layer.visit w).result = .ok (some .immediate) ↔
          s.group? layer.countryNames = none := by
        rw [visit_immediate, ha]
        exact ⟨by rintro ⟨_, _, _, h, hg, -⟩; cases h; exact hg,
          fun hg => ⟨s, line, degrees, rfl, hg, hdegrees⟩⟩
      simp only [himmediate, waitingLines_taking]
      cases s.group? layer.countryNames <;> simp

/-- What is drawn at a way is its line, if that is drawn at once. -/
theorem drawnAs_visit (layer : Layer α) (w : MapWay α) :
    List.Forall₂ Line.DrawnAs (layer.visit w).immediate?.toList (layer.visit w).drawn := by
  rw [Visit.immediate?]
  split
  · next himmediate =>
      obtain ⟨s, line, degrees, ha, hg, hd⟩ := visit_immediate.mp himmediate
      simp only [visit_line?, visit_drawn, ha, drawnAtOnce, hg, hd]
      exact .cons ⟨degrees, hd, rfl⟩ .nil
  · next hno =>
      rw [drawn_eq_nil hno]
      exact .nil

/-! ### Many ways -/

/-- **Many ways**: their lines, if they are part of a border, are drawn at once or wait. -/
theorem visits_balance (hα : Mercator.Reversible α) (layer : Layer α) (ways : List (MapWay α)) :
    segmentsOf ((layer.visits ways).filterMap Visit.line?) + segmentsOf layer.waitingLines =
      segmentsOf ((layer.visits ways).filterMap Visit.immediate?) +
        segmentsOf (layer.enterWays ways).waitingLines := by
  induction ways generalizing layer with
  | nil => rfl
  | cons w rest ih =>
      have hstep := visit_balance hα layer w
      have hrun := ih (layer.enterWay (layer.resolve w)).layer
      rw [visits, segmentsOf_filterMap_cons, segmentsOf_filterMap_cons, enterWays_cons,
        add_right_comm, hstep, add_assoc, add_assoc, ← hrun]
      exact congrArg _ (add_comm _ _)

/-- What is drawn at ways are the lines that are drawn at once, in their order. -/
theorem drawnAs_visits (layer : Layer α) (ways : List (MapWay α)) :
    List.Forall₂ Line.DrawnAs ((layer.visits ways).filterMap Visit.immediate?)
      ((layer.visits ways).flatMap Visit.drawn) := by
  rw [visits_eq_map, List.filterMap_eq_flatMap_toList]
  induction ways with
  | nil => exact .nil
  | cons w rest ih => exact List.rel_append (drawnAs_visit layer w) ih

/-- Where no line has waited before, only lines of ways wait. -/
theorem projected_of_waiting {layer : Layer α} (hempty : layer.pools.groups = ∅)
    {ways : List (MapWay α)} (hways : ∀ w ∈ ways, ∀ position ∈ w.positions, FinitePosition position)
    {g : Group} {lines : List (Line α)}
    (h : (g, lines) ∈ (layer.enterWays ways).pools.groups.entries) : ∀ l ∈ lines, l.Projected := by
  have hlines : lines = (layer.visits ways).filterMap (Visit.waiting? g) :=
    calc lines = (layer.enterWays ways).pools.groups.listOf g := by
          rw [Table.listOf, Table.mem_entries_iff.mp h, Option.getD_some]
      _ = (layer.visits ways).filterMap (Visit.waiting? g) :=
          listOf_groups_of_empty hempty ways g
  intro l hl
  rw [hlines, visits_eq_map] at hl
  obtain ⟨v, hv, hwait⟩ := List.mem_filterMap.mp hl
  obtain ⟨w, hw, rfl⟩ := List.mem_map.mp hv
  exact Line.ofDegrees_projected (hways w hw) (Visit.line?_eq_some (Visit.line?_of_waiting? hwait))

/-! ### A whole run -/

/-- The lines that are drawn: those of the ways that are drawn at once, then the joined ones. -/
def drawnLines (k : Kernel α ρ) (layer : Layer α) (ways : List (MapWay α)) : List (Line α) :=
  (layer.visits ways).filterMap Visit.immediate? ++
    (Attribution.joined k 0 (layer.enterWays ways).pools.groups.entries).map (·.line)

/-- **No segment is lost or doubled.**  A run over relations and ways comes to its end; its features
show the drawn lines in degrees; and the drawn lines have the segments of the ways that are part of a
border, each as often as there.  The numbers have to count no further than the points of a line through
all of these segments. -/
theorem finish_keeps_segments {k : Kernel α ρ} (hk : k.KeepsSegments) (names : Bool)
    (relations : List (Int × Tags)) {ways : List (MapWay α)}
    (hways : ∀ w ∈ ways, ∀ position ∈ w.positions, FinitePosition position)
    (hα : Mercator.Regular α ((segmentsOf ((((new names []).enterRelations relations).visits
      ways).filterMap Visit.line?)).card + 1)) :
    let input : Layer α := (new names []).enterRelations relations
    let finished := (input.enterWays ways).finish k
    (∃ count, finished.result = .ok count) ∧
      List.Forall₂ Line.DrawnAs (input.drawnLines k ways) finished.layer.features ∧
      segmentsOf (input.drawnLines k ways) =
        segmentsOf ((input.visits ways).filterMap Visit.line?) := by
  intro input finished
  obtain ⟨-, hempty, hunfinished, hdrawn⟩ := enterRelations_new (α := α) names relations
  obtain ⟨-, -, -, hfinished⟩ := input.enterWays_frame ways
  have hprojected : ∀ g lines, (g, lines) ∈ (input.enterWays ways).pools.groups.entries →
      ∀ l ∈ lines, l.Projected := fun g lines => projected_of_waiting hempty hways
  have hbalance : segmentsOf ((input.visits ways).filterMap Visit.line?) =
      segmentsOf ((input.visits ways).filterMap Visit.immediate?) +
        segmentsOf (input.enterWays ways).waitingLines := by
    rw [← visits_balance hα.reversible input ways, waitingLines_of_empty hempty, segmentsOf_nil,
      add_zero]
  have hwaiting : (segmentsOf (input.enterWays ways).waitingLines).card <
      (segmentsOf ((input.visits ways).filterMap Visit.line?)).card + 1 :=
    Nat.lt_succ_of_le (Multiset.card_le_card (hbalance ▸ Multiset.le_add_left _ _))
  obtain ⟨hresult, -⟩ := finish_of_not_finished (k := k) (hfinished.trans hunfinished)
  obtain ⟨done, emitted, hfeatures, -, hdraws, hall⟩ :=
    finish_features k (hfinished.trans hunfinished)
  obtain ⟨count, hcount⟩ := Attribution.ofGroups_ok_of_drawn fun j hj =>
    Attribution.draw_ok hk hα hprojected hwaiting ((input.enterWays ways).outlines k)
      (input.enterWays ways).codes hj
  obtain ⟨rfl, -⟩ := hall count (hresult.trans hcount)
  refine ⟨⟨count, hresult.trans hcount⟩, ?_, ?_⟩
  · rw [hfeatures, enterWays_features, hdrawn]
    refine List.rel_append (drawnAs_visits input ways) (List.forall₂_map_left_iff.mpr ?_)
    exact hdraws.imp fun j f => Attribution.Joined.drawnAs
  · rw [drawnLines, segmentsOf_append, Attribution.segmentsOf_joined hk hprojected, hbalance]
    rfl

/-- Two countries and a part of the first one. -/
def countries : List (Int × Tags) :=
  [(1, Relation.adminTags "2" (some "AAA")), (2, Relation.adminTags "2" (some "BBB")),
    (3, Relation.adminTags "4" none)]

/-- The border between the two, the rest of their outlines, and a border inside the first one. -/
def borders : List (MapWay Rat) :=
  [⟨10, ∅, [[0, 0], [0, Mercator.limit]], [1, 2]⟩,
    ⟨11, ∅, [[0, Mercator.limit], [-90, Mercator.limit], [-90, 0], [0, 0]], [1]⟩,
    ⟨12, ∅, [[0, Mercator.limit], [90, Mercator.limit], [90, 0]], [2]⟩,
    ⟨13, ∅, [[90, 0], [0, 0]], [2]⟩,
    ⟨14, ∅, [[-45, 0], [-45, Mercator.limit]], [3]⟩]

/-- Four lines in three groups and one that is drawn at once: all eight segments are drawn. -/
theorem finish_keeps_segments_borders :
    let input : Layer Rat := (new true []).enterRelations countries
    let finished := (input.enterWays borders).finish Kernel.upright
    (∃ count, finished.result = .ok count) ∧
      List.Forall₂ Line.DrawnAs (input.drawnLines Kernel.upright borders) finished.layer.features ∧
      segmentsOf (input.drawnLines Kernel.upright borders) =
        segmentsOf ((input.visits borders).filterMap Visit.line?) ∧
      (segmentsOf (input.drawnLines Kernel.upright borders)).card = 8 := by
  have hfinite : ∀ w ∈ borders, ∀ position ∈ w.positions, FinitePosition position := by
    simp [borders, FinitePosition, finite_rat]
  obtain ⟨hresult, hdrawn, hsegments⟩ := finish_keeps_segments upright_keepsSegments true countries
    hfinite (regular_rat _)
  exact ⟨hresult, hdrawn, hsegments, by decide +kernel⟩

end Layer
end BorderTiles
