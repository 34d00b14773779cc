import BorderTiles.Proofs.Layer.Segments

/-!
# Layer — a life in any order

`Layer.act` is one call on the layer, `Layer.run` one call after another, in whatever order and however
often: ways after the end, an end after a release, a release after a release.  A way brings its
relations, be they stored or not.

* `finished_run`: the layer has finished once it has been asked to.
* `features_run`: features stay as they are, and new ones come behind them.
* `Ready size`: the lines that wait are on the map and have no more than `size` points together.
  `Ready.act` for one call, `Ready.run` for all calls before the end.  `finish_ok`: so the first end is
  reached, if joining the lines keeps their points (`Kernel.KeepsPoints`) and the projection can be undone
  on the map and half way between two of its places (`Mercator.Regular`).
* `relations_run`: after a release no relation is stored until one is accepted.

`run_lifecycle` says all of this of every sequence of calls.
-/

namespace BorderTiles

/-- A call on the layer. -/
inductive Action (α : Type) where
  | relation (id : Int) (tags : Tags)
  | way (w : Way α)
  | finish
  | release

namespace Action
variable {α : Type}

/-- A relation that is noted. -/
def Accepted : Action α → Prop
  | .relation id tags => (Relation.ofTags? id tags).isSome = true
  | .way _ | .finish | .release => False

/-- The positions that come with a call. -/
def positions : Action α → Nat
  | .way w => w.positions.length
  | .relation .. | .finish | .release => 0

end Action

namespace Layer
variable {α ρ : Type} [Mercator α] {k : Kernel α ρ} {layer : Layer α} {size : Nat}

/-- The layer after a call. -/
def act (k : Kernel α ρ) (layer : Layer α) : Action α → Layer α
  | .relation id tags => (layer.enterRelation id tags).2
  | .way w => (layer.enterWay w).layer
  | .finish => (layer.finish k).layer
  | .release => layer.release

/-- The layer after calls. -/
def run (k : Kernel α ρ) (layer : Layer α) (actions : List (Action α)) : Layer α :=
  actions.foldl (act k) layer

theorem run_cons (layer : Layer α) (a : Action α) (actions : List (Action α)) :
    layer.run k (a :: actions) = (layer.act k a).run k actions := rfl

/-! ### The end -/

theorem finished_finish (k : Kernel α ρ) (layer : Layer α) :
    (layer.finish k).layer.finished = true := by
  cases hf : layer.finished with
  | true => rw [finish_of_finished hf]; exact hf
  | false => rw [(finish_of_not_finished hf).2]

/-- Only an end finishes the layer, and nothing takes that back. -/
theorem finished_act (k : Kernel α ρ) (layer : Layer α) (a : Action α) :
    (layer.act k a).finished = true ↔ layer.finished = true ∨ a = .finish := by
  cases a with
  | relation id tags => simp [act, (layer.enterRelation_frame id tags).2.2.1]
  | way w => simp [act, (layer.enterWay_frame w).2.2.2]
  | finish => simp [act, finished_finish]
  | release => simp [act, release]

/-- **The layer has finished** once it has been asked to. -/
theorem finished_run (k : Kernel α ρ) (layer : Layer α) (actions : List (Action α)) :
    (layer.run k actions).finished = true ↔ layer.finished = true ∨ .finish ∈ actions := by
  induction actions generalizing layer with
  | nil => simp [run]
  | cons a rest ih => rw [run_cons, ih, finished_act, List.mem_cons, or_assoc, eq_comm (a := a)]

/-! ### Features -/

/-- A call adds features behind those that are there, if any. -/
theorem features_act (k : Kernel α ρ) (layer : Layer α) (a : Action α) :
    layer.features <+: (layer.act k a).features := by
  cases a with
  | relation id tags =>
      rw [act, (layer.enterRelation_frame id tags).2.2.2]
  | way w =>
      rw [act, enterWay_drawn]
      exact List.prefix_append _ _
  | finish =>
      cases hf : layer.finished with
      | true => rw [act, finish_of_finished hf]
      | false =>
          rw [act, (finish_of_not_finished hf).2]
          exact List.prefix_append _ _
  | release => exact List.prefix_refl _

/-- **Features stay**, in their order, whatever is called. -/
theorem features_run (k : Kernel α ρ) (layer : Layer α) (actions : List (Action α)) :
    layer.features <+: (layer.run k actions).features := by
  induction actions generalizing layer with
  | nil => exact List.prefix_refl _
  | cons a rest ih => exact (layer.features_act k a).trans (ih _)

/-! ### After a release -/

/-- Only an accepted relation is stored. -/
theorem relations_act (h : layer.relations = ∅) {a : Action α} (ha : ¬ a.Accepted) :
    (layer.act k a).relations = ∅ := by
  cases a with
  | relation id tags =>
      rcases layer.enterRelation_cases id tags with e | ⟨r, hr, -⟩
      · rw [act, e]
        exact h
      · exact absurd (by rw [Action.Accepted, hr]; rfl) ha
  | way w => rw [act, (layer.enterWay_frame w).2.1, h]
  | finish => rw [act, (finish_frame k layer).2.1, h]
  | release => rfl

/-- **Without an accepted relation**, none is stored. -/
theorem relations_run {actions : List (Action α)} (h : layer.relations = ∅)
    (hactions : ∀ a ∈ actions, ¬ a.Accepted) : (layer.run k actions).relations = ∅ := by
  induction actions generalizing layer with
  | nil => exact h
  | cons a rest ih =>
      obtain ⟨ha, hrest⟩ := List.forall_mem_cons.mp hactions
      exact ih (relations_act h ha) hrest

/-- Where no relation is stored, no way is part of a border. -/
theorem enterWay_of_no_relations (h : layer.relations = ∅) (w : MapWay α) :
    layer.enterWay (layer.resolve w) = ⟨layer, [], .ok none⟩ := by
  have hnone : (layer.resolve w).relations = [] := by
    simp only [resolve, relationsOf, h]
    exact List.filterMap_eq_nil_iff.mpr fun _ _ => rfl
  rw [enterWay, Summary.of?_eq_none_iff.mpr hnone]

/-! ### Before the end -/

/-- The lines that wait are on the map, and have no more than `size` points together. -/
structure Ready (size : Nat) (layer : Layer α) : Prop where
  two_le : ∀ l ∈ layer.waitingLines, 2 ≤ l.length
  onMap : ∀ l ∈ layer.waitingLines, ∀ p ∈ l, p.OnMap
  count : layer.waitingLines.flatten.length ≤ size

theorem Ready.of_empty (h : layer.pools.groups = ∅) : layer.Ready size := by
  have hnone := waitingLines_of_empty h
  constructor <;> simp [hnone]

theorem Ready.mono {size' : Nat} (h : layer.Ready size) (hle : size ≤ size') : layer.Ready size' :=
  { h with count := h.count.trans hle }

theorem Ready.of_pools {later : Layer α} (h : layer.Ready size)
    (hpools : later.pools = layer.pools) : later.Ready size := by
  have hwaiting : later.waitingLines = layer.waitingLines := by
    rw [waitingLines, hpools, waitingLines]
  exact ⟨hwaiting ▸ h.two_le, hwaiting ▸ h.onMap, hwaiting ▸ h.count⟩

/-- A line of the map may be taken. -/
theorem Ready.taking (h : layer.Ready size) {positions : List (List α)} {line : Line α}
    (hline : Line.ofDegrees positions = .ok line) (id : Int) (s : Summary) :
    (layer.taking id s line).Ready (size + positions.length) := by
  have hperm := layer.perm_waitingLines_taking id s line
  have hmem : ∀ l ∈ (layer.taking id s line).waitingLines, l = line ∨ l ∈ layer.waitingLines := by
    intro l hl
    refine (List.mem_append.mp (hperm.mem_iff.mp hl)).imp_left fun hl => ?_
    obtain ⟨_, -, rfl⟩ := Option.map_eq_some_iff.mp (Option.mem_toList.mp hl)
    rfl
  refine ⟨fun l hl => ?_, fun l hl => ?_, ?_⟩
  · rcases hmem l hl with rfl | hl
    · exact (Line.ofDegrees_eq_ok hline).2.2
    · exact h.two_le l hl
  · rcases hmem l hl with rfl | hl
    · exact Line.onMap_of_ofDegrees hline
    · exact h.onMap l hl
  · have hline' : (((s.group? layer.countryNames).map fun _ => line).toList).flatten.length ≤
        positions.length := by
      cases s.group? layer.countryNames with
      | none => exact Nat.zero_le _
      | some g => simpa using Line.length_le_of_ofDegrees hline
    rw [hperm.flatten.length_eq, List.flatten_append, List.length_append, Nat.add_comm size]
    exact Nat.add_le_add hline' h.count

/-- **A call before the end** keeps the lines that wait ready. -/
theorem Ready.act (h : layer.Ready size) {a : Action α} (ha : a ≠ .finish) :
    (layer.act k a).Ready (size + a.positions) := by
  cases a with
  | relation id tags =>
      exact h.of_pools (layer.enterRelation_frame id tags).2.1
  | way w =>
      rw [Layer.act, enterWay_layer]
      split
      · next s line hw => exact h.taking (Way.accepted?_eq_some_iff.mp hw).2 w.id s
      · exact h.mono (Nat.le_add_right _ _)
  | finish => exact absurd rfl ha
  | release => exact .of_empty rfl

/-- **Before the end** the lines that wait are ready. -/
theorem Ready.run (h : layer.Ready size) {actions : List (Action α)} (hactions : .finish ∉ actions) :
    (layer.run k actions).Ready (size + (actions.map Action.positions).sum) := by
  induction actions generalizing layer size with
  | nil => exact h
  | cons a rest ih =>
      rw [List.mem_cons, not_or] at hactions
      rw [run_cons, List.map_cons, List.sum_cons, ← Nat.add_assoc]
      exact ih (h.act (Ne.symm hactions.1)) hactions.2

/-- A joined line of lines that are ready can be drawn. -/
theorem Ready.drawable (hk : k.KeepsPoints) (hα : Mercator.Regular α size) (h : layer.Ready size)
    {g : Group} {lines : List (Line α)} (hlines : (g, lines) ∈ layer.pools.groups.entries)
    {line : Line α} (hline : line ∈ k.merge lines) : line.Drawable := by
  have hwaiting : lines.Sublist layer.waitingLines := by
    rw [waitingLines, List.flatMap_def]
    exact List.sublist_flatten_of_mem (List.mem_map.mpr ⟨_, hlines, rfl⟩)
  have htwo : ∀ l ∈ lines, 2 ≤ l.length := fun l hl => h.two_le l (hwaiting.subset hl)
  obtain ⟨hmerged, hlong⟩ := hk.merge_spec htwo
  have hpoints : line.Subperm lines.flatten :=
    (List.sublist_flatten_of_mem hline).subperm.trans hmerged
  refine Line.drawable_of_onMap hα (fun p hp => ?_) (hlong line hline) ?_
  · obtain ⟨l, hl, hpl⟩ := List.mem_flatten.mp (hpoints.subset hp)
    exact h.onMap l (hwaiting.subset hl) p hpl
  · calc line.length ≤ lines.flatten.length := hpoints.length_le
      _ ≤ layer.waitingLines.flatten.length := hwaiting.flatten.length_le
      _ ≤ size := h.count

/-- **The first end is reached**, if the lines that wait are ready. -/
theorem finish_ok (hk : k.KeepsPoints) (hα : Mercator.Regular α size) (h : layer.Ready size)
    (hf : layer.finished = false) : ∃ count, (layer.finish k).result = .ok count := by
  rw [(finish_of_not_finished hf).1]
  refine Attribution.ofGroups_ok_of_drawn fun j hj => ?_
  obtain ⟨lines, hlines, hline⟩ := Attribution.mem_joined hj
  exact Attribution.Joined.draw_ok (h.drawable hk hα hlines hline) _ _

/-! ### A whole life -/

/-- **The layer is safe to call in any order.**  Whatever has been called, an end is reached if it is
the first one, lines are joined as they should and the projection can be undone, and it is refused
without any change if it is not the first; what is called later leaves the features as they are and adds
others behind them; and a release leaves no relation, no code and no line, so that, until a relation is
accepted, no way whose memberships are looked up has an effect. -/
theorem run_lifecycle (k : Kernel α ρ) (names : Bool) (features : List (Feature α))
    (actions : List (Action α)) :
    let layer := (new names features).run k actions
    (.finish ∉ actions → k.KeepsPoints → Mercator.Regular α (actions.map Action.positions).sum →
        ∃ count, (layer.finish k).result = .ok count) ∧
      (.finish ∈ actions → layer.finish k = ⟨layer, [], .error .alreadyFinished⟩) ∧
      (features <+: layer.features ∧ ∀ later, layer.features <+: (layer.run k later).features) ∧
      (layer.release.relations = ∅ ∧ layer.release.codes = ∅ ∧ layer.release.pools = .empty) ∧
      ∀ later, (∀ a ∈ later, ¬ a.Accepted) → ∀ w : MapWay α,
        let after := layer.release.run k later
        after.enterWay (after.resolve w) = ⟨after, [], .ok none⟩ := by
  intro layer
  refine ⟨fun hfirst hk hα => ?_, fun hsecond => ?_,
    ⟨features_run k (new names features) actions, layer.features_run k⟩,
    ⟨rfl, rfl, rfl⟩, fun later hlater w => ?_⟩
  · have hready : layer.Ready (actions.map Action.positions).sum := by
      simpa using (Ready.of_empty rfl : (new names features).Ready 0).run hfirst
    refine finish_ok hk hα hready (Bool.eq_false_iff.mpr fun hf => ?_)
    exact hfirst (((finished_run k _ actions).mp hf).resolve_left Bool.false_ne_true)
  · exact finish_of_finished ((finished_run k _ actions).mpr (.inr hsecond))
  · exact enterWay_of_no_relations (relations_run rfl hlater) w

/-- The border of one country. -/
def loneBorder : MapWay Rat := ⟨10, ∅, [[0, 0], [0, Mercator.limit]], [1]⟩

/-- The same with its relation at hand. -/
def heldBorder : Way Rat :=
  ⟨10, ∅, [[0, 0], [0, Mercator.limit]],
    (Relation.ofTags? 1 (Relation.adminTags "2" (some "AAA"))).toList⟩

/-- The country and its border. -/
def callsBefore : List (Action Rat) :=
  [.relation 1 (Relation.adminTags "2" (some "AAA")), .way heldBorder]

/-- The end, the border once more, the end again, a release, and the border after that. -/
def callsAfter : List (Action Rat) :=
  callsBefore ++ [.finish, .way heldBorder, .finish, .release, .way heldBorder]

/-- One line waits for the first end; after all calls there is none, and the border, looked up after
another release, is no border. -/
theorem run_lifecycle_misused :
    let before := (new true []).run Kernel.upright callsBefore
    let layer := (new true []).run Kernel.upright callsAfter
    let released := layer.release.run Kernel.upright [.way heldBorder, .finish]
    (before.waitingLines.length = 1 ∧ ∃ count, (before.finish Kernel.upright).result = .ok count) ∧
      layer.finish Kernel.upright = ⟨layer, [], .error .alreadyFinished⟩ ∧
      released.enterWay (released.resolve loneBorder) = ⟨released, [], .ok none⟩ := by
  intro before layer released
  obtain ⟨hfirst, -⟩ := run_lifecycle Kernel.upright true [] callsBefore
  obtain ⟨-, hsecond, -, -, hrelease⟩ := run_lifecycle Kernel.upright true [] callsAfter
  refine ⟨⟨by decide +kernel, hfirst (by simp [callsBefore]) upright_keepsPoints (regular_rat _)⟩,
    hsecond (by simp [callsAfter]), hrelease _ ?_ loneBorder⟩
  simp [Action.Accepted]

end Layer
end BorderTiles
