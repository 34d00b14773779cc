import BorderTiles.Proofs.Feature
import BorderTiles.Proofs.Layer.Segments

/-!
# Layer — the end of the input

The first finish draws all that waits.

* `Group.Shows` is what the feature of a joined line shows: the line, the number of its group, what the
  group says of the border, and the codes of the countries on the two sides.
* `Layer.Drained` is what the layer has become then: the groups are drawn in the order in which a drain
  takes them, numbered from one whether they have a line or not, all against the same areas.

`finish_drains` says that the layer is drained if the joined lines can be drawn.
-/

namespace BorderTiles
variable {α ρ : Type} [Mercator α]

/-- What the feature of a joined line shows, for the group with a number and known areas. -/
structure Group.Shows (k : Kernel α ρ) (areas : Table Int ρ) (codes : CountryCodes) (number : Nat)
    (g : Group) (line : Line α) (f : Feature α) : Prop where
  drawn : line.DrawnAs f
  id : f.id = some (number : Int)
  minZoom : f.minZoom = g.minZoom
  level : f.attrs.get? "admin_level" = some (.whole g.level)
  disputed : f.attrs.get? "disputed" = some (Feature.flag g.disputed)
  maritime : f.attrs.get? "maritime" = some (Feature.flag g.maritime)
  claimedBy : f.attrs.get? "claimed_by" = g.claimedBy.map .text
  sides : ∃ sides, (Bordering.ofLine k.inside areas g.regions.toList line).result = .ok sides ∧
    f.attrs.get? "adm0_l" = (codes.code? sides.left).map .text ∧
    f.attrs.get? "adm0_r" = (codes.code? sides.right).map .text

namespace Attribution

theorem Joined.shows {k : Kernel α ρ} {areas : Table Int ρ} {codes : CountryCodes} {j : Joined α}
    {f : Feature α} (h : (j.draw k areas codes).result = .ok f) :
    j.group.Shows k areas codes j.number j.line f := by
  have hdrawn : j.line.DrawnAs f := Joined.drawnAs h
  obtain ⟨sides, degrees, hsides, -, rfl⟩ := Joined.draw_eq_ok.mp h
  let b := j.group.border codes j.number sides
  exact {
    drawn := hdrawn
    id := rfl
    minZoom := rfl
    level := b.get?_attrs "admin_level"
    disputed := b.get?_attrs "disputed"
    maritime := b.get?_attrs "maritime"
    claimedBy := b.get?_attrs "claimed_by"
    sides := ⟨sides, hsides, b.get?_left, b.get?_right⟩ }

end Attribution

namespace Layer

/-- What has become of a layer whose waiting lines are all drawn: nothing waits any more, and behind
the features that were there stands one part for each group, with one feature for each joined line. -/
structure Drained (k : Kernel α ρ) (layer : Layer α) (step : Step α Nat) : Prop where
  result : step.result = .ok layer.pools.groups.size
  pools : step.layer.pools = .empty
  relations : step.layer.relations = layer.relations
  codes : step.layer.codes = layer.codes
  /-- The entries are the groups as a drain takes them. -/
  taken : Drain.going.take layer.pools.groups (layer.pools.groups.size + 1) =
    (layer.pools.groups.entries, .ended, ∅)
  features : ∃ (areas : Table Int ρ) (parts : List (List (Feature α))),
    (∀ id area, areas.get? id = some area ↔
      ∃ lines, layer.pools.regions.get? id = some lines ∧ k.outline lines = .ok (some area)) ∧
    step.layer.features = layer.features ++ parts.flatten ∧
    List.Forall₂ (fun e part =>
        List.Forall₂ (Group.Shows k areas layer.codes e.2 e.1.1) (k.merge e.1.2) part)
      (layer.pools.groups.entries.zipIdx 1) parts

/-- **The first finish draws all that waits**, if the joined lines can be drawn. -/
theorem finish_drains {k : Kernel α ρ} {layer : Layer α} (hf : layer.finished = false)
    (hlines : ∀ g lines, (g, lines) ∈ layer.pools.groups.entries →
      ∀ line ∈ k.merge lines, line.Drawable) :
    layer.Drained k (layer.finish k) := by
  obtain ⟨hresult, -⟩ := finish_of_not_finished (k := k) hf
  obtain ⟨-, hrelations, hcodes⟩ := finish_frame k layer
  obtain ⟨done, emitted, hfeatures, -, hdrawn, hall⟩ := finish_features k hf
  obtain ⟨count, hok⟩ : ∃ count, (layer.attribution k).result = .ok count := by
    refine Attribution.ofGroups_ok_of_drawn fun j hj => ?_
    obtain ⟨lines, hmem, hline⟩ := Attribution.mem_joined hj
    exact Attribution.Joined.draw_ok (hlines _ _ hmem _ hline) _ _
  rw [← hresult] at hok
  -- nothing is left over, so what was drawn stands for all joined lines
  obtain ⟨rfl, rfl⟩ := hall count hok
  obtain ⟨parts, rfl, hparts⟩ := Attribution.split_joined hdrawn
  exact {
    result := hok
    pools := pools_of_finish hok
    relations := hrelations
    codes := hcodes
    taken := Drain.take_all (Nat.lt_succ_self _)
    features := by
      refine ⟨layer.outlines k, parts, fun _ _ => Attribution.get?_outlineRegions, hfeatures, ?_⟩
      exact hparts.imp fun _ _ => List.Forall₂.imp fun _ _ => Attribution.Joined.shows }

/-- The features that were drawn last have the numbers of the groups, each for every joined line. -/
theorem Drained.ids {k : Kernel α ρ} {layer : Layer α} {step : Step α Nat}
    (h : layer.Drained k step) : step.layer.features.map Feature.id =
      layer.features.map Feature.id ++ (layer.pools.groups.entries.zipIdx 1).flatMap fun e =>
        (k.merge e.1.2).map fun _ => some (e.2 : Int) := by
  obtain ⟨areas, parts, -, hfeatures, hparts⟩ := h.features
  rw [hfeatures, List.map_append, List.append_cancel_left_eq]
  clear hfeatures
  generalize layer.pools.groups.entries.zipIdx 1 = numbered at hparts
  induction hparts with
  | nil => rfl
  | cons hpart _ ih =>
      rw [List.flatten_cons, List.map_append, List.flatMap_cons, ih,
        map_eq_of_forall₂ (hpart.imp fun _ _ => Group.Shows.id)]

/-- A group of land borders of countries, without dispute. -/
def landGroup (ids : List Int) : Group :=
  ⟨2, false, false, firstZoom 2 false, none, none, .ofList ids⟩

/-- Three groups wait, the second one without a line; the first country has an outline. -/
def gapped : Layer Rat :=
  let layer := (new true []).enterRelations countries
  let square : Line Rat := [⟨0, 0, none⟩, ⟨1, 0, none⟩, ⟨1, 1, none⟩, ⟨0, 1, none⟩, ⟨0, 0, none⟩]
  { layer with pools := ⟨.ofList [(1, [square])], .ofList [
    (landGroup [1, 2], [[⟨0, 0, none⟩, ⟨1, 0, none⟩], [⟨1, 0, none⟩, ⟨1, 1, none⟩]]),
    (landGroup [2], []),
    (landGroup [1], [[⟨1, 1, none⟩, ⟨0, 1, none⟩], [⟨0, 0, none⟩, ⟨1, 0, none⟩]])]⟩ }

/-- The first group gives one line, the second none and the third two: the number two is left out. -/
theorem finish_drains_gapped :
    gapped.Drained Kernel.upright (gapped.finish Kernel.upright) ∧
      (gapped.finish Kernel.upright).layer.features.map Feature.id = [some 1, some 3, some 3] := by
  have hlines : ∀ e ∈ gapped.pools.groups.entries, ∀ line ∈ Kernel.upright.merge e.2,
      2 ≤ line.length ∧ ∀ p ∈ line, p.height = none := by decide +kernel
  have hdrained : gapped.Drained Kernel.upright (gapped.finish Kernel.upright) := by
    refine finish_drains rfl fun g lines hmem line hline => ?_
    obtain ⟨htwo, hflat⟩ := hlines _ hmem line hline
    exact {
      two_le := htwo
      shares := shares_rat _
      degrees := Line.toDegrees_of_latitudes fun p hp => ⟨hflat p hp, _, rfl⟩
      middle := fun _ _ => ⟨_, rfl⟩ }
  exact ⟨hdrained, hdrained.ids.trans (by decide +kernel)⟩

end Layer
end BorderTiles
