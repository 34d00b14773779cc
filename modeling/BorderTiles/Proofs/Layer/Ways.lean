import BorderTiles.Proofs.Layer.Steps

/-!
# Layer — ways with their relations

Ways that come with their relations are met one after another (`Layer.enterEach`); a fault at one of
them does not keep the others from being met.

* `answers_eq_map`: no way changes what is answered for a later one.
* `listOf_regions_enterEach`, `listOf_groups_enterEach`, `enterEach_features`: the lines under a
  country, the lines in a group and the features are those of the ways, in their order.
* `enterWay_ok`: a way whose latitudes can be projected back is met without a fault.
-/

namespace BorderTiles

namespace Way
variable {α : Type} [Mercator α]

/-- The line of a way, if it is part of the outline of a country. -/
def outline? (id : Int) (w : Way α) : Option (Line α) :=
  if w.relations.any fun r => r.id == id && r.level ≤ 2 then w.line? else none

/-- An outline holds the line of a way once, however many relations of the way say so. -/
theorem toList_outline? {codes : CountryCodes} {w : Way α} {s : Summary} {line : Line α}
    (h : w.accepted? codes = some (s, line)) (id : Int) :
    (w.outline? id).toList = List.replicate (s.outlined.toList.count id) line := by
  have hline : w.line? = some line := by rw [← w.map_accepted? codes, h]; rfl
  have hid : (w.relations.any fun r => r.id == id && r.level ≤ 2) = true ↔ id ∈ s.outlined := by
    rw [Summary.mem_outlined (accepted?_eq_some_iff.mp h).1]
    simp
  rw [outline?, hline]
  by_cases hmem : id ∈ s.outlined
  · rw [if_pos (hid.mpr hmem), IdSet.count_toList hmem]
    rfl
  · rw [if_neg (mt hid.mp hmem), List.count_eq_zero_of_not_mem hmem]
    rfl

theorem outline?_of_not_accepted {codes : CountryCodes} {w : Way α} (h : w.accepted? codes = none)
    (id : Int) : w.outline? id = none := by
  rw [outline?, ← w.map_accepted? codes, h, Option.map_none, ite_self]

end Way

namespace Layer
variable {α : Type} [Mercator α]

/-- Ways are met one after another. -/
def enterEach (layer : Layer α) (ways : List (Way α)) : Layer α :=
  ways.foldl (fun layer w => (layer.enterWay w).layer) layer

/-- The answers for ways that are met one after another. -/
def answers (layer : Layer α) : List (Way α) → List (Except Fault (Option Decision))
  | [] => []
  | w :: rest => (layer.enterWay w).result :: (layer.enterWay w).layer.answers rest

/-- The line of a way that is met now, if it waits in the group. -/
def waits? (layer : Layer α) (g : Group) (w : Way α) : Option (Line α) :=
  if (layer.enterWay w).result = .ok (some (.deferred g)) then w.line? else none

/-- A line that waits is the line of its way. -/
theorem line?_of_waits? {layer : Layer α} {g : Group} {w : Way α} {l : Line α}
    (h : layer.waits? g w = some l) : w.line? = some l := by
  rw [waits?] at h
  split at h
  · exact h
  · cases h

/-- What is drawn at a way that is met now. -/
def drawn (layer : Layer α) (w : Way α) : List (Feature α) :=
  match w.accepted? layer.codes with
  | some (s, line) => drawnAtOnce layer.countryNames w.id s line
  | none => []

theorem enterEach_cons (layer : Layer α) (w : Way α) (ways : List (Way α)) :
    layer.enterEach (w :: ways) = (layer.enterWay w).layer.enterEach ways := rfl

theorem enterEach_append (layer : Layer α) (xs ys : List (Way α)) :
    layer.enterEach (xs ++ ys) = (layer.enterEach xs).enterEach ys :=
  List.foldl_append

/-! ### One way -/

theorem enterWay_drawn (layer : Layer α) (w : Way α) :
    (layer.enterWay w).layer.features = layer.features ++ layer.drawn w := by
  rw [enterWay_layer, drawn]
  cases w.accepted? layer.codes with
  | none => exact (List.append_nil _).symm
  | some e => rfl

/-- Nothing is drawn at a way whose line is not drawn at once. -/
theorem drawn_of_not_immediate {layer : Layer α} {w : Way α}
    (h : (layer.enterWay w).result ≠ .ok (some .immediate)) : layer.drawn w = [] := by
  rw [Ne, enterWay_immediate] at h
  rw [drawn]
  split
  · next s line ha =>
      rw [drawnAtOnce]
      split
      · next degrees hg hd => exact absurd ⟨s, line, degrees, ha, hg, hd⟩ h
      · rfl
  · rfl

/-- Under a country, the lines grow by that of a way that is part of its outline. -/
theorem listOf_regions_enterWay (layer : Layer α) (w : Way α) (id : Int) :
    (layer.enterWay w).layer.pools.regions.listOf id =
      layer.pools.regions.listOf id ++ (w.outline? id).toList := by
  rw [enterWay_layer]
  cases ha : w.accepted? layer.codes with
  | none => rw [Way.outline?_of_not_accepted ha, Option.toList_none, List.append_nil]
  | some e =>
      obtain ⟨s, line⟩ := e
      rw [Way.toList_outline? ha]
      exact Pools.listOf_add ..

/-- In a group, the lines grow by that of a way that waits there. -/
theorem listOf_groups_enterWay (layer : Layer α) (w : Way α) (g : Group) :
    (layer.enterWay w).layer.pools.groups.listOf g =
      layer.pools.groups.listOf g ++ (layer.waits? g w).toList := by
  rw [enterWay_layer, waits?, ← w.map_accepted? layer.codes]
  cases ha : w.accepted? layer.codes with
  | none =>
      rw [Option.map_none, ite_self]
      exact (List.append_nil _).symm
  | some e =>
      obtain ⟨s, line⟩ := e
      have hwaits : (layer.enterWay w).result = .ok (some (.deferred g)) ↔
          s.group? layer.countryNames = some g := by
        rw [enterWay_deferred, ha]
        exact ⟨by rintro ⟨_, _, h, hg⟩; cases h; exact hg, fun hg => ⟨s, line, rfl, hg⟩⟩
      simp only [hwaits, taking, Pools.add]
      cases hg : s.group? layer.countryNames with
      | none => exact (List.append_nil _).symm
      | some g' =>
          simp only [Option.elim_some, Table.listOf_append, Option.some.injEq, eq_comm (a := g)]
          split <;> rfl

/-- A way leaves no empty list among the lines that wait. -/
theorem filled_enterWay {layer : Layer α}
    (h : layer.pools.regions.Filled ∧ layer.pools.groups.Filled) (w : Way α) :
    (layer.enterWay w).layer.pools.regions.Filled ∧ (layer.enterWay w).layer.pools.groups.Filled := by
  rw [enterWay_layer]
  split
  · exact Pools.filled_add h ..
  · exact h

/-- What comes of a way depends on the codes and on whether names are wanted only. -/
theorem drawn_congr {a b : Layer α} (hn : a.countryNames = b.countryNames) (hc : a.codes = b.codes)
    (w : Way α) : a.drawn w = b.drawn w := by
  simp only [drawn, hn, hc]

theorem waits?_congr {a b : Layer α} (hn : a.countryNames = b.countryNames)
    (hc : a.codes = b.codes) (g : Group) (w : Way α) : a.waits? g w = b.waits? g w := by
  simp only [waits?, enterWay_result_congr hn hc]

/-! ### Many ways -/

theorem enterEach_frame (layer : Layer α) (ways : List (Way α)) :
    (layer.enterEach ways).countryNames = layer.countryNames ∧
      (layer.enterEach ways).relations = layer.relations ∧
      (layer.enterEach ways).codes = layer.codes ∧
      (layer.enterEach ways).finished = layer.finished := by
  induction ways generalizing layer with
  | nil => exact ⟨rfl, rfl, rfl, rfl⟩
  | cons w rest ih =>
      obtain ⟨hn, hr, hc, hf⟩ := ih (layer.enterWay w).layer
      obtain ⟨hn', hr', hc', hf'⟩ := layer.enterWay_frame w
      exact ⟨hn.trans hn', hr.trans hr', hc.trans hc', hf.trans hf'⟩

/-- **No way changes what is answered for a later one.** -/
theorem answers_eq_map (layer : Layer α) (ways : List (Way α)) :
    layer.answers ways = ways.map fun w => (layer.enterWay w).result := by
  induction ways generalizing layer with
  | nil => rfl
  | cons w rest ih =>
      obtain ⟨hn, -, hc, -⟩ := layer.enterWay_frame w
      rw [answers, ih, List.map_cons]
      exact congrArg _ (List.map_congr_left fun v _ => enterWay_result_congr hn hc v)

theorem filled_enterEach {layer : Layer α}
    (h : layer.pools.regions.Filled ∧ layer.pools.groups.Filled) (ways : List (Way α)) :
    (layer.enterEach ways).pools.regions.Filled ∧ (layer.enterEach ways).pools.groups.Filled := by
  induction ways generalizing layer with
  | nil => exact h
  | cons w rest ih => exact ih (filled_enterWay h w)

/-- The lines under a country are those of the ways that are part of its outline. -/
theorem listOf_regions_enterEach (layer : Layer α) (ways : List (Way α)) (id : Int) :
    (layer.enterEach ways).pools.regions.listOf id =
      layer.pools.regions.listOf id ++ ways.filterMap (Way.outline? id) := by
  induction ways generalizing layer with
  | nil => exact (List.append_nil _).symm
  | cons w rest ih =>
      rw [enterEach_cons, ih, listOf_regions_enterWay, List.append_assoc]
      cases hw : w.outline? id with
      | none => rw [List.filterMap_cons_none hw]; rfl
      | some line => rw [List.filterMap_cons_some hw]; rfl

/-- The lines in a group are those of the ways that wait there. -/
theorem listOf_groups_enterEach (layer : Layer α) (ways : List (Way α)) (g : Group) :
    (layer.enterEach ways).pools.groups.listOf g =
      layer.pools.groups.listOf g ++ ways.filterMap (layer.waits? g) := by
  induction ways generalizing layer with
  | nil => exact (List.append_nil _).symm
  | cons w rest ih =>
      obtain ⟨hn, -, hc, -⟩ := layer.enterWay_frame w
      have hrest : rest.filterMap ((layer.enterWay w).layer.waits? g) =
          rest.filterMap (layer.waits? g) :=
        List.filterMap_congr fun v _ => waits?_congr hn hc g v
      rw [enterEach_cons, ih, listOf_groups_enterWay, hrest, List.append_assoc]
      cases hw : layer.waits? g w with
      | none => rw [List.filterMap_cons_none hw]; rfl
      | some line => rw [List.filterMap_cons_some hw]; rfl

/-- The features are those of the ways, in their order. -/
theorem enterEach_features (layer : Layer α) (ways : List (Way α)) :
    (layer.enterEach ways).features = layer.features ++ ways.flatMap layer.drawn := by
  induction ways generalizing layer with
  | nil => exact (List.append_nil _).symm
  | cons w rest ih =>
      obtain ⟨hn, -, hc, -⟩ := layer.enterWay_frame w
      have hrest : rest.flatMap (layer.enterWay w).layer.drawn = rest.flatMap layer.drawn :=
        List.flatMap_congr fun v _ => drawn_congr hn hc v
      rw [enterEach_cons, ih, enterWay_drawn, hrest, List.flatMap_cons, List.append_assoc]

/-! ### Ways without a fault -/

/-- **A way whose latitudes can be projected back is met without a fault**: where its positions make no
line, that is reported. -/
theorem enterWay_ok (layer : Layer α) {w : Way α}
    (h : ∀ position ∈ w.positions, ∃ lon lat, position = [lon, lat] ∧
      ∃ y, Mercator.latitude (Mercator.depth (Mercator.clamp lat)) = .ok y) :
    ∃ answer, (layer.enterWay w).result = .ok answer := by
  have hpairs : ∀ position ∈ w.positions, ∃ lon lat, position = [lon, lat] := by
    intro position hmem
    obtain ⟨lon, lat, heq, -⟩ := h position hmem
    exact ⟨lon, lat, heq⟩
  have hlat : ∀ lon lat, [lon, lat] ∈ w.positions →
      ∃ y, Mercator.latitude (Mercator.depth (Mercator.clamp lat)) = .ok y := by
    intro lon lat hmem
    obtain ⟨_, _, heq, hy⟩ := h _ hmem
    cases heq
    exact hy
  unfold enterWay
  cases Summary.of? w.tags w.relations layer.codes with
  | none => exact ⟨none, rfl⟩
  | some s =>
      rcases Line.ofDegrees_of_pairs hpairs with ⟨line, hline⟩ | ⟨count, hfew⟩
      · obtain ⟨degrees, hdegrees⟩ := Line.toDegrees_of_ofDegrees hline hlat
        simp only [hline, enterLine_result, hdegrees]
        cases s.group? layer.countryNames with
        | none => exact ⟨some .immediate, rfl⟩
        | some g => exact ⟨some (.deferred g), rfl⟩
      · rw [hfew]
        exact ⟨none, rfl⟩

end Layer
end BorderTiles
