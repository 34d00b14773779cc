import BorderTiles.Generate
import BorderTiles.Proofs.Extract
import BorderTiles.Proofs.Layer.Schema
import BorderTiles.Proofs.NaturalEarth

/-!
# Generate — the features of a run

Every feature of a run has one of two forms, whatever is read.

* `Feature.General` is the form of generalised borders.  `NaturalEarth.general_of_border`: every record
  that is drawn has it, whatever its table and its properties.
* The rest is drawn by the layer and has the form `Feature.OfMap`.  `Extract.during_firstPass` and
  `Extract.during_secondPass`: between two relations or ways of an extract the layer is one of those of
  `Layer.During`, as it is in the middle of a batch (`Extract.during_meetAll`).
* `Feature.General.apart`: two features of different forms are not shown at the same zoom if the one of
  the map is on land.

`features_wellFormed` puts this together.
-/

namespace BorderTiles
variable {α ρ : Type}

namespace Feature

/-- The form of a generalised border. -/
structure General (f : Feature α) : Prop where
  layer : f.layer = "boundary"
  buffer : f.buffer = .whole 4
  zooms : f.minZoom ≤ f.maxZoom
  maxZoom : f.maxZoom ≤ 4
  maritime : f.attrs.get? "maritime" = some (.whole 0)
  id : f.id = none
  bare : ∀ name ∈ ["claimed_by", "disputed_name", "adm0_l", "adm0_r"], f.attrs.get? name = none

/-- Whether a feature is shown at a zoom. -/
def ShownAt (f : Feature α) (zoom : Int) : Prop := f.minZoom ≤ zoom ∧ zoom ≤ f.maxZoom

/-- **At every zoom the borders on land are of one source.** -/
theorem General.apart {names : Bool} {f g : Feature α} (hf : f.General) (hg : g.OfMap names)
    (hland : g.attrs.get? "maritime" = some (.whole 0)) {zoom : Int} (hzoom : f.ShownAt zoom) :
    ¬ g.ShownAt zoom := by
  obtain ⟨level, disputed, maritime, hmapped⟩ := hg
  -- a border on land is drawn of the map from zoom 5 on
  have hfive : 5 ≤ g.minZoom := by
    rcases hmapped.late with hfive | ⟨hsea, -⟩
    · exact hfive
    · rw [hmapped.isMaritime, hsea] at hland
      cases hland
  rintro ⟨hfirst, -⟩
  have hfour : zoom ≤ 4 := Int.le_trans hzoom.2 hf.maxZoom
  omega

end Feature

/-! ### Generalised borders -/

namespace NaturalEarth

theorem coverage?_zooms {table : String} {properties : List (String × Value)} {c : Coverage}
    (h : coverage? table properties = .ok (some c)) : c.minZoom ≤ c.maxZoom ∧ c.maxZoom ≤ 4 := by
  revert h
  fun_cases coverage? table properties <;> intro h
  · cases h
    decide
  · cases h
    decide
  · cases h
  · cases h
    decide
  · obtain ⟨major, -, h⟩ := bind_eq_ok.mp h
    cases major
    · cases h
    · cases h
      decide
  · cases h

/-- **A record that is drawn** is drawn as a generalised border. -/
theorem general_of_border {table : String} {properties : List (String × Value)} {c : Coverage}
    (h : coverage? table properties = .ok (some c)) (disputed : Bool)
    (geometry : Option (Geometry α)) : (c.border disputed geometry).General := by
  obtain ⟨hzooms, hlast⟩ := coverage?_zooms h
  have hempty : ∀ name, (∅ : Table String Value).get? name = none := fun _ => rfl
  exact {
    layer := rfl
    buffer := rfl
    zooms := hzooms
    maxZoom := hlast
    maritime := by simp [Coverage.border, get?_setAttr_whole, Feature.flag]
    id := rfl
    bare := by simp [Coverage.border, get?_setAttr_whole, Feature.flag, hempty] }

theorem general_of_enterTables {count : Nat} {present : List (String × List (Record α))}
    {found : Reading α} (h : (present.foldlM Reading.enterTable ⟨[], count⟩).result = .ok found) :
    ∀ f ∈ found.drawn, f.General := by
  obtain ⟨-, rfl⟩ := Reading.enterTables_eq_ok.mp h
  intro f hf
  obtain ⟨e, -, hf⟩ := List.mem_flatMap.mp hf
  obtain ⟨r, -, hf⟩ := List.mem_filterMap.mp hf
  obtain ⟨g, c, disputed, -, hcoverage, -, rfl⟩ := Record.drawn?_eq_some_iff.mp hf
  exact general_of_border hcoverage disputed (some g)

/-- **Whatever has been read of tables** are generalised borders. -/
theorem general_of_readTables {count : Nat} {tables : List (String × List (Record α))}
    {found : List (Feature α)} (h : (readTables count tables).result = .ok found) :
    ∀ f ∈ found, f.General := by
  obtain ⟨so, hso, h⟩ := Logged.result_bind_eq_ok.mp h
  cases h
  exact general_of_enterTables hso

theorem general_of_read {path : String} {source : List (String × List (Record α))}
    {found : List (Feature α)} (h : (read path source).result = .ok found) :
    ∀ f ∈ found, f.General := by
  obtain ⟨so, hso, h⟩ := Logged.result_bind_eq_ok.mp h
  cases h
  rw [result_readSource] at hso
  exact general_of_enterTables hso

end NaturalEarth

/-! ### The passes over an extract -/

namespace Extract

/-- The first pass over some relations. -/
def firstPass (start : Layer α) (relations : List Membership) : Members α :=
  relations.foldl Members.enter ⟨start, ∅, 0⟩

variable [Mercator α]

/-- The second pass over some ways, after the first one. -/
def secondPass (e : Extract α) (start : Layer α) (size : Int) (ways : List Path) : Batch α :=
  let members := firstPass start e.relations
  ways.foldl (Batch.enter e members.ofWay size) ⟨members.layer, [], [], 0, [], none⟩

theorem layer_enter (e : Extract α) (start : Layer α) (size : Int) :
    (e.enter start size).layer = (e.secondPass start size e.ways).flush.layer := by
  rw [enter]
  split <;> rfl

variable {k : Kernel α ρ} {names : Bool} {before : List (Feature α)} {layer : Layer α}

theorem during_firstPass (k : Kernel α ρ) (start : Layer α) (relations : List Membership) :
    Layer.During k start (firstPass start relations).layer := by
  suffices ∀ m : Members α, Layer.During k start m.layer →
      Layer.During k start (relations.foldl Members.enter m).layer from this _ .start
  induction relations with
  | nil => exact fun m h => h
  | cons r rest ih =>
      intro m h
      refine ih _ ?_
      rw [(members_enter m r).1]
      exact h.relation r.id r.tags

theorem during_meetAll {start : Layer α} (h : Layer.During k start layer) {ways : List (Way α)}
    (hways : ∀ w ∈ ways, w.Recorded) : Layer.During k start (Batch.meetAll layer ways).layer := by
  induction ways generalizing layer with
  | nil => exact h
  | cons w rest ih =>
      obtain ⟨hw, hrest⟩ := List.forall_mem_cons.mp hways
      rw [Batch.meetAll]
      dsimp only
      split
      · exact h.way w hw
      · exact ih (h.way w hw) hrest

/-- What holds between two ways of the second pass: the ways that wait have records. -/
structure Batch.During (k : Kernel α ρ) (start : Layer α) (b : Batch α) : Prop where
  layer : Layer.During k start b.layer
  waiting : ∀ w ∈ b.waiting, w.Recorded

namespace Batch.During
variable {b : Batch α}

theorem flush {start : Layer α} (h : b.During k start) : b.flush.During k start := by
  cases hw : b.waiting.isEmpty with
  | true => simpa only [Batch.flush, hw, if_true] using h
  | false =>
      simp only [Batch.flush, hw, Bool.false_eq_true, if_false]
      exact ⟨during_meetAll h.layer h.waiting, fun _ hw => absurd hw List.not_mem_nil⟩

theorem enter (h : b.During k (.new names before)) (e : Extract α) (ofWay : Table Int (List Int))
    (size : Int) (p : Path) : (b.enter e ofWay size p).During k (.new names before) := by
  rw [Batch.enter]
  split
  · exact h
  · next ids _ =>
      split
      · exact h
      · split
        · exact ⟨h.layer, h.waiting⟩
        · next positions _ =>
            -- the way waits with what the layer knows of its relations
            have hmore : Batch.During k (.new names before) { b with waiting := b.waiting ++
                [⟨p.id, p.tags, positions, b.layer.relationsOf ids⟩] } := by
              refine ⟨h.layer, fun w hw => ?_⟩
              rcases List.mem_append.mp hw with hw | hw
              · exact h.waiting w hw
              · obtain rfl := List.mem_singleton.mp hw
                exact h.layer.recorded_relationsOf p.id p.tags positions ids
            dsimp only
            split
            · exact hmore.flush
            · exact hmore

end Batch.During

theorem during_secondPass (k : Kernel α ρ) (e : Extract α) (names : Bool)
    (before : List (Feature α)) (size : Int) (ways : List Path) :
    (e.secondPass (.new names before) size ways).During k (.new names before) := by
  suffices ∀ (ofWay : Table Int (List Int)) (b : Batch α), b.During k (.new names before) →
      (ways.foldl (Batch.enter e ofWay size) b).During k (.new names before) from
    this _ _ ⟨during_firstPass k _ e.relations, nofun⟩
  intro ofWay
  induction ways with
  | nil => exact fun b h => h
  | cons p rest ih => exact fun b h => ih _ (h.enter e ofWay size p)

theorem during_enter (k : Kernel α ρ) (e : Extract α) (names : Bool) (before : List (Feature α))
    (size : Int) :
    Layer.During k (.new names before) (e.enter (.new names before) size).layer := by
  rw [layer_enter]
  exact (during_secondPass k e names before size e.ways).flush.layer

end Extract

/-! ### A run -/

namespace Generate

theorem general_of_generalised {inputs : Inputs α} {general : List (Feature α)}
    (h : (generalised inputs).result = .ok general) : ∀ f ∈ general, f.General := by
  rw [generalised] at h
  split at h
  · exact NaturalEarth.general_of_read h
  · cases h
    exact nofun

variable [Mercator α]

/-- What holds of the features at every moment of a run.  Features are only ever added, so between two
of the moments there are some of the features of the later one. -/
structure WellFormed (k : Kernel α ρ) (settings : Settings) (inputs : Inputs α) : Prop where
  /-- Whatever has been read of tables, of these or of others. -/
  reading : ∀ (tables : List (String × List (NaturalEarth.Record α))) (found : List (Feature α)),
    (NaturalEarth.readTables 0 tables).result = .ok found → ∀ f ∈ found, f.General
  /-- Whatever the layer has met, in whatever order. -/
  drawing : ∀ names general layer, Layer.During k (.new names general) layer →
    ∃ drawn, layer.features = general ++ drawn ∧ ∀ f ∈ drawn, f.OfMap names
  /-- After some relations of the first pass. -/
  first : ∀ names general n, Layer.During k (.new names general)
    (Extract.firstPass (.new names general) (inputs.extract.relations.take n)).layer
  /-- After some ways of the second pass, and in the middle of a batch. -/
  second : ∀ names general size n j,
    let b := inputs.extract.secondPass (.new names general) size (inputs.extract.ways.take n)
    Layer.During k (.new names general) b.layer ∧
      Layer.During k (.new names general) (Extract.Batch.meetAll b.layer (b.waiting.take j)).layer
  /-- The features that the tiles are written of. -/
  features : ∀ found, (features k settings inputs).result = .ok found →
    ∃ names general drawn, settings.affirms "boundary_country_names" = .ok names ∧
      (generalised inputs).result = .ok general ∧ found = general ++ drawn ∧
      (∀ f ∈ general, f.General) ∧ ∀ f ∈ drawn, f.OfMap names
  /-- The sources of the borders on land. -/
  sources : ∀ names (f g : Feature α), f.General → g.OfMap names →
    g.attrs.get? "maritime" = some (.whole 0) → ∀ zoom, f.ShownAt zoom → ¬ g.ShownAt zoom

theorem features_eq_ok {k : Kernel α ρ} {settings : Settings} {inputs : Inputs α}
    {found : List (Feature α)} (h : (features k settings inputs).result = .ok found) :
    ∃ names general size, settings.affirms "boundary_country_names" = .ok names ∧
      (generalised inputs).result = .ok general ∧
      found = ((inputs.extract.enter (.new names general) size).layer.finish k).layer.features := by
  obtain ⟨names, hnames, h⟩ := Logged.result_bind_eq_ok.mp h
  obtain ⟨-, -, h⟩ := Logged.result_bind_eq_ok.mp h
  obtain ⟨general, hgeneral, h⟩ := Logged.result_bind_eq_ok.mp h
  obtain ⟨-, -, h⟩ := Logged.result_bind_eq_ok.mp h
  obtain ⟨size, -, h⟩ := Logged.result_bind_eq_ok.mp h
  obtain ⟨-, -, h⟩ := Logged.result_bind_eq_ok.mp h
  obtain ⟨-, -, h⟩ := Logged.result_bind_eq_ok.mp h
  cases h
  exact ⟨names, general, size, hnames, hgeneral, rfl⟩

/-- **Every feature of a run is well-formed**, at every moment of it. -/
theorem features_wellFormed (k : Kernel α ρ) (settings : Settings) (inputs : Inputs α) :
    WellFormed k settings inputs where
  reading _ _ h := NaturalEarth.general_of_readTables h
  drawing _ _ _ h := h.drawing.features
  first _ _ n := Extract.during_firstPass k _ _
  second names general size n j := by
    have hb := Extract.during_secondPass k inputs.extract names general size
      (inputs.extract.ways.take n)
    exact ⟨hb.layer, Extract.during_meetAll hb.layer fun w hw => hb.waiting w (List.mem_of_mem_take hw)⟩
  features found h := by
    obtain ⟨names, general, size, hnames, hgeneral, rfl⟩ := features_eq_ok h
    obtain ⟨drawn, hdrawn, hmapped⟩ :=
      (Extract.during_enter k inputs.extract _ general size).finish.drawing.features
    exact ⟨names, general, drawn, hnames, hgeneral, hdrawn, general_of_generalised hgeneral, hmapped⟩
  sources _ _ _ hf hg hland _ hzoom := hf.apart hg hland hzoom

/-- Two countries and two generalised borders, one of them not drawn. -/
def neighbours : Inputs Rat where
  extract := {
    place := fun n => some (n, 2 * n)
    relations :=
      [⟨1, [.way 10, .way 11], Relation.adminTags "2" (some "AAA")⟩,
        ⟨2, [.way 10], Relation.adminTags "2" (some "BBB")⟩,
        ⟨3, [.way 12], Relation.adminTags "4" none⟩]
    ways :=
      [⟨10, [1, 2, 3], ∅⟩, ⟨11, [3, 4], .ofList [("maritime", some "yes")]⟩, ⟨12, [4, 5], ∅⟩] }
  generalised := some ("", [("ne_10m_admin_0_boundary_lines_land",
    [⟨.ok (some (.line [])), [("featurecla", .text "Lease Limit")]⟩,
      ⟨.ok (some (.line [])), [("FeatureCla", .text "Disputed")]⟩])])

/-- Without the names of countries, four borders: those on land are generalised up to zoom 4. -/
theorem features_wellFormed_neighbours :
    let settings := Settings.defaults.set "boundary_country_names" (.bool false)
    WellFormed Kernel.upright settings neighbours ∧
      ((features Kernel.upright settings neighbours).result.map fun found =>
        found.map fun f => (f.id, f.minZoom, f.maxZoom)) =
          .ok [(none, 4, 4), (some 10, 5, 14), (some 11, 4, 14), (some 12, 5, 14)] := by
  intro settings
  exact ⟨features_wellFormed Kernel.upright settings neighbours, by decide +kernel⟩

end Generate
end BorderTiles
