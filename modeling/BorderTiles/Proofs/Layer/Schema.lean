import BorderTiles.Proofs.Feature
import BorderTiles.Proofs.Layer.Ways

/-!
# Layer — what is drawn of a map

Whatever a layer has met, the features that it draws are of one form.

* `Feature.Mapped` is that form.  A border that is `Border.Proper` gives such a feature
  (`Border.Proper.ofMap`), and both kinds of borders are: those that are drawn at once
  (`Summary.proper_border`) and those that have waited (`Group.proper_border`).
* `Layer.During` are the layers that come of a start by relations, ways with the records of relations,
  ends of the input and releases, in any order and however they are broken off.
* `Layer.Drawing` is what all of them have in common (`During.drawing`): what has been drawn since the
  start is of the form.
-/

namespace BorderTiles
variable {α ρ : Type}

namespace Feature

/-- The form of a feature drawn of a map, with or without the names of countries. -/
structure Mapped (names : Bool) (level : Int) (disputed maritime : Bool) (f : Feature α) : Prop where
  layer : f.layer = "boundary"
  buffer : f.buffer = .whole 4
  zooms : f.minZoom ≤ f.maxZoom
  maxZoom : f.maxZoom = 14
  minZoom : f.minZoom = firstZoom level maritime
  late : 5 ≤ f.minZoom ∨ maritime = true ∧ level = 2
  levels : 2 ≤ level ∧ level ≤ 10
  adminLevel : f.attrs.get? "admin_level" = some (.whole level)
  isDisputed : f.attrs.get? "disputed" = some (.whole (if disputed then 1 else 0))
  isMaritime : f.attrs.get? "maritime" = some (.whole (if maritime then 1 else 0))
  claimedBy : (f.attrs.get? "claimed_by").isSome → disputed = true
  disputedName : ∀ value, f.attrs.get? "disputed_name" = some value → disputed = true ∧
    ∃ name : String, value = .text name ∧ ∀ c, Text.isAsciiBlank c = true → c ∉ name.toList
  sides : (f.attrs.get? "adm0_l").isSome ∨ (f.attrs.get? "adm0_r").isSome →
    level = 2 ∧ names = true

/-- Whether a feature has the form of one drawn of a map. -/
def OfMap (names : Bool) (f : Feature α) : Prop :=
  ∃ level disputed maritime, f.Mapped names level disputed maritime

/-- A border as it is drawn of a map. -/
structure Border.Proper (names : Bool) (b : Border) : Prop where
  levels : 2 ≤ b.level ∧ b.level ≤ 10
  minZoom : b.minZoom = firstZoom b.level b.maritime
  calm : b.disputed = false → b.claimedBy = none ∧ b.disputedName = none
  sides : b.leftCode.isSome ∨ b.rightCode.isSome → b.level = 2 ∧ names = true

theorem Border.Proper.ofMap {names : Bool} {b : Border} (h : b.Proper names) (line : Line α) :
    (border line b).OfMap names := by
  have hzooms := firstZoom_mem b.level b.maritime
  have hdisputed : b.claimedBy.isSome ∨ b.disputedName.isSome → b.disputed = true := by
    intro hsome
    by_contra hcalm
    obtain ⟨hclaimed, hname⟩ := h.calm (Bool.eq_false_iff.mpr hcalm)
    simp [hclaimed, hname] at hsome
  refine ⟨b.level, b.disputed, b.maritime, ?_⟩
  exact {
    layer := rfl
    buffer := rfl
    zooms := by
      show b.minZoom ≤ 14
      rw [h.minZoom]
      omega
    maxZoom := rfl
    minZoom := h.minZoom
    late := by
      show 5 ≤ b.minZoom ∨ _
      rw [h.minZoom]
      exact firstZoom_late b.level b.maritime
    levels := h.levels
    adminLevel := b.get?_attrs "admin_level"
    isDisputed := b.get?_attrs "disputed"
    isMaritime := b.get?_attrs "maritime"
    claimedBy := by
      intro hsome
      refine hdisputed (.inl ?_)
      rwa [show (border line b).attrs.get? "claimed_by" = _ from b.get?_attrs "claimed_by",
        value?, Option.isSome_map] at hsome
    disputedName := by
      intro value hvalue
      rw [show (border line b).attrs.get? "disputed_name" = _ from b.get?_attrs "disputed_name",
        value?, Option.map_map] at hvalue
      obtain ⟨name, hname, rfl⟩ := Option.map_eq_some_iff.mp hvalue
      exact ⟨hdisputed (.inr (Option.isSome_of_eq_some hname)), _, rfl,
        fun c hc => notMem_cleanName hc name⟩
    sides := by
      intro hsome
      refine h.sides ?_
      rwa [show (border line b).attrs.get? "adm0_l" = _ from b.get?_left,
        show (border line b).attrs.get? "adm0_r" = _ from b.get?_right, Option.isSome_map,
        Option.isSome_map] at hsome }

end Feature
namespace Summary
variable {tags : Tags} {relations : List Relation} {codes : CountryCodes} {s : Summary}

/-- The border that is drawn at once for a way. -/
theorem proper_border (h : of? tags relations codes = some s)
    (hlevels : ∀ r ∈ relations, 2 ≤ r.level ∧ r.level ≤ 10) (names : Bool) (id : Int) :
    (s.border id).Proper names where
  levels := by
    obtain ⟨r, hr, hlevel⟩ := exists_level_of_of? h
    show 2 ≤ s.level ∧ s.level ≤ 10
    exact hlevel ▸ hlevels r hr
  minZoom := minZoom_of_of? h
  calm := calm_of_of? h
  sides hsome := by rcases hsome with hsome | hsome <;> cases hsome

end Summary

/-- The border along a joined line of a group. -/
theorem Group.proper_border {g : Group} {codes : CountryCodes} (h : g.Regular codes)
    (now : CountryCodes) (number : Nat) (sides : Bordering) :
    (g.border now number sides).Proper true where
  levels := by
    show 2 ≤ g.level ∧ g.level ≤ 10
    rw [h.level]
    decide
  minZoom := by
    show g.minZoom = firstZoom g.level g.maritime
    rw [h.level, h.minZoom]
  calm hcalm := by
    obtain ⟨hclaimed, hname⟩ := h.calm hcalm
    refine ⟨hclaimed, ?_⟩
    show (if g.disputed then g.disputedName else none) = none
    rw [hname, ite_self]
  sides _ := ⟨h.level, rfl⟩

/-- Whether what a way knows of its relations are records made of tags. -/
def Way.Recorded (w : Way α) : Prop := ∀ r ∈ w.relations, ∃ id tags, Relation.ofTags? id tags = some r

namespace Layer

/-! ### What is drawn and what waits -/

/-- What all layers have in common that come of a start with some features: what has been drawn since
is of the form, and so is what waits until the input ends. -/
structure Drawing (names : Bool) (before : List (Feature α)) (layer : Layer α) : Prop where
  wanted : layer.countryNames = names
  waiting : layer.finished = false → ∀ g lines, layer.pools.groups.get? g = some lines →
    names = true ∧ ∃ codes, g.Regular codes
  features : ∃ drawn, layer.features = before ++ drawn ∧
    ∀ f ∈ drawn, f.OfMap names

theorem drawing_new (names : Bool) (before : List (Feature α)) :
    Drawing names before (new names before) where
  wanted := rfl
  waiting _ g lines h := by cases h
  features := ⟨[], (List.append_nil _).symm, nofun⟩

namespace Drawing
variable {names : Bool} {before : List (Feature α)} {layer : Layer α}

theorem relation (h : Drawing names before layer) (id : Int) (tags : Tags) :
    Drawing names before (layer.enterRelation id tags).2 := by
  obtain ⟨hnames, hpools, hfinished, hfeatures⟩ := enterRelation_frame layer id tags
  exact {
    wanted := hnames.trans h.wanted
    waiting := by
      rw [hpools, hfinished]
      exact h.waiting
    features := by
      rw [hfeatures]
      exact h.features }

/-- What is drawn more. -/
theorem features_append (h : Drawing names before layer) {more : List (Feature α)}
    (hmore : ∀ f ∈ more, f.OfMap names) :
    ∃ drawn, layer.features ++ more = before ++ drawn ∧
      ∀ f ∈ drawn, f.OfMap names := by
  obtain ⟨drawn, hdrawn, hmapped⟩ := h.features
  refine ⟨drawn ++ more, by rw [hdrawn, List.append_assoc], fun f hf => ?_⟩
  rcases List.mem_append.mp hf with hf | hf
  · exact hmapped f hf
  · exact hmore f hf

theorem release (h : Drawing names before layer) : Drawing names before layer.release where
  wanted := h.wanted
  waiting _ g lines hg := by cases hg
  features := h.features

variable [Mercator α]

/-- **A way** is drawn in the form, or waits in a group that will be. -/
theorem way (h : Drawing names before layer) {w : Way α}
    (hw : ∀ r ∈ w.relations, 2 ≤ r.level ∧ r.level ≤ 10) :
    Drawing names before (layer.enterWay w).layer := by
  rw [enterWay_layer]
  cases ha : w.accepted? layer.codes with
  | none => exact h
  | some e =>
      obtain ⟨s, line⟩ := e
      obtain ⟨hs, -⟩ := Way.accepted?_eq_some_iff.mp ha
      exact {
        wanted := h.wanted
        waiting := by
          intro hfinished
          dsimp only [taking, Pools.add]
          cases hg : s.group? layer.countryNames with
          | none => exact h.waiting hfinished
          | some g =>
              obtain ⟨hn, -⟩ := Summary.group?_eq_some_iff.mp hg
              -- a group that waits has waited before, or it is that of the way
              exact Table.forall_update (h.waiting hfinished)
                ⟨h.wanted ▸ hn, layer.codes, Summary.regular_of_group? hs hg⟩
        features := by
          refine h.features_append fun f hf => ?_
          rw [drawnAtOnce] at hf
          split at hf
          · next degrees hg hd =>
              obtain rfl := List.mem_singleton.mp hf
              exact (Summary.proper_border hs hw names w.id).ofMap degrees
          · cases hf }

/-- **The end of the input** draws what waits in the form, as far as it gets. -/
theorem finish (h : Drawing names before layer) (k : Kernel α ρ) :
    Drawing names before (layer.finish k).layer := by
  cases hf : layer.finished with
  | true =>
      rw [finish_of_finished hf]
      exact h
  | false =>
      obtain ⟨-, hlayer⟩ := finish_of_not_finished (k := k) hf
      obtain ⟨done, emitted, hfeatures, hfirst, hdrawn, -⟩ := finish_features k hf
      exact {
        wanted := (finish_frame k layer).1.trans h.wanted
        waiting := by
          rw [hlayer]
          exact nofun
        features := by
          rw [hfeatures]
          refine h.features_append fun f hmem => ?_
          obtain ⟨j, hj, hjf⟩ := exists_left_of_mem hdrawn hmem
          obtain ⟨lines, hgroup, -⟩ := Attribution.mem_joined (hfirst.subset hj)
          obtain ⟨rfl, codes, hregular⟩ := h.waiting hf _ _ (Table.mem_entries_iff.mp hgroup)
          obtain ⟨sides, degrees, -, -, rfl⟩ := Attribution.Joined.draw_eq_ok.mp hjf
          exact (Group.proper_border hregular _ _ _).ofMap degrees }

end Drawing

/-! ### States of a run -/

variable [Mercator α]

/-- The layers that come of a start, in whatever order things are met. -/
inductive During (k : Kernel α ρ) (start : Layer α) : Layer α → Prop where
  | start : During k start start
  | relation {layer : Layer α} (h : During k start layer) (id : Int) (tags : Tags) :
      During k start (layer.enterRelation id tags).2
  | way {layer : Layer α} (h : During k start layer) (w : Way α)
      (hw : w.Recorded) : During k start (layer.enterWay w).layer
  | finish {layer : Layer α} (h : During k start layer) : During k start (layer.finish k).layer
  | release {layer : Layer α} (h : During k start layer) : During k start layer.release

/-- **Whatever has been met**, what has been drawn is of the form. -/
theorem During.drawing {k : Kernel α ρ} {names : Bool} {before : List (Feature α)} {layer : Layer α}
    (h : During k (new names before) layer) : Drawing names before layer := by
  induction h with
  | start => exact drawing_new names before
  | relation _ id tags ih => exact ih.relation id tags
  | way _ w hw ih =>
      refine ih.way fun r hr => ?_
      obtain ⟨id, tags, htags⟩ := hw r hr
      exact Relation.level_of_ofTags? htags
  | finish _ ih => exact ih.finish k
  | release _ ih => exact ih.release

/-- The relations that are stored are records of tags. -/
theorem During.recorded {k : Kernel α ρ} {names : Bool} {before : List (Feature α)} {layer : Layer α}
    (h : During k (new names before) layer) : ∀ a r, layer.relations.get? a = some r →
      ∃ id tags, Relation.ofTags? id tags = some r := by
  induction h with
  | start => exact fun a r h => by cases h
  | @relation layer _ id tags ih =>
      rcases layer.enterRelation_cases id tags with e | ⟨r, hr, e⟩
      · rw [e]
        exact ih
      · rw [e]
        exact Table.forall_update ih ⟨id, tags, hr⟩
  | @way layer _ w _ ih =>
      rw [(enterWay_frame layer w).2.1]
      exact ih
  | @finish layer _ ih =>
      rw [(finish_frame k layer).2.1]
      exact ih
  | release => exact fun a r h => by cases h

/-- A way with the relations that are looked up for it has records of them. -/
theorem During.recorded_relationsOf {k : Kernel α ρ} {names : Bool} {before : List (Feature α)}
    {layer : Layer α} (h : During k (new names before) layer) (id : Int) (tags : Tags)
    (positions : List (List α)) (ids : List Int) :
    Way.Recorded ⟨id, tags, positions, layer.relationsOf ids⟩ := by
  intro r hr
  obtain ⟨a, -, hstored⟩ := List.mem_filterMap.mp hr
  exact h.recorded a r hstored

end Layer
end BorderTiles
