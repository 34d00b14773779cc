import BorderTiles.Proofs.Fractions
import BorderTiles.Proofs.Plane.Covers
import BorderTiles.Proofs.Tile.Assign

/-!
# Tile — nothing on the map is lost

The tile of a position and the box of a tile are two formulas.  `assign_covers`: in exact arithmetic
they agree, so that every position of a feature on the map is in the feature's part in the tile of the
position, at the edges of tiles and of the map as well.

`bounds_tile` is the step from the corners of a feature's box to its positions: their tiles lie between
those of the corners.
-/

namespace BorderTiles.Tile
variable {α ρ K : Type} [Mercator α] [Field K] [LinearOrder K] [IsStrictOrderedRing K]
  {val : α → K} {k : Kernel α ρ} {f : Feature α} {g : Geometry α}

/-- The tile of a position in a box is one of those looked at for the box. -/
theorem bounds_tile (h : Mercator.Exact val) {box : Box α} {lat lon : α}
    (hbox : box.Holds val (val lon) (val lat)) {zoom : Nat} {tile : Int × Int}
    (htile : Mercator.tileOf lat lon (.whole zoom) = .ok tile) :
    ∃ tiles, tilesAround box zoom = .ok tiles ∧ tile ∈ tiles := by
  obtain ⟨_, _, -, -, h₁⟩ := h.tileOf_ok box.minY box.minX zoom
  obtain ⟨_, _, -, -, h₂⟩ := h.tileOf_ok box.maxY box.maxX zoom
  obtain ⟨tiles, htiles, hmem⟩ := mem_tilesAround h₁ h₂
  obtain ⟨hwest, hsouth⟩ := h.tileOf_le hbox.lower hbox.left h₁ htile
  obtain ⟨heast, hnorth⟩ := h.tileOf_le hbox.upper hbox.right htile h₂
  refine ⟨tiles, htiles, (hmem tile).mpr ⟨⟨?_, ?_⟩, ⟨?_, ?_⟩⟩⟩
  · exact (min_le_left _ _).trans hwest
  · exact heast.trans (le_max_right _ _)
  · exact (min_le_right _ _).trans hnorth
  · exact hsouth.trans (le_max_left _ _)

/-- **Every position of a feature on the map is in the feature's part in the tile of the position**,
which is a tile of the zoom, at every zoom at which the feature is drawn. -/
theorem assign_covers (h : Mercator.Exact val) {features : List (Feature α)} {zoom : Int}
    (hzoom : 0 ≤ zoom)
    (hbuffers : ∀ f ∈ features, ∃ m : α, Scalar.ofNumber f.buffer = .ok m)
    (hf : f ∈ features) (hdrawn : f.minZoom ≤ zoom ∧ zoom ≤ f.maxZoom)
    (hbuffer : ∀ m : α, Scalar.ofNumber f.buffer = .ok m → 0 ≤ val m)
    (hg : f.geometry = some g) (hk : k.ExactOn val g) {lat lon : α}
    (hmap : Mercator.OnMap val lat lon) (hcovers : g.Covers val (val lon) (val lat)) :
    ∃ tile box sheet, Mercator.tileOf lat lon (.whole zoom) = .ok tile ∧
      (0 ≤ tile.1 ∧ tile.1 ≤ 2 ^ zoom.toNat - 1) ∧ (0 ≤ tile.2 ∧ tile.2 ≤ 2 ^ zoom.toNat - 1) ∧
      Mercator.tileBox tile.1 tile.2 (.whole zoom) f.buffer = .ok box ∧
      assign k features zoom = .ok sheet ∧
      { f with geometry := some (k.clip g box) } ∈ sheet.listOf tile ∧
      (k.clip g box).Covers val (val lon) (val lat) := by
  obtain ⟨zoom, rfl⟩ := Int.eq_ofNat_of_zero_le hzoom
  obtain ⟨x, y, htile, hx, hy, -⟩ := h.tileOf_spec hmap zoom
  obtain ⟨m, hm⟩ := hbuffers f hf
  obtain ⟨box, hbox, hproper, hholds⟩ := h.tileBox_holds hmap htile hm (hbuffer m hm)
  have hclip : (k.clip g box).Covers val (val lon) (val lat) :=
    (hk.clip box hproper _ _).mpr ⟨hcovers, hholds⟩
  have hmeets : k.meets g box = true := (hk.meets box hproper).mpr ⟨_, _, hcovers, hholds⟩
  obtain ⟨around, haround, hinside⟩ := hk.bounds _ _ hcovers
  obtain ⟨tiles, htiles, hmem⟩ := bounds_tile h hinside htile
  -- all features are cut without a fault, whatever the kernel says of their geometries
  have hcut : ∀ f ∈ features, ∃ parts, partsOf k (zoom : Int) f = .ok parts := by
    intro f hf
    obtain ⟨m, hm⟩ := hbuffers f hf
    refine partsOf_ok k f (fun lat lon => ?_) fun x y => ?_
    · obtain ⟨_, _, -, -, htile⟩ := h.tileOf_ok lat lon zoom
      exact ⟨_, htile⟩
    · obtain ⟨box, _, _, hbox, -⟩ := h.tileBox_ok x y zoom hm
      exact ⟨box, hbox⟩
  obtain ⟨sheet, hsheet, hall⟩ := assign_ok hcut
  obtain ⟨parts, hparts⟩ := hcut f hf
  have hpart := partIn?_of_meets (f := f) hbox hmeets (Geometry.not_isEmpty_of_covers hclip)
  have hplaced := mem_of_partsOf hdrawn hg (Geometry.not_isEmpty_of_covers hcovers) haround htiles
    hmem hpart hparts
  exact ⟨(x, y), box, sheet, htile, hx, hy, hbox, hsheet, hall f hf parts hparts _ _ hplaced, hclip⟩

/-! ### Lines along a parallel -/

/-- The part of a parallel between two longitudes. -/
def stretch (left right y : Rat) : Geometry Rat :=
  if left < right then .line [⟨left, y, none⟩, ⟨right, y, none⟩]
  else if left = right then .point (some ⟨left, y, none⟩)
  else .point none

theorem covers_stretch {left right y x z : Rat} :
    (stretch left right y).Covers id x z ↔ (left ≤ x ∧ x ≤ right) ∧ z = y := by
  rcases lt_trichotomy left right with hlt | heq | hgt
  · have hwidth : 0 < right - left := sub_pos.mpr hlt
    rw [stretch, if_pos hlt, Geometry.Covers]
    constructor
    · rintro (⟨t, h0, h1, rfl, rfl⟩ | ⟨rfl, rfl⟩)
      · simp only [id, sub_self, mul_zero, add_zero, and_true]
        constructor <;> nlinarith
      · exact ⟨⟨hlt.le, le_refl _⟩, rfl⟩
    · rintro ⟨⟨hleft, hright⟩, rfl⟩
      refine .inl ⟨(x - left) / (right - left), div_nonneg (sub_nonneg.mpr hleft) hwidth.le,
        (div_le_one hwidth).mpr (by linarith), ?_, ?_⟩
      · simp only [id, div_mul_cancel₀ _ hwidth.ne', add_sub_cancel]
      · simp
  · subst heq
    rw [stretch, if_neg (lt_irrefl left), if_pos rfl, Geometry.Covers]
    constructor
    · rintro ⟨_, h, rfl, rfl⟩
      cases h
      exact ⟨⟨le_refl _, le_refl _⟩, rfl⟩
    · rintro ⟨⟨hleft, hright⟩, rfl⟩
      exact ⟨_, rfl, le_antisymm hright hleft, rfl⟩
  · rw [stretch, if_neg (not_lt.mpr hgt.le), if_neg hgt.ne', Geometry.Covers]
    constructor
    · rintro ⟨_, h, -⟩
      cases h
    · rintro ⟨⟨hleft, hright⟩, -⟩
      exact absurd (hleft.trans hright) (not_le.mpr hgt)

/-- The part of a line along a parallel inside a box. -/
def clipParallel : Geometry Rat → Box Rat → Geometry Rat
  | .line [p, q], b =>
    if b.minY ≤ p.y ∧ p.y ≤ b.maxY then stretch (max p.x b.minX) (min q.x b.maxX) p.y
    else .point none
  | g, _ => g

theorem covers_clipParallel {left right y x z : Rat} {b : Box Rat} :
    (clipParallel (.line [⟨left, y, none⟩, ⟨right, y, none⟩]) b).Covers id x z ↔
      ((left ≤ x ∧ x ≤ right) ∧ z = y) ∧ b.Holds id x z := by
  rw [clipParallel]
  split
  · next hy =>
      rw [covers_stretch, max_le_iff, le_min_iff]
      constructor
      · rintro ⟨⟨⟨hleft, hleft'⟩, hright, hright'⟩, rfl⟩
        exact ⟨⟨⟨hleft, hright⟩, rfl⟩, ⟨hleft', hright', hy.1, hy.2⟩⟩
      · rintro ⟨⟨⟨hleft, hright⟩, rfl⟩, hholds⟩
        exact ⟨⟨⟨hleft, hholds.left⟩, hright, hholds.right⟩, rfl⟩
  · next hy =>
      rw [Geometry.Covers]
      constructor
      · rintro ⟨_, hnone, -⟩
        cases hnone
      · rintro ⟨⟨-, rfl⟩, hholds⟩
        exact absurd ⟨hholds.lower, hholds.upper⟩ hy

/-- What is not empty of a parallel covers its western end. -/
theorem exists_covers_stretch {left right y : Rat} (h : (stretch left right y).isEmpty = false) :
    ∃ x z, (stretch left right y).Covers id x z := by
  refine ⟨left, y, covers_stretch.mpr ⟨⟨le_refl left, ?_⟩, rfl⟩⟩
  by_contra hlt
  have hgt : right < left := not_le.mp hlt
  rw [stretch, if_neg (not_lt.mpr hgt.le), if_neg hgt.ne'] at h
  cases h

/-- Plane geometry on lines along parallels. -/
def parallels : Kernel Rat (Box Rat) where
  __ := Kernel.upright
  meets g b := !(clipParallel g b).isEmpty
  clip := clipParallel

/-- On a line that goes eastward it is exact. -/
theorem parallels_exactOn {left right y : Rat} (h : left < right) :
    parallels.ExactOn id (.line [⟨left, y, none⟩, ⟨right, y, none⟩]) := by
  have hline : ∀ x z, (Geometry.line [⟨left, y, none⟩, ⟨right, y, none⟩]).Covers id x z ↔
      (left ≤ x ∧ x ≤ right) ∧ z = y := by
    intro x z
    rw [← covers_stretch, stretch, if_pos h]
  have hmeets : ∀ b : Box Rat,
      (clipParallel (.line [⟨left, y, none⟩, ⟨right, y, none⟩]) b).isEmpty = false →
        ∃ x z, (clipParallel (.line [⟨left, y, none⟩, ⟨right, y, none⟩]) b).Covers id x z := by
    intro b hne
    rw [clipParallel] at hne ⊢
    split at hne
    · next hy =>
        rw [if_pos hy]
        exact exists_covers_stretch hne
    · cases hne
  exact {
    bounds := by
      intro x z hcovers
      obtain ⟨⟨hleft, hright⟩, rfl⟩ := (hline x z).mp hcovers
      refine ⟨_, rfl, ⟨?_, ?_, ?_, ?_⟩⟩
      · exact (exact_rat.val_least left right).trans_le ((min_le_left _ _).trans hleft)
      · exact hright.trans ((le_max_right _ _).trans_eq (exact_rat.val_greatest left right).symm)
      · exact (exact_rat.val_least z z).trans_le (min_le_left _ _)
      · exact (le_max_left _ _).trans_eq (exact_rat.val_greatest z z).symm
    meets := by
      intro b _
      simp only [parallels, Bool.not_eq_true', hline]
      constructor
      · intro hne
        obtain ⟨x, z, hcovers⟩ := hmeets b hne
        exact ⟨x, z, covers_clipParallel.mp hcovers⟩
      · rintro ⟨x, z, hcovers⟩
        exact Geometry.not_isEmpty_of_covers (covers_clipParallel.mpr hcovers)
    clip := by
      intro b _ x z
      rw [hline]
      exact covers_clipParallel }

/-- A border along the equator, beyond the map in the west. -/
def equator : Feature Rat where
  layer := Feature.layerName
  geometry := some (.line [⟨-200, 0, none⟩, ⟨100, 0, none⟩])
  attrs := ∅
  minZoom := 0
  maxZoom := 14
  buffer := .whole 4
  id := some 1

/-- A feature without a geometry. -/
def bare : Feature Rat := { equator with geometry := none, buffer := .whole (-4) }

/-- At zoom 2 the place where the equator meets the meridian of 90° east is on the edges of four tiles;
it is in the part of the border in the one to the south-east. -/
theorem assign_covers_equator : ∃ sheet part, assign parallels [bare, equator] 2 = .ok sheet ∧
    { equator with geometry := some part } ∈ sheet.listOf (3, 2) ∧ part.Covers id (90 : Rat) 0 := by
  have hbuffers : ∀ f ∈ [bare, equator], ∃ m : Rat, Scalar.ofNumber f.buffer = .ok m := by
    simp only [List.forall_mem_cons, List.not_mem_nil, false_imp_iff, implies_true, and_true]
    exact ⟨⟨-4, rfl⟩, ⟨4, rfl⟩⟩
  have hf : equator ∈ [bare, equator] := List.mem_cons_of_mem bare List.mem_cons_self
  have hbuffer : ∀ m : Rat, Scalar.ofNumber equator.buffer = .ok m → 0 ≤ id m := by
    rintro m ⟨⟩
    decide +kernel
  have hmap : Mercator.OnMap id (0 : Rat) 90 := ⟨by decide +kernel, by decide +kernel,
    by decide +kernel, by decide +kernel⟩
  have hexact : parallels.ExactOn id (.line [⟨-200, 0, none⟩, ⟨100, 0, none⟩]) :=
    parallels_exactOn (by decide +kernel)
  have hcovers : (Geometry.line [⟨-200, 0, none⟩, ⟨100, 0, none⟩]).Covers id (id (90 : Rat))
      (id (0 : Rat)) := by
    have hstretch : stretch (-200) 100 0 = .line [⟨-200, 0, none⟩, ⟨100, 0, none⟩] :=
      if_pos (by decide +kernel)
    rw [← hstretch, covers_stretch]
    decide +kernel
  have hcorner : Mercator.tileOf (0 : Rat) 90 (.whole 2) = .ok (3, 2) := by
    decide +kernel
  obtain ⟨tile, box, sheet, htile, -, -, -, hsheet, hpart, hplace⟩ := assign_covers exact_rat
    (by decide : (0 : Int) ≤ 2) hbuffers hf (by decide) hbuffer rfl hexact hmap hcovers
  cases hcorner.symm.trans htile
  exact ⟨sheet, _, hsheet, hpart, hplace⟩

end BorderTiles.Tile
