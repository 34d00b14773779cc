import BorderTiles.Mercator
import Mathlib.Algebra.Order.Field.Basic
import Mathlib.Tactic.Linarith
import Mathlib.Tactic.Positivity

/-!
# Exact — tiles in exact arithmetic

Numbers are `Scalar.Exact` if each of them stands for an element of an ordered field and they are
calculated with as these are; with `Mercator.Exact` numbers also the two maps of the projection are
strictly decreasing and inverse to each other.

* `WholePart.mono`: cutting off toward zero keeps the order, also across zero.
* `tileOf_ok`, `tileOf_spec`, `tileOf_le`: every position has a tile; one on the map lies between the
  edges of its tile; and tiles go eastward with the longitude and northward with the latitude.
* `tileBox_ok`, `tileBox_holds`: every tile has a box; that of the tile of a position holds it.
-/

namespace BorderTiles
variable {α K : Type} [Field K] [LinearOrder K]

/-- A box with a width and a height. -/
structure Box.Proper (val : α → K) (b : Box α) : Prop where
  width : val b.minX < val b.maxX
  height : val b.minY < val b.maxY

/-- A box holds a place inside it or on its edge. -/
structure Box.Holds (val : α → K) (b : Box α) (x y : K) : Prop where
  left : val b.minX ≤ x
  right : x ≤ val b.maxX
  lower : val b.minY ≤ y
  upper : y ≤ val b.maxY

/-- `i` is `v` with its fraction cut off, toward zero. -/
structure WholePart (v : K) (i : Int) : Prop where
  of_nonneg : 0 ≤ v → (i : K) ≤ v ∧ v < i + 1
  of_nonpos : v ≤ 0 → (i : K) - 1 < v ∧ v ≤ i

/-- Numbers that stand for elements of an ordered field, calculated with without rounding. -/
structure Scalar.Exact [Scalar α] (val : α → K) : Prop where
  injective : Function.Injective val
  add : ∀ a b : α, val (a + b) = val a + val b
  sub : ∀ a b : α, val (a - b) = val a - val b
  mul : ∀ a b : α, val (a * b) = val a * val b
  neg : ∀ a : α, val (-a) = -val a
  div : ∀ a b : α, val b ≠ 0 → val (a / b) = val a / val b
  ofNat : ∀ n : Nat, val (Scalar.ofNat n) = n
  ofWhole : ∀ n : Int, ∃ a : α, Scalar.ofWhole n = .ok a ∧ val a = n
  lt : ∀ a b : α, Scalar.lt a b = true ↔ val a < val b
  eq : ∀ a b : α, Scalar.eq a b = true ↔ val a = val b
  truncate : ∀ a : α, ∃ i, Scalar.truncate a = .ok i ∧ WholePart (val a) i
  twoPow : ∀ n : Nat, ∃ a : α, Scalar.twoPow (.whole n) = .ok a ∧ val a = 2 ^ n

/-- Exact numbers with the two maps of the projection: between the limits of the map and the unit
interval they are strictly decreasing and inverse to each other. -/
structure Mercator.Exact [Mercator α] (val : α → K) : Prop extends Scalar.Exact val where
  limit_nonneg : 0 ≤ val Mercator.limit
  depth_mem : ∀ a : α, -val Mercator.limit ≤ val a → val a ≤ val Mercator.limit →
    0 ≤ val (Mercator.depth a) ∧ val (Mercator.depth a) ≤ 1
  depth_lt : ∀ a b : α, -val Mercator.limit ≤ val a → val a < val b → val b ≤ val Mercator.limit →
    val (Mercator.depth b) < val (Mercator.depth a)
  latitude_ok : ∀ y : α, ∃ lat, Mercator.latitude y = .ok lat
  latitude_mem : ∀ y lat : α, 0 ≤ val y → val y ≤ 1 → Mercator.latitude y = .ok lat →
    -val Mercator.limit ≤ val lat ∧ val lat ≤ val Mercator.limit
  depth_latitude : ∀ y lat : α, 0 ≤ val y → val y ≤ 1 → Mercator.latitude y = .ok lat →
    Mercator.depth lat = y

/-! ### Calculations -/

namespace Scalar.Exact
variable [Scalar α] {val : α → K} (h : Scalar.Exact val)
include h

theorem val_least (a b : α) : val (Scalar.least a b) = min (val a) (val b) := by
  rw [Scalar.least]
  split
  · next hlt => exact (min_eq_right ((h.lt b a).mp hlt).le).symm
  · next hlt => exact (min_eq_left (not_lt.mp (mt (h.lt b a).mpr hlt))).symm

theorem val_greatest (a b : α) : val (Scalar.greatest a b) = max (val a) (val b) := by
  rw [Scalar.greatest]
  split
  · next hlt => exact (max_eq_right ((h.lt a b).mp hlt).le).symm
  · next hlt => exact (max_eq_left (not_lt.mp (mt (h.lt a b).mpr hlt))).symm

theorem divide_ok (a : α) {b : α} (hb : val b ≠ 0) : Scalar.divide a b = .ok (a / b) := by
  have hne : ¬ Scalar.eq b (Scalar.ofNat 0) = true := by
    rw [h.eq, h.ofNat, Nat.cast_zero]
    exact hb
  rw [Scalar.divide, if_neg hne]

end Scalar.Exact

namespace Mercator.Exact
variable [Mercator α] {val : α → K} (h : Mercator.Exact val)
include h

theorem val_clamp (lat : α) : val (clamp lat) = max (-val limit) (min (val limit) (val lat)) := by
  rw [clamp, h.val_greatest, h.val_least, h.neg]

/-- Latitudes on the map are not moved. -/
theorem clamp_of_mem {lat : α} (hmin : -val limit ≤ val lat) (hmax : val lat ≤ val limit) :
    clamp lat = lat := by
  refine h.injective ?_
  rw [h.val_clamp, min_eq_right hmax, max_eq_right hmin]

/-- What is less deep is further north. -/
theorem le_of_depth_le {a b : α} (ha : val a ≤ val limit) (hb : -val limit ≤ val b)
    (hle : val (depth b) ≤ val (depth a)) : val a ≤ val b := by
  by_contra hlt
  exact absurd (h.depth_lt b a hb (not_le.mp hlt) ha) (not_lt.mpr hle)

/-- The latitude of an edge is north of all that is deeper and south of all that is less deep. -/
theorem latitude_edge {y edge lat : α} (hlat : -val limit ≤ val lat ∧ val lat ≤ val limit)
    (hy : 0 ≤ val y) (hy' : val y ≤ 1) (hedge : latitude y = .ok edge) :
    (val y ≤ val (depth lat) → val lat ≤ val edge) ∧
      (val (depth lat) ≤ val y → val edge ≤ val lat) := by
  obtain ⟨hmin, hmax⟩ := h.latitude_mem y edge hy hy' hedge
  have hdepth := h.depth_latitude y edge hy hy' hedge
  exact ⟨fun hle => h.le_of_depth_le hlat.2 hmin (hdepth ▸ hle),
    fun hle => h.le_of_depth_le hmax hlat.1 (hdepth ▸ hle)⟩

end Mercator.Exact

variable [IsStrictOrderedRing K]

/-! ### Whole parts -/

/-- Cutting off the fraction keeps the order, also across zero. -/
theorem WholePart.mono {v w : K} {i j : Int} (hi : WholePart v i) (hj : WholePart w j)
    (h : v ≤ w) : i ≤ j := by
  rcases le_total 0 v with hv | hv
  · have hlt : (i : K) < j + 1 :=
      (hi.of_nonneg hv).1.trans_lt (h.trans_lt (hj.of_nonneg (hv.trans h)).2)
    exact Int.lt_add_one_iff.mp (by exact_mod_cast hlt)
  · -- below zero the cut goes up, but not beyond zero
    have hiv := (hi.of_nonpos hv).1
    rcases le_total 0 w with hw | hw
    · have hi0 : (i : K) < 0 + 1 := by linarith
      have hj0 : (0 : K) < j + 1 := hw.trans_lt (hj.of_nonneg hw).2
      have hi0' : i ≤ 0 := Int.lt_add_one_iff.mp (by exact_mod_cast hi0)
      have hj0' : 0 ≤ j := Int.lt_add_one_iff.mp (by exact_mod_cast hj0)
      exact hi0'.trans hj0'
    · have hlt : (i : K) < j + 1 := by linarith [(hj.of_nonpos hw).2]
      exact Int.lt_add_one_iff.mp (by exact_mod_cast hlt)

theorem wholePart_cast (n : Int) : WholePart (n : K) n where
  of_nonneg _ := ⟨le_refl _, lt_add_one _⟩
  of_nonpos _ := ⟨sub_one_lt _, le_refl _⟩

/-- The whole part of a fraction is its quotient. -/
theorem wholePart_div (a : Nat) {b : Nat} (hb : 0 < b) :
    WholePart ((a : K) / b) ((a / b : Nat) : Int) := by
  have hpos : (0 : K) < b := Nat.cast_pos.mpr hb
  have hle : ((a / b : Nat) : K) ≤ a / b := by
    rw [le_div_iff₀ hpos]
    exact_mod_cast Nat.div_mul_le_self a b
  have hlt : (a : K) / b < (a / b : Nat) + 1 := by
    rw [div_lt_iff₀ hpos]
    exact_mod_cast Nat.lt_mul_of_div_lt (Nat.lt_succ_self _) hb
  constructor
  · intro _
    rw [Int.cast_natCast]
    exact ⟨hle, hlt⟩
  · intro hnonpos
    have hcount : (0 : K) ≤ (a / b : Nat) := Nat.cast_nonneg _
    rw [Int.cast_natCast]
    constructor <;> linarith

theorem WholePart.unique {v : K} {i j : Int} (hi : WholePart v i) (hj : WholePart v j) : i = j :=
  le_antisymm (hi.mono hj (le_refl v)) (hj.mono hi (le_refl v))

theorem clampIndex_mono (last : Int) {i j : Int} (h : i ≤ j) :
    Mercator.clampIndex last i ≤ Mercator.clampIndex last j := by
  unfold Mercator.clampIndex
  omega

/-- A place of the map lies between the edges of its index; the last index has both of its edges. -/
theorem WholePart.clampIndex_spec {v : K} {i last : Int} (h : WholePart v i) (hlast : 0 ≤ last)
    (hv : 0 ≤ v) (hv' : v ≤ last + 1) :
    (0 ≤ Mercator.clampIndex last i ∧ Mercator.clampIndex last i ≤ last) ∧
      (Mercator.clampIndex last i : K) ≤ v ∧ v ≤ Mercator.clampIndex last i + 1 := by
  obtain ⟨hle, hlt⟩ := h.of_nonneg hv
  have hi : 0 ≤ i := Int.lt_add_one_iff.mp (by exact_mod_cast hv.trans_lt hlt)
  rcases le_total i last with hcase | hcase
  · have hclamp : Mercator.clampIndex last i = i := by unfold Mercator.clampIndex; omega
    rw [hclamp]
    exact ⟨⟨hi, hcase⟩, hle, hlt.le⟩
  · -- the far edge of the map, which belongs to the last index
    have hclamp : Mercator.clampIndex last i = last := by unfold Mercator.clampIndex; omega
    rw [hclamp]
    exact ⟨⟨hlast, le_refl last⟩, (Int.cast_le.mpr hcase).trans hle, hv'⟩

/-! ### Places on the map -/

namespace Mercator.Exact
variable [Mercator α] {val : α → K} (h : Mercator.Exact val)
include h

theorem val_easting (lon : α) : val (easting lon) = (val lon + 180) / 360 := by
  have h360 : val (Scalar.ofNat 360 : α) = 360 := h.ofNat 360
  have h180 : val (Scalar.ofNat 180 : α) = 180 := h.ofNat 180
  rw [easting, h.div _ _ (by rw [h360]; norm_num), h.add, h360, h180]

theorem clamp_mem (lat : α) : -val limit ≤ val (clamp lat) ∧ val (clamp lat) ≤ val limit := by
  rw [h.val_clamp]
  refine ⟨le_max_left _ _, max_le ?_ (min_le_left _ _)⟩
  exact (neg_nonpos.mpr h.limit_nonneg).trans h.limit_nonneg

/-- The further north, the less deep, also beyond the limits. -/
theorem depth_clamp_le {a b : α} (hab : val a ≤ val b) :
    val (depth (clamp b)) ≤ val (depth (clamp a)) := by
  have hle : val (clamp a) ≤ val (clamp b) := by
    rw [h.val_clamp, h.val_clamp]
    exact max_le_max (le_refl _) (min_le_min (le_refl _) hab)
  rcases hle.lt_or_eq with hlt | heq
  · exact (h.depth_lt _ _ (h.clamp_mem a).1 hlt (h.clamp_mem b).2).le
  · rw [h.injective heq]

/-! ### The tile of a position -/

/-- Every position has a tile. -/
theorem tileOf_ok (lat lon : α) (zoom : Nat) : ∃ i j,
    WholePart ((val lon + 180) / 360 * 2 ^ zoom) i ∧
      WholePart (val (depth (clamp lat)) * 2 ^ zoom) j ∧
      tileOf lat lon (.whole zoom) =
        .ok (clampIndex (2 ^ zoom - 1) i, clampIndex (2 ^ zoom - 1) j) := by
  obtain ⟨n, hn, hval⟩ := h.twoPow zoom
  obtain ⟨i, hi, hx⟩ := h.truncate (easting lon * n)
  obtain ⟨j, hj, hy⟩ := h.truncate (depth (clamp lat) * n)
  obtain ⟨count, hcount, hlast⟩ := h.truncate n
  rw [h.mul, h.val_easting, hval] at hx
  rw [h.mul, hval] at hy
  -- the number of tiles is whole, so that cutting it off changes nothing
  have hcast : val n = ((2 ^ zoom : Int) : K) := by rw [hval]; push_cast; rfl
  rw [hcast] at hlast
  obtain rfl : count = 2 ^ zoom := hlast.unique (wholePart_cast _)
  refine ⟨i, j, hx, hy, ?_⟩
  simp only [tileOf, hn, toWorld, hi, hj, hcount, bind, Except.bind]
  rfl

/-- Tiles go eastward with the longitude and northward with the latitude. -/
theorem tileOf_le {lat₁ lon₁ lat₂ lon₂ : α} {zoom : Nat} {t₁ t₂ : Int × Int}
    (hlat : val lat₁ ≤ val lat₂) (hlon : val lon₁ ≤ val lon₂)
    (h₁ : tileOf lat₁ lon₁ (.whole zoom) = .ok t₁) (h₂ : tileOf lat₂ lon₂ (.whole zoom) = .ok t₂) :
    t₁.1 ≤ t₂.1 ∧ t₂.2 ≤ t₁.2 := by
  obtain ⟨i₁, j₁, hi₁, hj₁, e₁⟩ := h.tileOf_ok lat₁ lon₁ zoom
  obtain ⟨i₂, j₂, hi₂, hj₂, e₂⟩ := h.tileOf_ok lat₂ lon₂ zoom
  cases h₁.symm.trans e₁
  cases h₂.symm.trans e₂
  have hscale : (0 : K) ≤ 2 ^ zoom := by positivity
  refine ⟨clampIndex_mono _ (hi₁.mono hi₂ ?_), clampIndex_mono _ (hj₂.mono hj₁ ?_)⟩
  · have heast : (val lon₁ + 180) / 360 ≤ (val lon₂ + 180) / 360 := by linarith
    exact mul_le_mul_of_nonneg_right heast hscale
  · exact mul_le_mul_of_nonneg_right (h.depth_clamp_le hlat) hscale

end Mercator.Exact

/-- A position on the map. -/
structure Mercator.OnMap [Mercator α] (val : α → K) (lat lon : α) : Prop where
  west : -180 ≤ val lon
  east : val lon ≤ 180
  south : -val limit ≤ val lat
  north : val lat ≤ val limit

namespace Mercator.Exact
variable [Mercator α] {val : α → K} (h : Mercator.Exact val)
include h

/-- **A position on the map lies between the edges of its tile**, which is a tile of the zoom. -/
theorem tileOf_spec {lat lon : α} (hmap : OnMap val lat lon) (zoom : Nat) :
    ∃ x y : Int, tileOf lat lon (.whole zoom) = .ok (x, y) ∧
      (0 ≤ x ∧ x ≤ 2 ^ zoom - 1) ∧ (0 ≤ y ∧ y ≤ 2 ^ zoom - 1) ∧
      ((x : K) ≤ (val lon + 180) / 360 * 2 ^ zoom ∧ (val lon + 180) / 360 * 2 ^ zoom ≤ x + 1) ∧
      ((y : K) ≤ val (depth lat) * 2 ^ zoom ∧ val (depth lat) * 2 ^ zoom ≤ y + 1) := by
  obtain ⟨i, j, hi, hj, htile⟩ := h.tileOf_ok lat lon zoom
  rw [h.clamp_of_mem hmap.south hmap.north] at hj
  obtain ⟨hdepth, hdepth'⟩ := h.depth_mem lat hmap.south hmap.north
  have hwest := hmap.west
  have heast := hmap.east
  have hscale : (0 : K) ≤ 2 ^ zoom := by positivity
  have hlast : (0 : Int) ≤ 2 ^ zoom - 1 := by
    have : (0 : Int) < 2 ^ zoom := by positivity
    omega
  have hcast : ((2 ^ zoom - 1 : Int) : K) + 1 = 2 ^ zoom := by
    push_cast
    exact sub_add_cancel _ _
  have hu : (0 : K) ≤ (val lon + 180) / 360 := by linarith
  have hu' : (val lon + 180) / 360 ≤ 1 := by linarith
  obtain ⟨hx, hxedges⟩ := hi.clampIndex_spec hlast (mul_nonneg hu hscale)
    (by rw [hcast]; exact mul_le_of_le_one_left hscale hu')
  obtain ⟨hy, hyedges⟩ := hj.clampIndex_spec hlast (mul_nonneg hdepth hscale)
    (by rw [hcast]; exact mul_le_of_le_one_left hscale hdepth')
  exact ⟨_, _, htile, hx, hy, hxedges, hyedges⟩

/-! ### The box of a tile -/

/-- An edge of a tile, moved by a margin to either side. -/
theorem edge_ok {m n : α} {zoom : Nat} (hn : val n = 2 ^ zoom) (i : Int) :
    ∃ w below above : α, Scalar.ofWhole i = .ok w ∧
      (Scalar.divide (w - m) n = .ok below ∧ val below = (i - val m) / 2 ^ zoom) ∧
      (Scalar.divide (w + m) n = .ok above ∧ val above = (i + val m) / 2 ^ zoom) := by
  obtain ⟨w, hw, hval⟩ := h.ofWhole i
  have hne : val n ≠ 0 := by rw [hn]; positivity
  refine ⟨w, _, _, hw, ⟨h.divide_ok _ hne, ?_⟩, ⟨h.divide_ok _ hne, ?_⟩⟩
  · rw [h.div _ _ hne, h.sub, hval, hn]
  · rw [h.div _ _ hne, h.add, hval, hn]

/-- **Every tile has a box**, which does not go beyond the map in the south and north. -/
theorem tileBox_ok (x y : Int) (zoom : Nat) {margin : Number} {m : α}
    (hm : Scalar.ofNumber margin = .ok m) : ∃ (box : Box α) (top bottom : α),
      tileBox x y (.whole zoom) margin = .ok box ∧
      val box.minX = (x - val m / 256) / 2 ^ zoom * 360 - 180 ∧
      val box.maxX = (x + 1 + val m / 256) / 2 ^ zoom * 360 - 180 ∧
      (latitude top = .ok box.maxY ∧ val top = max 0 ((y - val m / 256) / 2 ^ zoom)) ∧
      (latitude bottom = .ok box.minY ∧ val bottom = min 1 ((y + 1 + val m / 256) / 2 ^ zoom)) := by
  obtain ⟨n, hn, hval⟩ := h.twoPow zoom
  have h256 : val (Scalar.ofNat tileSize : α) = 256 := h.ofNat 256
  have h360 : val (Scalar.ofNat 360 : α) = 360 := h.ofNat 360
  have h180 : val (Scalar.ofNat 180 : α) = 180 := h.ofNat 180
  have hgrow : val (m / Scalar.ofNat tileSize) = val m / 256 := by
    rw [h.div _ _ (by rw [h256]; norm_num), h256]
  obtain ⟨wx, left, -, hwx, ⟨hleft, hminX⟩, -⟩ := h.edge_ok (m := m / Scalar.ofNat tileSize) hval x
  obtain ⟨wy, top, -, hwy, ⟨htop, hminY⟩, -⟩ := h.edge_ok (m := m / Scalar.ofNat tileSize) hval y
  obtain ⟨wx', -, right, hwx', -, hright, hmaxX⟩ :=
    h.edge_ok (m := m / Scalar.ofNat tileSize) hval (x + 1)
  obtain ⟨wy', -, bottom, hwy', -, hbottom, hmaxY⟩ :=
    h.edge_ok (m := m / Scalar.ofNat tileSize) hval (y + 1)
  obtain ⟨north, hnorth⟩ := h.latitude_ok (Scalar.greatest (Scalar.ofNat 0) top)
  obtain ⟨south, hsouth⟩ := h.latitude_ok (Scalar.least (Scalar.ofNat 1) bottom)
  rw [hgrow] at hminX hminY hmaxX hmaxY
  push_cast at hmaxX hmaxY
  refine ⟨⟨left * Scalar.ofNat 360 - Scalar.ofNat 180, south,
    right * Scalar.ofNat 360 - Scalar.ofNat 180, north⟩, _, _, ?_, ?_, ?_, ⟨hnorth, ?_⟩,
    ⟨hsouth, ?_⟩⟩
  · simp only [tileBox, hn, hm, hwx, hwy, hwx', hwy', hleft, htop, hright, hbottom, ofWorld, hnorth,
      hsouth, bind, Except.bind]
    rfl
  · rw [h.sub, h.mul, hminX, h360, h180]
  · rw [h.sub, h.mul, hmaxX, h360, h180]
  · rw [h.val_greatest, hminY, h.ofNat, Nat.cast_zero]
  · rw [h.val_least, hmaxY, h.ofNat, Nat.cast_one]

omit h in
/-- A place between the edges of a tile is between them with a margin. -/
theorem between_margins {v scale i margin : K} (hscale : 0 < scale) (hmargin : 0 ≤ margin)
    (hi : i ≤ v * scale) (hi' : v * scale ≤ i + 1) :
    (i - margin) / scale ≤ v ∧ v ≤ (i + 1 + margin) / scale := by
  rw [div_le_iff₀ hscale, le_div_iff₀ hscale]
  constructor <;> linarith

/-- **The box of the tile of a position holds the position**, with any margin. -/
theorem tileBox_holds {lat lon : α} (hmap : OnMap val lat lon) {zoom : Nat} {tile : Int × Int}
    (htile : tileOf lat lon (.whole zoom) = .ok tile) {margin : Number} {m : α}
    (hm : Scalar.ofNumber margin = .ok m) (hpos : 0 ≤ val m) :
    ∃ box, tileBox tile.1 tile.2 (.whole zoom) margin = .ok box ∧ box.Proper val ∧
      box.Holds val (val lon) (val lat) := by
  obtain ⟨x, y, htile', -, ⟨hy0, hy1⟩, ⟨hx, hx'⟩, hy, hy'⟩ := h.tileOf_spec hmap zoom
  cases htile'.symm.trans htile
  obtain ⟨box, top, bottom, hbox, hminX, hmaxX, ⟨hmaxY, htop⟩, hminY, hbottom⟩ :=
    h.tileBox_ok x y zoom hm
  obtain ⟨hdepth, hdepth'⟩ := h.depth_mem lat hmap.south hmap.north
  have hscale : (0 : K) < 2 ^ zoom := by positivity
  have hmargin : (0 : K) ≤ val m / 256 := by positivity
  obtain ⟨hwest, heast⟩ := between_margins hscale hmargin hx hx'
  obtain ⟨hnorth, hsouth⟩ := between_margins hscale hmargin hy hy'
  -- the edges in the north and south stay on the map, so that their latitudes are those of the map
  have htop' : val top ≤ val (depth lat) := htop ▸ max_le hdepth hnorth
  have hbottom' : val (depth lat) ≤ val bottom := hbottom ▸ le_min hdepth' hsouth
  have htop0 : 0 ≤ val top := htop ▸ le_max_left _ _
  have hbottom1 : val bottom ≤ 1 := hbottom ▸ min_le_left _ _
  have hupper : val lat ≤ val box.maxY :=
    (h.latitude_edge ⟨hmap.south, hmap.north⟩ htop0 (htop'.trans hdepth') hmaxY).1 htop'
  have hlower : val box.minY ≤ val lat :=
    (h.latitude_edge ⟨hmap.south, hmap.north⟩ (hdepth.trans hbottom') hbottom1 hminY).2 hbottom'
  refine ⟨box, hbox, ⟨?_, lt_of_le_of_ne (hlower.trans hupper) fun hflat => ?_⟩,
    ⟨by rw [hminX]; linarith, by rw [hmaxX]; linarith, hlower, hupper⟩⟩
  · have hlt : (x - val m / 256) / 2 ^ zoom < (x + 1 + val m / 256) / 2 ^ zoom :=
      div_lt_div_of_pos_right (by linarith) hscale
    rw [hminX, hmaxX]
    linarith
  · -- a flat box would have the same depth in the north and south
    have hfirst : (0 : K) ≤ y := by exact_mod_cast hy0
    have hlast : (y : K) + 1 ≤ 2 ^ zoom := by exact_mod_cast Int.le_sub_one_iff.mp hy1
    have hrow : val top < val bottom := by
      rw [htop, hbottom]
      refine max_lt (lt_min one_pos (div_pos (by linarith) hscale)) (lt_min ?_ ?_)
      · exact (div_lt_one hscale).mpr (by linarith)
      · exact div_lt_div_of_pos_right (by linarith) hscale
    rw [← h.depth_latitude top _ htop0 (htop'.trans hdepth') hmaxY,
      ← h.depth_latitude bottom _ (hdepth.trans hbottom') hbottom1 hminY, h.injective hflat] at hrow
    exact lt_irrefl _ hrow

end Mercator.Exact

end BorderTiles
