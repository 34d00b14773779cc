import BorderTiles.Mercator
import BorderTiles.Proofs.Results

/-!
# Mercator — where the projection has a result

A line made from degrees is `Line.Projected`: it has at least two points, none repeats the one before,
and each is the place of a finite longitude and latitude.  Such a point is `Point.OnMap`: it is as deep as
some latitude.

* `isChain_dropRepeats`: what is kept of a list repeats no neighbour.
* `ofDegrees_eq_ok`, `ofDegrees_of_pairs`: which line positions make, and when they make none.
  `ofDegrees_projected`: from finite positions it is projected.
* `toDegrees_ok`, `sample_ok`, `sample_middle`: points on the map have degrees again, and so has the
  middle of two of them, if the numbers are `Mercator.Regular`.
* `drawable_of_onMap`: so a line through them is `Line.Drawable`, which is all that drawing it asks of
  its numbers.
-/

namespace BorderTiles

section
variable {τ : Type}

/-! ### Repeated values -/

theorem isChain_dropRepeats_go (same : τ → τ → Bool) (last : τ) (xs : List τ) :
    (last :: dropRepeats.go same last xs).IsChain fun a b => same b a = false := by
  induction xs generalizing last with
  | nil => exact .singleton last
  | cons b rest ih =>
      rw [dropRepeats.go]
      split
      · exact ih last
      · next h => exact .cons_cons (Bool.eq_false_iff.mpr h) (ih b)

/-- What is kept does not repeat the value kept before it. -/
theorem isChain_dropRepeats (same : τ → τ → Bool) (xs : List τ) :
    (dropRepeats same xs).IsChain fun a b => same b a = false := by
  cases xs with
  | nil => exact .nil
  | cons a rest => exact isChain_dropRepeats_go same a rest

theorem dropRepeats_go_sublist (same : τ → τ → Bool) (last : τ) (xs : List τ) :
    (dropRepeats.go same last xs).Sublist xs := by
  induction xs generalizing last with
  | nil => exact .refl _
  | cons b rest ih =>
      rw [dropRepeats.go]
      split
      · exact (ih last).cons b
      · exact (ih b).cons_cons b

/-- What is kept stands in its order. -/
theorem dropRepeats_sublist (same : τ → τ → Bool) (xs : List τ) :
    (dropRepeats same xs).Sublist xs := by
  cases xs with
  | nil => exact .refl _
  | cons a rest => exact (dropRepeats_go_sublist same a rest).cons_cons a

end

/-! ### Points of the projection -/

variable {α : Type}

/-- A sample is taken on a segment of the line. -/
theorem Line.exists_segment {l : Line α} (h : 2 ≤ l.length) (found : Int) :
    ∃ p ∈ l, ∃ q ∈ l, l[(max 0 (min ((l.length : Int) - 2) found)).toNat]? = some p ∧
      l[(max 0 (min ((l.length : Int) - 2) found)).toNat + 1]? = some q := by
  have hi : (max 0 (min ((l.length : Int) - 2) found)).toNat + 1 < l.length := by omega
  exact ⟨_, List.getElem_mem (Nat.lt_of_succ_lt hi), _, List.getElem_mem hi,
    List.getElem?_eq_getElem _, List.getElem?_eq_getElem _⟩

theorem Line.pair_eq_ok {position : List α} {lon lat : α} :
    Line.pair position = .ok (lon, lat) ↔ position = [lon, lat] := by
  unfold Line.pair
  split
  · simp
  · next hne => exact ⟨nofun, fun h => absurd h (hne lon lat)⟩

/-- Whether a number is neither infinite nor NaN. -/
def Scalar.Finite [Scalar α] (x : α) : Prop := Scalar.eq (x - x) (Scalar.ofNat 0) = true

variable [Mercator α]
open Mercator

/-- A finite longitude and latitude. -/
def FinitePosition (position : List α) : Prop :=
  ∃ lon lat, position = [lon, lat] ∧ Scalar.Finite lon ∧ Scalar.Finite lat

/-- The place of a finite longitude and latitude. -/
def Point.Projected (p : Point α) : Prop :=
  ∃ lon lat, Scalar.Finite lon ∧ Scalar.Finite lat ∧ p = ⟨easting lon, depth (clamp lat), none⟩

/-- A point without a height, as deep as some latitude. -/
def Point.OnMap (p : Point α) : Prop := p.height = none ∧ ∃ lat, p.y = depth (clamp lat)

theorem Point.Projected.onMap {p : Point α} (h : p.Projected) : p.OnMap := by
  obtain ⟨lon, lat, -, -, rfl⟩ := h
  exact ⟨rfl, lat, rfl⟩

/-- A line through places of the map, none of them given twice in a row. -/
structure Line.Projected (l : Line α) : Prop where
  points : ∀ p ∈ l, p.Projected
  distinct : l.IsChain fun p q => q.same p = false
  two_le : 2 ≤ l.length

/-- Shares of a count, in at most twelve parts, have a whole part. -/
def Scalar.Shares (α : Type) [Scalar α] (n : Nat) : Prop :=
  ∀ a b : Nat, a ≤ b → 0 < b → b ≤ 12 →
    ∃ z, Scalar.truncate (Scalar.ofNat n * (Scalar.ofNat a / Scalar.ofNat b) : α) = .ok z

/-- Whatever latitude is projected, its place has a latitude again. -/
def Mercator.Reversible (α : Type) [Mercator α] : Prop :=
  ∀ lat : α, ∃ y, latitude (depth (clamp lat)) = .ok y

/-- Numbers with which the projection can be undone where it has led to, and half way between two such
places.  Of every count up to `size`, shares in at most twelve parts have a whole part. -/
structure Mercator.Regular (α : Type) [Mercator α] (size : Nat) : Prop where
  reversible : Mercator.Reversible α
  latitude_middle : ∀ lat lat' : α, ∃ y, latitude (depth (clamp lat) +
    (depth (clamp lat') - depth (clamp lat)) / Scalar.ofNat 2) = .ok y
  zero_eq : Scalar.eq (Scalar.ofNat 0 : α) (Scalar.ofNat 0) = true
  shares : ∀ n ≤ size, Scalar.Shares α n

/-- A line that can be drawn: it has two points or more, samples can be taken of it, it has degrees, and
so has its middle. -/
structure Line.Drawable (l : Line α) : Prop where
  two_le : 2 ≤ l.length
  shares : Scalar.Shares α l.length
  degrees : ∃ degrees, l.toDegrees = .ok degrees
  middle : ∀ middle, l.sample (Scalar.ofNat 1 / Scalar.ofNat 2) (Scalar.ofNat 0) = .ok middle →
    ∃ place, ofWorld middle.x middle.y = .ok place

namespace Line

/-- **A line made from positions** goes through their places, and repeats no place at once. -/
theorem ofDegrees_eq_ok {positions : List (List α)} {l : Line α} (h : ofDegrees positions = .ok l) :
    (∀ p ∈ l, ∃ lon lat, [lon, lat] ∈ positions ∧ p = ⟨easting lon, depth (clamp lat), none⟩) ∧
      (l.IsChain fun p q => q.same p = false) ∧ 2 ≤ l.length := by
  obtain ⟨points, hpoints, h⟩ := bind_eq_ok.mp h
  dsimp only at h
  split at h
  · cases h
  · next htwo =>
      cases h
      refine ⟨fun p hmem => ?_, isChain_dropRepeats _ _, Nat.le_of_not_lt htwo⟩
      obtain ⟨position, hposition, hat⟩ :=
        exists_of_mem_mapM hpoints ((dropRepeats_sublist _ _).subset hmem)
      obtain ⟨⟨lon, lat⟩, hpair, hat⟩ := bind_eq_ok.mp hat
      obtain rfl := pair_eq_ok.mp hpair
      cases hat
      exact ⟨lon, lat, hposition, rfl⟩

/-- A line has no more points than it was given positions. -/
theorem length_le_of_ofDegrees {positions : List (List α)} {l : Line α}
    (h : ofDegrees positions = .ok l) : l.length ≤ positions.length := by
  obtain ⟨points, hpoints, h⟩ := bind_eq_ok.mp h
  dsimp only at h
  split at h
  · cases h
  · cases h
    rw [(mapM_eq_ok.mp hpoints).length_eq]
    exact (dropRepeats_sublist _ _).length_le

/-- Positions of two numbers each make a line, unless too few of their places differ. -/
theorem ofDegrees_of_pairs {positions : List (List α)}
    (h : ∀ position ∈ positions, ∃ lon lat, position = [lon, lat]) :
    (∃ l, ofDegrees positions = .ok l) ∨ ∃ count, ofDegrees positions = .error (.indistinct count) := by
  rw [ofDegrees]
  generalize hpoints : (positions.mapM _ : Except Fault (List (Point α))) = result
  obtain ⟨points, rfl⟩ : ∃ points, result = .ok points := by
    rw [← hpoints]
    refine mapM_ok fun position hmem => ?_
    obtain ⟨lon, lat, rfl⟩ := h position hmem
    exact ⟨_, rfl⟩
  by_cases hfew : (dropRepeats Point.same points).length < 2
  · exact .inr ⟨_, if_pos hfew⟩
  · exact .inl ⟨_, if_neg hfew⟩

/-- **A line made from finite positions** is projected. -/
theorem ofDegrees_projected {positions : List (List α)} {l : Line α}
    (hp : ∀ position ∈ positions, FinitePosition position) (h : ofDegrees positions = .ok l) :
    l.Projected := by
  obtain ⟨hplaces, hdistinct, htwo⟩ := ofDegrees_eq_ok h
  refine ⟨fun p hmem => ?_, hdistinct, htwo⟩
  obtain ⟨lon, lat, hposition, rfl⟩ := hplaces p hmem
  obtain ⟨_, _, heq, hlon, hlat⟩ := hp _ hposition
  cases heq
  exact ⟨lon, lat, hlon, hlat, rfl⟩

theorem ofWorld_ok {x y lat : α} (h : latitude y = .ok lat) :
    ofWorld x y = .ok (x * Scalar.ofNat 360 - Scalar.ofNat 180, lat) :=
  bind_eq_ok.mpr ⟨lat, h, rfl⟩

/-- A line has degrees if each of its points has a latitude and no height. -/
theorem toDegrees_of_latitudes {l : Line α}
    (h : ∀ p ∈ l, p.height = none ∧ ∃ lat, latitude p.y = .ok lat) :
    ∃ degrees, l.toDegrees = .ok degrees := by
  apply mapM_ok
  intro p hp
  obtain ⟨hheight, y, hy⟩ := h p hp
  rw [hheight]
  exact ⟨_, bind_eq_ok.mpr ⟨_, ofWorld_ok hy, rfl⟩⟩

/-- A line on the map has degrees. -/
theorem toDegrees_ok (hα : Reversible α) {l : Line α} (h : ∀ p ∈ l, p.OnMap) :
    ∃ degrees, l.toDegrees = .ok degrees := by
  apply toDegrees_of_latitudes
  intro p hp
  obtain ⟨hheight, lat, hlat⟩ := h p hp
  exact ⟨hheight, hlat ▸ hα lat⟩

/-- A line made from positions has degrees again, if the latitudes have a latitude again. -/
theorem toDegrees_of_ofDegrees {positions : List (List α)} {l : Line α}
    (h : ofDegrees positions = .ok l)
    (hlat : ∀ lon lat, [lon, lat] ∈ positions → ∃ y, latitude (depth (clamp lat)) = .ok y) :
    ∃ degrees, l.toDegrees = .ok degrees := by
  apply toDegrees_of_latitudes
  intro p hp
  obtain ⟨lon, lat, hposition, rfl⟩ := (ofDegrees_eq_ok h).1 p hp
  exact ⟨rfl, hlat lon lat hposition⟩

/-- A line made from positions is on the map. -/
theorem onMap_of_ofDegrees {positions : List (List α)} {l : Line α}
    (h : ofDegrees positions = .ok l) : ∀ p ∈ l, p.OnMap := by
  intro p hp
  obtain ⟨lon, lat, -, rfl⟩ := (ofDegrees_eq_ok h).1 p hp
  exact ⟨rfl, lat, rfl⟩

variable {l : Line α} {ratio : α}

theorem sample_ok (htwo : 2 ≤ l.length)
    (ht : ∃ z, Scalar.truncate (Scalar.ofNat l.length * ratio) = .ok z) (offset : α) :
    ∃ p, l.sample ratio offset = .ok p := by
  obtain ⟨found, hfound⟩ := ht
  obtain ⟨p, -, q, -, hp, hq⟩ := exists_segment htwo found
  simp only [sample, hfound, hp, hq, bind, Except.bind]
  split
  · exact ⟨_, rfl⟩
  · exact ⟨_, rfl⟩

/-- Without an offset, a sample is the middle of two points of the line. -/
theorem sample_middle (hzero : Scalar.eq (Scalar.ofNat 0 : α) (Scalar.ofNat 0) = true)
    (htwo : 2 ≤ l.length) (ht : ∃ z, Scalar.truncate (Scalar.ofNat l.length * ratio) = .ok z) :
    ∃ p ∈ l, ∃ q ∈ l, l.sample ratio (Scalar.ofNat 0) = .ok
      ⟨p.x + (q.x - p.x) / Scalar.ofNat 2, p.y + (q.y - p.y) / Scalar.ofNat 2, none⟩ := by
  obtain ⟨found, hfound⟩ := ht
  obtain ⟨p, hpl, q, hql, hp, hq⟩ := exists_segment htwo found
  refine ⟨p, hpl, q, hql, ?_⟩
  simp only [sample, hfound, hp, hq, hzero, Bool.true_or, if_true, bind, Except.bind]
  rfl

/-- **A line on the map can be drawn.** -/
theorem drawable_of_onMap {size : Nat} (hα : Regular α size) (h : ∀ p ∈ l, p.OnMap)
    (htwo : 2 ≤ l.length) (hsize : l.length ≤ size) : l.Drawable where
  two_le := htwo
  shares := hα.shares _ hsize
  degrees := toDegrees_ok hα.reversible h
  middle := by
    intro middle hmiddle
    obtain ⟨p, hp, q, hq, hsample⟩ := sample_middle hα.zero_eq htwo
      (hα.shares _ hsize 1 2 (by decide) (by decide) (by decide))
    cases hmiddle.symm.trans hsample
    -- half way between two places of the map there is a latitude
    obtain ⟨-, lat, hlat⟩ := h p hp
    obtain ⟨-, lat', hlat'⟩ := h q hq
    obtain ⟨y, hy⟩ := hα.latitude_middle lat lat'
    rw [← hlat, ← hlat'] at hy
    exact ⟨_, ofWorld_ok hy⟩

end Line
end BorderTiles
