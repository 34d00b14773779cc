import BorderTiles.Proofs.Results
import BorderTiles.Proofs.Table
import BorderTiles.Tile.Assign
import Mathlib.Data.List.ProdSigma
import Mathlib.Data.Option.Basic

/-!
# Tile — what is assigned

What a tile holds of a list of features is what it holds of each, one after the other.

* `listOf_place`: a tile holds the parts that are placed there, in their order.
* `rectangle`: the tiles looked at, those between the tiles of two corners, each of them once.
* `Sought k zoom f g corners`: the feature is drawn at the zoom, with a geometry `g` that has a box.
* `copyIn?`: what a tile holds of a feature, without any other tile or feature.
* `Locatable`: the tiles looked at, and their boxes, can be computed.  `partsOf_ok_iff`: a feature is cut
  without a fault exactly then.
* `filter_of_partsOf`: of the parts of a feature, those in a tile are the one that `copyIn?` gives.
* `assign_ok_iff`, `listOf_of_assign`: when there is a sheet, and what its tiles hold.
-/

namespace BorderTiles

/-- Of values chosen for different keys, those under one key are the one chosen for it. -/
theorem filter_filterMap_of_nodup {κ τ : Type} [DecidableEq κ] {ks : List κ} (h : ks.Nodup)
    (choose : κ → Option τ) (k : κ) :
    ((ks.filterMap fun a => (choose a).map (a, ·)).filter (·.1 = k)).map Prod.snd =
      if k ∈ ks then (choose k).toList else [] := by
  induction ks with
  | nil => rfl
  | cons a ks ih =>
      obtain ⟨ha, hks⟩ := List.nodup_cons.mp h
      by_cases hk : a = k
      · subst hk
        have hrest := ih hks
        rw [if_neg ha] at hrest
        cases hc : choose a with
        | none => simpa [hc] using hrest
        | some x => simpa [hc] using hrest
      · have hne : ¬k = a := fun e => hk e.symm
        cases hc : choose a with
        | none => simp [hc, hne, ih hks]
        | some x => simp [hc, hk, hne, ih hks]

theorem Zooms.mem_upTo {a b n : Int} : n ∈ upTo a b ↔ a ≤ n ∧ n ≤ b := by
  rw [upTo, List.mem_map]
  constructor
  · rintro ⟨i, hi, rfl⟩
    have := List.mem_range.mp hi
    omega
  · rintro ⟨ha, hb⟩
    refine ⟨(n - a).toNat, List.mem_range.mpr (by omega), by omega⟩

theorem Zooms.nodup_upTo (a b : Int) : (upTo a b).Nodup :=
  List.nodup_range.map fun _ _ h => Int.ofNat_inj.mp (Int.add_left_cancel h)

namespace Tile
variable {α ρ : Type}

/-- A tile holds the parts that are placed there, in their order. -/
theorem listOf_place (parts : List ((Int × Int) × Feature α)) (sheet : Sheet α) (tile : Int × Int) :
    (parts.foldl (fun sheet (tile, f) => sheet.append tile f) sheet).listOf tile =
      sheet.listOf tile ++ (parts.filter (·.1 = tile)).map Prod.snd := by
  induction parts generalizing sheet with
  | nil => exact (List.append_nil _).symm
  | cons p rest ih =>
      rw [List.foldl_cons, ih, Table.listOf_append, List.append_assoc, List.filter_cons]
      by_cases hp : p.1 = tile
      · simp [hp]
      · simp [hp, Ne.symm hp]

theorem filled_place (parts : List ((Int × Int) × Feature α)) {sheet : Sheet α} (h : sheet.Filled) :
    (parts.foldl (fun sheet (tile, f) => sheet.append tile f) sheet).Filled := by
  induction parts generalizing sheet with
  | nil => exact h
  | cons p rest ih => exact ih (h.append p.1 p.2)

/-! ### The tiles looked at -/

/-- A tile is in the rectangle between two tiles. -/
def Between (t₁ t₂ tile : Int × Int) : Prop :=
  (min t₁.1 t₂.1 ≤ tile.1 ∧ tile.1 ≤ max t₁.1 t₂.1) ∧
    (min t₁.2 t₂.2 ≤ tile.2 ∧ tile.2 ≤ max t₁.2 t₂.2)

instance (t₁ t₂ tile : Int × Int) : Decidable (Between t₁ t₂ tile) :=
  inferInstanceAs (Decidable (_ ∧ _))

/-- The tiles between two tiles. -/
def rectangle (t₁ t₂ : Int × Int) : List (Int × Int) :=
  Zooms.upTo (min t₁.1 t₂.1) (max t₁.1 t₂.1) ×ˢ Zooms.upTo (min t₁.2 t₂.2) (max t₁.2 t₂.2)

theorem mem_rectangle {t₁ t₂ tile : Int × Int} : tile ∈ rectangle t₁ t₂ ↔ Between t₁ t₂ tile := by
  rw [rectangle, List.mem_product, Zooms.mem_upTo, Zooms.mem_upTo, Between]

theorem nodup_rectangle (t₁ t₂ : Int × Int) : (rectangle t₁ t₂).Nodup :=
  (Zooms.nodup_upTo _ _).product (Zooms.nodup_upTo _ _)

variable [Mercator α]

/-! ### One feature in one tile -/

/-- A feature is looked for at a zoom: it is drawn there, and its geometry has a box. -/
structure Sought (k : Kernel α ρ) (zoom : Int) (f : Feature α) (g : Geometry α) (corners : Box α) :
    Prop where
  drawn : f.minZoom ≤ zoom ∧ zoom ≤ f.maxZoom
  geometry : f.geometry = some g
  nonempty : g.isEmpty = false
  bounds : k.bounds g = some corners

/-- The part of a feature in a box. -/
def cut? (k : Kernel α ρ) (f : Feature α) (g : Geometry α) (box : Box α) : Option (Feature α) :=
  if k.meets g box = true ∧ (k.clip g box).isEmpty = false then
    some { f with geometry := some (k.clip g box) }
  else none

/-- What a tile holds of a feature. -/
def copyIn? (k : Kernel α ρ) (zoom : Int) (tile : Int × Int) (f : Feature α) :
    Option (Feature α) := do
  guard (f.minZoom ≤ zoom ∧ zoom ≤ f.maxZoom)
  let g ← f.geometry
  guard (g.isEmpty = false)
  let corners ← k.bounds g
  let t₁ ← (Mercator.tileOf corners.minY corners.minX (.whole zoom)).toOption
  let t₂ ← (Mercator.tileOf corners.maxY corners.maxX (.whole zoom)).toOption
  guard (Between t₁ t₂ tile)
  let box ← (Mercator.tileBox tile.1 tile.2 (.whole zoom) f.buffer).toOption
  cut? k f g box

/-- The tiles looked at for a feature, and their boxes, can be computed. -/
def Locatable (k : Kernel α ρ) (zoom : Int) (f : Feature α) : Prop :=
  ∀ g corners, Sought k zoom f g corners → ∃ t₁ t₂,
    Mercator.tileOf corners.minY corners.minX (.whole zoom) = .ok t₁ ∧
    Mercator.tileOf corners.maxY corners.maxX (.whole zoom) = .ok t₂ ∧
    ∀ tile, Between t₁ t₂ tile →
      ∃ box : Box α, Mercator.tileBox tile.1 tile.2 (.whole zoom) f.buffer = .ok box

variable {k : Kernel α ρ} {zoom : Int} {f : Feature α} {g : Geometry α} {corners : Box α}
  {tile : Int × Int}

theorem tilesAround_eq_ok_iff {tiles : List (Int × Int)} : tilesAround corners zoom = .ok tiles ↔
    ∃ t₁ t₂, Mercator.tileOf corners.minY corners.minX (.whole zoom) = .ok t₁ ∧
      Mercator.tileOf corners.maxY corners.maxX (.whole zoom) = .ok t₂ ∧ rectangle t₁ t₂ = tiles := by
  constructor
  · intro h
    obtain ⟨t₁, h₁, h⟩ := bind_eq_ok.mp h
    obtain ⟨t₂, h₂, h⟩ := bind_eq_ok.mp h
    exact ⟨t₁, t₂, h₁, h₂, Except.ok.inj h⟩
  · rintro ⟨t₁, t₂, h₁, h₂, rfl⟩
    exact bind_eq_ok.mpr ⟨t₁, h₁, bind_eq_ok.mpr ⟨t₂, h₂, rfl⟩⟩

/-- The tiles looked at are those between the tiles of two corners. -/
theorem mem_tilesAround {t₁ t₂ : Int × Int}
    (h₁ : Mercator.tileOf corners.minY corners.minX (.whole zoom) = .ok t₁)
    (h₂ : Mercator.tileOf corners.maxY corners.maxX (.whole zoom) = .ok t₂) :
    ∃ tiles, tilesAround corners zoom = .ok tiles ∧ ∀ tile, tile ∈ tiles ↔
      (min t₁.1 t₂.1 ≤ tile.1 ∧ tile.1 ≤ max t₁.1 t₂.1) ∧
        (min t₁.2 t₂.2 ≤ tile.2 ∧ tile.2 ≤ max t₁.2 t₂.2) :=
  ⟨_, tilesAround_eq_ok_iff.mpr ⟨t₁, t₂, h₁, h₂, rfl⟩, fun _ => mem_rectangle⟩

theorem partIn?_eq_ok_iff {part : Option (Feature α)} : partIn? k f g zoom tile = .ok part ↔
    ∃ box, Mercator.tileBox tile.1 tile.2 (.whole zoom) f.buffer = .ok box ∧
      cut? k f g box = part := by
  rw [partIn?, bind_eq_ok]
  refine exists_congr fun box => and_congr_right fun _ => ?_
  dsimp only [cut?]
  cases k.meets g box <;> cases (k.clip g box).isEmpty <;>
    exact ⟨Except.ok.inj, congrArg Except.ok⟩

/-- A feature has a part in a tile whose box it meets, if anything of it is inside. -/
theorem partIn?_of_meets {box : Box α}
    (hbox : Mercator.tileBox tile.1 tile.2 (.whole zoom) f.buffer = .ok box)
    (hmeets : k.meets g box = true) (hclip : (k.clip g box).isEmpty = false) :
    partIn? k f g zoom tile = .ok (some { f with geometry := some (k.clip g box) }) :=
  partIn?_eq_ok_iff.mpr ⟨box, hbox, if_pos ⟨hmeets, hclip⟩⟩

/-- When a tile holds something of a feature, and what. -/
theorem copyIn?_eq_some_iff {copy : Feature α} : copyIn? k zoom tile f = some copy ↔
    ∃ g corners t₁ t₂ box, Sought k zoom f g corners ∧
      Mercator.tileOf corners.minY corners.minX (.whole zoom) = .ok t₁ ∧
      Mercator.tileOf corners.maxY corners.maxX (.whole zoom) = .ok t₂ ∧ Between t₁ t₂ tile ∧
      Mercator.tileBox tile.1 tile.2 (.whole zoom) f.buffer = .ok box ∧
      cut? k f g box = some copy := by
  simp only [copyIn?, Option.bind_eq_bind, Option.bind_eq_some_iff, Option.guard_eq_some',
    toOption_eq_some_iff]
  constructor
  · rintro ⟨_, hdrawn, g, hg, _, hne, corners, hc, t₁, h₁, t₂, h₂, _, htile, box, hbox, hcut⟩
    exact ⟨g, corners, t₁, t₂, box, ⟨hdrawn, hg, hne, hc⟩, h₁, h₂, htile, hbox, hcut⟩
  · rintro ⟨g, corners, t₁, t₂, box, ⟨hdrawn, hg, hne, hc⟩, h₁, h₂, htile, hbox, hcut⟩
    exact ⟨(), hdrawn, g, hg, (), hne, corners, hc, t₁, h₁, t₂, h₂, (), htile, box, hbox, hcut⟩

/-- A feature that is looked for is in a tile if the tile is looked at. -/
theorem Sought.copyIn?_eq (h : Sought k zoom f g corners) {t₁ t₂ : Int × Int}
    (h₁ : Mercator.tileOf corners.minY corners.minX (.whole zoom) = .ok t₁)
    (h₂ : Mercator.tileOf corners.maxY corners.maxX (.whole zoom) = .ok t₂) :
    copyIn? k zoom tile f = if Between t₁ t₂ tile then
      (Mercator.tileBox tile.1 tile.2 (.whole zoom) f.buffer).toOption.bind (cut? k f g) else none := by
  obtain ⟨hdrawn, hg, hne, hc⟩ := h
  simp only [copyIn?, guard, hdrawn, hg, hne, hc, h₁, h₂, and_self, if_true, Option.bind_eq_bind,
    Option.pure_def, Option.bind_some, Except.toOption]
  split
  · rfl
  · rfl

theorem copyIn?_of_not_sought (h : ∀ g corners, ¬Sought k zoom f g corners) :
    copyIn? k zoom tile f = none := by
  refine Option.eq_none_iff_forall_ne_some.mpr fun copy hcopy => ?_
  obtain ⟨g, corners, -, -, -, hsought, -⟩ := copyIn?_eq_some_iff.mp hcopy
  exact h g corners hsought

/-! ### One feature -/

theorem partsOf_of_not_sought (h : ∀ g corners, ¬Sought k zoom f g corners) :
    partsOf k zoom f = .ok [] := by
  rw [partsOf]
  split
  · rfl
  next hdrawn =>
    split
    · rfl
    next g hg =>
      split
      · rfl
      next hne =>
        split
        · rfl
        next corners hc =>
          rw [Bool.or_eq_true, decide_eq_true_iff, decide_eq_true_iff, not_or, Int.not_lt,
            Int.not_lt] at hdrawn
          exact absurd ⟨hdrawn, hg, Bool.eq_false_iff.mpr hne, hc⟩ (h g corners)

/-- A feature that is looked for is cut at a tile looked at if the tile has a box. -/
theorem Sought.partIn?_eq_ok_iff (h : Sought k zoom f g corners) {t₁ t₂ : Int × Int}
    (h₁ : Mercator.tileOf corners.minY corners.minX (.whole zoom) = .ok t₁)
    (h₂ : Mercator.tileOf corners.maxY corners.maxX (.whole zoom) = .ok t₂)
    (htile : Between t₁ t₂ tile) {part : Option (Feature α)} :
    partIn? k f g zoom tile = .ok part ↔
      (∃ box : Box α, Mercator.tileBox tile.1 tile.2 (.whole zoom) f.buffer = .ok box) ∧
        copyIn? k zoom tile f = part := by
  rw [Tile.partIn?_eq_ok_iff, h.copyIn?_eq h₁ h₂, if_pos htile]
  cases (Mercator.tileBox tile.1 tile.2 (.whole zoom) f.buffer : Except Fault (Box α)) with
  | error e => simp
  | ok box => simp [Except.toOption]

/-- A feature that is looked for is cut at all tiles looked at if they have boxes. -/
theorem Sought.mapM_partIn?_eq_ok_iff (h : Sought k zoom f g corners) {t₁ t₂ : Int × Int}
    (h₁ : Mercator.tileOf corners.minY corners.minX (.whole zoom) = .ok t₁)
    (h₂ : Mercator.tileOf corners.maxY corners.maxX (.whole zoom) = .ok t₂)
    {found : List (Option ((Int × Int) × Feature α))} :
    ((rectangle t₁ t₂).mapM fun tile => do return (← partIn? k f g zoom tile).map (tile, ·))
        = .ok found ↔
      (∀ tile ∈ rectangle t₁ t₂,
        ∃ box : Box α, Mercator.tileBox tile.1 tile.2 (.whole zoom) f.buffer = .ok box) ∧
      (rectangle t₁ t₂).map (fun tile => (copyIn? k zoom tile f).map (tile, ·)) = found := by
  refine mapM_eq_ok_iff fun tile htile y => ?_
  rw [bind_eq_ok]
  simp only [h.partIn?_eq_ok_iff h₁ h₂ (mem_rectangle.mp htile), and_assoc, exists_and_left,
    exists_eq_left']
  exact and_congr_right fun _ => ⟨Except.ok.inj, congrArg Except.ok⟩

/-- A feature that is looked for is cut if the tiles looked at and their boxes can be computed, into
what these tiles hold of it. -/
theorem Sought.partsOf_eq_ok_iff (h : Sought k zoom f g corners)
    {parts : List ((Int × Int) × Feature α)} : partsOf k zoom f = .ok parts ↔
      ∃ t₁ t₂, Mercator.tileOf corners.minY corners.minX (.whole zoom) = .ok t₁ ∧
        Mercator.tileOf corners.maxY corners.maxX (.whole zoom) = .ok t₂ ∧
        (∀ tile ∈ rectangle t₁ t₂,
          ∃ box : Box α, Mercator.tileBox tile.1 tile.2 (.whole zoom) f.buffer = .ok box) ∧
        (rectangle t₁ t₂).filterMap (fun tile => (copyIn? k zoom tile f).map (tile, ·)) = parts := by
  have hseen : ¬ (zoom < f.minZoom || f.maxZoom < zoom) = true := by
    simpa using h.drawn
  simp only [partsOf, hseen, h.geometry, h.nonempty, h.bounds, Bool.false_eq_true, if_false]
  constructor
  · intro hparts
    obtain ⟨tiles, htiles, hparts⟩ := bind_eq_ok.mp hparts
    obtain ⟨t₁, t₂, h₁, h₂, rfl⟩ := tilesAround_eq_ok_iff.mp htiles
    obtain ⟨found, hfound, hparts⟩ := bind_eq_ok.mp hparts
    obtain ⟨hboxes, rfl⟩ := (h.mapM_partIn?_eq_ok_iff h₁ h₂).mp hfound
    cases hparts
    exact ⟨t₁, t₂, h₁, h₂, hboxes, by rw [List.filterMap_map, Function.id_comp]⟩
  · rintro ⟨t₁, t₂, h₁, h₂, hboxes, rfl⟩
    refine bind_eq_ok.mpr ⟨_, tilesAround_eq_ok_iff.mpr ⟨t₁, t₂, h₁, h₂, rfl⟩, bind_eq_ok.mpr
      ⟨_, (h.mapM_partIn?_eq_ok_iff h₁ h₂).mpr ⟨hboxes, rfl⟩, ?_⟩⟩
    rw [List.filterMap_map, Function.id_comp]
    rfl

/-- A feature is cut without a fault if the tiles looked at and their boxes can be computed. -/
theorem partsOf_ok_iff : (∃ parts, partsOf k zoom f = .ok parts) ↔ Locatable k zoom f := by
  constructor
  · rintro ⟨parts, hparts⟩ g corners h
    obtain ⟨t₁, t₂, h₁, h₂, hboxes, -⟩ := h.partsOf_eq_ok_iff.mp hparts
    exact ⟨t₁, t₂, h₁, h₂, fun tile ht => hboxes tile (mem_rectangle.mpr ht)⟩
  · intro hf
    by_cases hsought : ∃ g corners, Sought k zoom f g corners
    · obtain ⟨g, corners, h⟩ := hsought
      obtain ⟨t₁, t₂, h₁, h₂, hboxes⟩ := hf g corners h
      exact ⟨_, h.partsOf_eq_ok_iff.mpr
        ⟨t₁, t₂, h₁, h₂, fun tile ht => hboxes tile (mem_rectangle.mp ht), rfl⟩⟩
    · exact ⟨[], partsOf_of_not_sought fun g corners h => hsought ⟨g, corners, h⟩⟩

/-- If every position has a tile and every tile a box, a feature is cut without a fault. -/
theorem partsOf_ok (k : Kernel α ρ) (f : Feature α)
    (htile : ∀ lat lon : α, ∃ tile, Mercator.tileOf lat lon (.whole zoom) = .ok tile)
    (hbox : ∀ x y, ∃ box : Box α, Mercator.tileBox x y (.whole zoom) f.buffer = .ok box) :
    ∃ parts, partsOf k zoom f = .ok parts := by
  refine partsOf_ok_iff.mpr fun g corners _ => ?_
  obtain ⟨t₁, h₁⟩ := htile corners.minY corners.minX
  obtain ⟨t₂, h₂⟩ := htile corners.maxY corners.maxX
  exact ⟨t₁, t₂, h₁, h₂, fun tile _ => hbox tile.1 tile.2⟩

/-- Of the parts of a feature, the one in a tile is what the tile holds of the feature. -/
theorem filter_of_partsOf {parts : List ((Int × Int) × Feature α)}
    (hparts : partsOf k zoom f = .ok parts) (tile : Int × Int) :
    (parts.filter (·.1 = tile)).map Prod.snd = (copyIn? k zoom tile f).toList := by
  by_cases hsought : ∃ g corners, Sought k zoom f g corners
  · obtain ⟨g, corners, h⟩ := hsought
    obtain ⟨t₁, t₂, h₁, h₂, -, rfl⟩ := h.partsOf_eq_ok_iff.mp hparts
    rw [filter_filterMap_of_nodup (nodup_rectangle t₁ t₂) (copyIn? k zoom · f)]
    split
    · rfl
    · next htile => rw [h.copyIn?_eq h₁ h₂, if_neg (mt mem_rectangle.mpr htile), Option.toList_none]
  · have hnone : ∀ g corners, ¬Sought k zoom f g corners := fun g corners h =>
      hsought ⟨g, corners, h⟩
    cases (partsOf_of_not_sought hnone).symm.trans hparts
    rw [copyIn?_of_not_sought hnone]
    rfl

/-- A part in one of the tiles looked at is a part of the feature. -/
theorem mem_of_partsOf {tiles : List (Int × Int)} {part : Feature α}
    {parts : List ((Int × Int) × Feature α)} (hzoom : f.minZoom ≤ zoom ∧ zoom ≤ f.maxZoom)
    (hg : f.geometry = some g) (hempty : g.isEmpty = false) (hbounds : k.bounds g = some corners)
    (htiles : tilesAround corners zoom = .ok tiles) (htile : tile ∈ tiles)
    (hpart : partIn? k f g zoom tile = .ok (some part)) (h : partsOf k zoom f = .ok parts) :
    (tile, part) ∈ parts := by
  have hsought : Sought k zoom f g corners := ⟨hzoom, hg, hempty, hbounds⟩
  obtain ⟨t₁, t₂, h₁, h₂, -, rfl⟩ := hsought.partsOf_eq_ok_iff.mp h
  obtain ⟨_, _, h₁', h₂', rfl⟩ := tilesAround_eq_ok_iff.mp htiles
  cases h₁.symm.trans h₁'
  cases h₂.symm.trans h₂'
  obtain ⟨-, hcopy⟩ := (hsought.partIn?_eq_ok_iff h₁ h₂ (mem_rectangle.mp htile)).mp hpart
  exact List.mem_filterMap.mpr ⟨tile, htile, by rw [hcopy]; rfl⟩

/-! ### All features -/

variable {features : List (Feature α)} {sheet : Sheet α}

theorem assign_ok_iff : (∃ sheet, assign k features zoom = .ok sheet) ↔
    ∀ f ∈ features, Locatable k zoom f := by
  simp only [← partsOf_ok_iff]
  constructor
  · rintro ⟨sheet, h⟩ f hf
    obtain ⟨all, hall, -⟩ := bind_eq_ok.mp h
    obtain ⟨parts, -, hparts⟩ := exists_left_of_mem (mapM_eq_ok.mp hall).flip hf
    exact ⟨parts, hparts⟩
  · intro h
    obtain ⟨all, hall⟩ := mapM_ok h
    exact ⟨_, bind_eq_ok.mpr ⟨all, hall, rfl⟩⟩

theorem filled_of_assign (h : assign k features zoom = .ok sheet) : sheet.Filled := by
  obtain ⟨all, -, h⟩ := bind_eq_ok.mp h
  cases h
  exact filled_place _ Table.filled_empty

/-- What a tile holds of features is what it holds of each, in their order. -/
theorem listOf_of_assign (h : assign k features zoom = .ok sheet) (tile : Int × Int) :
    sheet.listOf tile = features.filterMap (copyIn? k zoom tile) := by
  obtain ⟨all, hall, h⟩ := bind_eq_ok.mp h
  cases h
  have heach : all.map (fun parts => (parts.filter (·.1 = tile)).map Prod.snd) =
      features.map fun f => (copyIn? k zoom tile f).toList :=
    map_eq_of_forall₂ ((mapM_eq_ok.mp hall).imp fun _ _ hparts => filter_of_partsOf hparts tile)
  calc (all.flatten.foldl (fun sheet (tile, f) => sheet.append tile f) ∅ : Sheet α).listOf tile
    _ = (all.flatten.filter (·.1 = tile)).map Prod.snd := by
        rw [listOf_place, Table.listOf_empty, List.nil_append]
    _ = (all.map fun parts => (parts.filter (·.1 = tile)).map Prod.snd).flatten := by
        rw [List.filter_flatten, List.map_flatten, List.map_map]
        rfl
    _ = features.filterMap (copyIn? k zoom tile) := by
        rw [heach, List.filterMap_eq_flatMap_toList, List.flatMap_def]

/-- If every feature is cut without a fault, there is a sheet, and its tiles hold all parts. -/
theorem assign_ok {features : List (Feature α)}
    (h : ∀ f ∈ features, ∃ parts, partsOf k zoom f = .ok parts) :
    ∃ sheet, assign k features zoom = .ok sheet ∧
      ∀ f ∈ features, ∀ parts, partsOf k zoom f = .ok parts →
        ∀ tile part, (tile, part) ∈ parts → part ∈ sheet.listOf tile := by
  obtain ⟨all, hall⟩ := mapM_ok h
  refine ⟨_, bind_eq_ok.mpr ⟨all, hall, rfl⟩, fun f hf parts hparts tile part hmem => ?_⟩
  rw [listOf_place, Table.listOf_empty, List.nil_append, List.mem_map]
  have hflat : (tile, part) ∈ all.flatten :=
    List.mem_flatten.mpr ⟨parts, mem_of_mapM hall hf hparts, hmem⟩
  exact ⟨(tile, part), List.mem_filter.mpr ⟨hflat, by simp⟩, rfl⟩

end Tile
end BorderTiles
