import BorderTiles.Proofs.Tile.Cover

/-!
# Tile — a sheet is a filter

The features of all tiles are collected in one pass over the features, their columns and their rows.
`assign_eq_filter`: each tile holds what it would hold if it were filled alone, so that a feature is in a
tile because of itself and the tile only.

`onGrid_tileOf` is where the tiles stay on the grid of the zoom: an index beyond it is moved to its edge.
-/

namespace BorderTiles.Tile

/-- A tile of the grid of a zoom. -/
def OnGrid (zoom : Nat) (tile : Int × Int) : Prop :=
  (0 ≤ tile.1 ∧ tile.1 ≤ 2 ^ zoom - 1) ∧ (0 ≤ tile.2 ∧ tile.2 ≤ 2 ^ zoom - 1)

theorem OnGrid.between {zoom : Nat} {t₁ t₂ tile : Int × Int} (h₁ : OnGrid zoom t₁)
    (h₂ : OnGrid zoom t₂) (h : Between t₁ t₂ tile) : OnGrid zoom tile := by
  obtain ⟨⟨hx₁, hx₁'⟩, hy₁, hy₁'⟩ := h₁
  obtain ⟨⟨hx₂, hx₂'⟩, hy₂, hy₂'⟩ := h₂
  obtain ⟨⟨hx, hx'⟩, hy, hy'⟩ := h
  exact ⟨⟨(le_min hx₁ hx₂).trans hx, hx'.trans (max_le hx₁' hx₂')⟩,
    (le_min hy₁ hy₂).trans hy, hy'.trans (max_le hy₁' hy₂')⟩

section
variable {α ρ : Type} [Mercator α] {k : Kernel α ρ} {zoom : Nat}

/-- The tile of a position is on the grid of a zoom whose number of tiles is known. -/
theorem onGrid_tileOf {lat lon : α} {tile : Int × Int}
    (hgrid : ∀ n : α, Scalar.twoPow (.whole zoom) = .ok n → Scalar.truncate n = .ok (2 ^ zoom))
    (h : Mercator.tileOf lat lon (.whole zoom) = .ok tile) : OnGrid zoom tile := by
  obtain ⟨n, hn, h⟩ := bind_eq_ok.mp h
  obtain ⟨x, -, h⟩ := bind_eq_ok.mp h
  obtain ⟨y, -, h⟩ := bind_eq_ok.mp h
  obtain ⟨count, hcount, h⟩ := bind_eq_ok.mp h
  cases (hgrid n hn).symm.trans hcount
  cases h
  have hpos : (0 : Int) < 2 ^ zoom := by positivity
  simp only [OnGrid, Mercator.clampIndex]
  omega

/-- A tile that holds something of a feature is on the grid. -/
theorem onGrid_of_copyIn? {tile : Int × Int} {f copy : Feature α}
    (hgrid : ∀ n : α, Scalar.twoPow (.whole zoom) = .ok n → Scalar.truncate n = .ok (2 ^ zoom))
    (h : copyIn? k zoom tile f = some copy) : OnGrid zoom tile := by
  obtain ⟨g, corners, t₁, t₂, -, -, h₁, h₂, hbetween, -⟩ := copyIn?_eq_some_iff.mp h
  exact (onGrid_tileOf hgrid h₁).between (onGrid_tileOf hgrid h₂) hbetween

/-- **A sheet is a filter of each feature at each tile**.  There is a sheet if the tiles looked at for
each feature, and their boxes, can be computed.  A tile of it holds what `copyIn?` gives of the features,
in their order; no tile holds nothing, and every tile is on the grid of the zoom.  So what two lists of
features give together is, tile by tile, what the one gives and then what the other gives. -/
theorem assign_eq_filter (k : Kernel α ρ) (zoom : Nat)
    (hgrid : ∀ n : α, Scalar.twoPow (.whole zoom) = .ok n → Scalar.truncate n = .ok (2 ^ zoom)) :
    (∀ features, (∃ sheet, assign k features zoom = .ok sheet) ↔
      ∀ f ∈ features, Locatable k zoom f) ∧
    (∀ features sheet, assign k features zoom = .ok sheet →
      (∀ tile, sheet.listOf tile = features.filterMap (copyIn? k zoom tile)) ∧
      sheet.Filled ∧ ∀ tile ∈ sheet.keys, OnGrid zoom tile) ∧
    ∀ first second,
      ((∃ sheet, assign k (first ++ second) zoom = .ok sheet) ↔
        (∃ s, assign k first zoom = .ok s) ∧ ∃ s, assign k second zoom = .ok s) ∧
      ∀ sheet s₁ s₂, assign k (first ++ second) zoom = .ok sheet → assign k first zoom = .ok s₁ →
        assign k second zoom = .ok s₂ →
        ∀ tile, sheet.listOf tile = s₁.listOf tile ++ s₂.listOf tile := by
  refine ⟨fun _ => assign_ok_iff, fun features sheet h => ⟨listOf_of_assign h, filled_of_assign h,
    fun tile htile => ?_⟩, fun first second => ⟨?_, fun sheet s₁ s₂ h h₁ h₂ tile => ?_⟩⟩
  · have hne := (filled_of_assign h).mem_keys_iff.mp htile
    rw [listOf_of_assign h] at hne
    obtain ⟨copy, hcopy⟩ := List.exists_mem_of_ne_nil _ hne
    obtain ⟨f, -, hf⟩ := List.mem_filterMap.mp hcopy
    exact onGrid_of_copyIn? hgrid hf
  · rw [assign_ok_iff, assign_ok_iff, assign_ok_iff]
    exact List.forall_mem_append
  · rw [listOf_of_assign h, listOf_of_assign h₁, listOf_of_assign h₂, List.filterMap_append]

end

/-! ### Exact numbers -/

/-- In exact arithmetic a feature can be located if its buffer is a number. -/
theorem locatable_of_exact {α ρ K : Type} [Mercator α] [Field K] [LinearOrder K]
    [IsStrictOrderedRing K] {val : α → K} (h : Mercator.Exact val) (k : Kernel α ρ) (zoom : Nat)
    {f : Feature α} (hbuffer : ∃ m : α, Scalar.ofNumber f.buffer = .ok m) : Locatable k zoom f := by
  intro g corners _
  obtain ⟨m, hm⟩ := hbuffer
  obtain ⟨_, _, -, -, h₁⟩ := h.tileOf_ok corners.minY corners.minX zoom
  obtain ⟨_, _, -, -, h₂⟩ := h.tileOf_ok corners.maxY corners.maxX zoom
  refine ⟨_, _, h₁, h₂, fun tile _ => ?_⟩
  obtain ⟨box, _, _, hbox, -⟩ := h.tileBox_ok tile.1 tile.2 zoom hm
  exact ⟨box, hbox⟩

/-- The border along the equator, given twice: at zoom 2 two parts of it are in the tile that it runs along
the northern edge of.  None is in the tile beyond that edge, which is not looked at. -/
theorem assign_eq_filter_equator : ∃ sheet part,
    assign parallels [equator, bare, equator] (2 : Nat) = .ok sheet ∧
      sheet.listOf (3, 2) = [part, part] ∧ sheet.listOf (3, 1) = [] ∧
      ∀ tile ∈ sheet.keys, OnGrid 2 tile := by
  obtain ⟨hok, hfilter, -⟩ := assign_eq_filter parallels 2 fun n hn => by
    cases hn
    rfl
  have hequator : Locatable parallels (2 : Nat) equator :=
    locatable_of_exact exact_rat parallels 2 ⟨4, rfl⟩
  have hbare : Locatable parallels (2 : Nat) bare :=
    locatable_of_exact exact_rat parallels 2 ⟨-4, rfl⟩
  obtain ⟨sheet, hsheet⟩ := (hok [equator, bare, equator]).mpr <| by
    simp only [List.forall_mem_cons, hequator, hbare, true_and, List.not_mem_nil, false_imp_iff,
      implies_true]
  obtain ⟨hlist, -, honGrid⟩ := hfilter _ sheet hsheet
  have hnothing : ∀ tile, copyIn? parallels (2 : Nat) tile bare = none := fun _ => rfl
  obtain ⟨part, hpart⟩ : ∃ part, copyIn? parallels (2 : Nat) (3, 2) equator = some part :=
    Option.isSome_iff_exists.mp (by decide +kernel)
  have hnorth : copyIn? parallels (2 : Nat) (3, 1) equator = none :=
    Option.isNone_iff_eq_none.mp (by decide +kernel)
  refine ⟨sheet, part, hsheet, ?_, ?_, honGrid⟩
  · simp only [hlist, List.filterMap_cons, hpart, hnothing, List.filterMap_nil]
  · simp only [hlist, List.filterMap_cons, hnorth, hnothing, List.filterMap_nil]

end BorderTiles.Tile
