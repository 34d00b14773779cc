import BorderTiles.Bordering
import BorderTiles.Proofs.Logged
import BorderTiles.Proofs.Mercator
import Mathlib.Data.List.Basic

/-!
# Bordering — what a winner is

* The countries on the two sides of a line are candidates: among the given ids, and with a known area
  (`ofLine_mem`).  They are not the same one (`ofLine_left_ne_right`).
* On a line that can be drawn they are looked for without a fault (`ofLine_ok`).
-/

namespace BorderTiles

namespace Bordering
variable {α ρ : Type}

/-! ### Votes -/

theorem mem_of_foldl_beats {beats : Int → Int → Bool} {votes : List Int} {start : Option Int}
    {id : Int} (h : votes.foldl (fun best a =>
      match best with
      | none => some a
      | some b => some (if beats a b then a else b)) start = some id) :
    id ∈ votes ∨ start = some id := by
  induction votes generalizing start with
  | nil => exact .inr h
  | cons a rest ih =>
      rcases ih h with hmem | hstart
      · exact .inl (List.mem_cons_of_mem _ hmem)
      · cases start with
        | none =>
            cases hstart
            exact .inl List.mem_cons_self
        | some b =>
            dsimp only at hstart
            split at hstart
            · cases hstart
              exact .inl List.mem_cons_self
            · exact .inr hstart

/-- A winner has been voted for. -/
theorem winner?_mem {votes : List Int} {id : Int} (h : winner? votes = some id) : id ∈ votes :=
  (mem_of_foldl_beats h).resolve_right (by simp)

theorem mem_candidates {regions : Table Int ρ} {ids : List Int} {id : Int} {area : ρ} :
    (id, area) ∈ candidates regions ids ↔ id ∈ ids ∧ regions.get? id = some area := by
  simp [candidates, List.mem_filterMap]

/-- The ids of candidates are among the given ones and have an area. -/
theorem mem_ids_of_mem_candidates {regions : Table Int ρ} {ids : List Int} {id : Int}
    (h : id ∈ (candidates regions ids).map (·.1)) : id ∈ ids ∧ regions.contains id = true := by
  obtain ⟨⟨a, area⟩, hmem, rfl⟩ := List.mem_map.mp h
  obtain ⟨hid, ha⟩ := mem_candidates.mp hmem
  exact ⟨hid, by simp [Table.contains, ha]⟩

theorem mem_of_mem_votes {known : List (Int × ρ)} {points : List (Point α × Point α)}
    {counts : Point α × Point α → Int × ρ → Bool} {id : Int}
    (h : id ∈ points.flatMap fun p => (known.filter (counts p)).map (·.1)) :
    id ∈ known.map (·.1) := by
  obtain ⟨p, -, hp⟩ := List.mem_flatMap.mp h
  exact List.map_subset _ (List.filter_subset_self _) hp

/-- The winners of the two sides are candidates. -/
theorem ofVotes_mem {inside : ρ → Point α → Bool} {known : List (Int × ρ)}
    {points : List (Point α × Point α)} {id : Int}
    (h : (ofVotes (rightVotes inside known points) (leftVotes inside known points)).left = some id ∨
      (ofVotes (rightVotes inside known points) (leftVotes inside known points)).right = some id) :
    id ∈ known.map (·.1) := by
  rcases h with h | h
  · exact mem_of_mem_votes (List.mem_filter.mp (winner?_mem h)).1
  · exact mem_of_mem_votes (winner?_mem h)

/-- The winner of the right is not counted on the left. -/
theorem left_ne_right {right left : List Int} {id : Int} (h : (ofVotes right left).left = some id) :
    (ofVotes right left).right ≠ some id := by
  obtain ⟨-, hne⟩ := List.mem_filter.mp (winner?_mem h)
  exact fun e => (of_decide_eq_true hne) e.symm

/-! ### The countries of a line -/

variable [Mercator α] {inside : ρ → Point α → Bool} {regions : Table Int ρ} {ids : List Int}
  {line : Line α} {sides : Bordering}

/-- **What is found on the sides of a line**: nothing if there is no candidate, else the outcome of
the votes at the samples. -/
theorem ofLine_eq_ok (h : (ofLine inside regions ids line).result = .ok sides) :
    sides = ⟨none, none⟩ ∨ ∃ points, (List.range samples).mapM (sidePoints line) = .ok points ∧
      sides = ofVotes (rightVotes inside (candidates regions ids) points)
        (leftVotes inside (candidates regions ids) points) := by
  rw [ofLine] at h
  dsimp only at h
  split at h
  · cases h
    exact .inl rfl
  · obtain ⟨points, hpoints, h⟩ := Logged.result_bind_eq_ok.mp h
    refine .inr ⟨points, hpoints, ?_⟩
    split at h
    · obtain ⟨middle, -, h⟩ := Logged.result_bind_eq_ok.mp h
      obtain ⟨place, -, h⟩ := Logged.result_bind_eq_ok.mp h
      obtain ⟨-, -, h⟩ := Logged.result_bind_eq_ok.mp h
      cases h
      rfl
    · cases h
      rfl

/-- A country on a side of a line is one of the given ids and has an area. -/
theorem ofLine_mem (h : (ofLine inside regions ids line).result = .ok sides) {id : Int}
    (hid : sides.left = some id ∨ sides.right = some id) :
    id ∈ ids ∧ regions.contains id = true := by
  rcases ofLine_eq_ok h with rfl | ⟨points, -, rfl⟩
  · rcases hid with hid | hid <;> cases hid
  · exact mem_ids_of_mem_candidates (ofVotes_mem hid)

/-- The two sides of a line are not the same country. -/
theorem ofLine_left_ne_right (h : (ofLine inside regions ids line).result = .ok sides) {id : Int}
    (hid : sides.left = some id) : sides.right ≠ some id := by
  rcases ofLine_eq_ok h with rfl | ⟨points, -, rfl⟩
  · cases hid
  · exact left_ne_right hid

/-! ### Lines on the map -/

/-- The points beside a line at its samples. -/
def TestPoints (line : Line α) (points : List (Point α × Point α)) : Prop :=
  (List.range samples).mapM (sidePoints line) = .ok points

theorem sidePoints_ok (hshares : Scalar.Shares α line.length) (htwo : 2 ≤ line.length) {i : Nat}
    (hi : i < samples) : ∃ points, sidePoints line i = .ok points := by
  have ht : ∃ z, Scalar.truncate (Scalar.ofNat line.length * sampleRatio i : α) = .ok z :=
    hshares (i + 1) (samples + 2) (by omega) (by decide) (by decide)
  obtain ⟨right, hright⟩ := Line.sample_ok htwo ht sampleOffset
  obtain ⟨left, hleft⟩ := Line.sample_ok htwo ht (-sampleOffset)
  exact ⟨(right, left), bind_eq_ok.mpr ⟨right, hright, bind_eq_ok.mpr ⟨left, hleft, rfl⟩⟩⟩

/-- A line of two points or more has points beside it at all samples. -/
theorem exists_testPoints (hshares : Scalar.Shares α line.length) (htwo : 2 ≤ line.length) :
    ∃ points, TestPoints line points :=
  mapM_ok fun _ hi => sidePoints_ok hshares htwo (List.mem_range.mp hi)

/-- **The countries of a line that can be drawn** are looked for without a fault. -/
theorem ofLine_ok (h : line.Drawable) (inside : ρ → Point α → Bool) (regions : Table Int ρ)
    (ids : List Int) : ∃ sides, (ofLine inside regions ids line).result = .ok sides := by
  rw [ofLine]
  dsimp only
  split
  · exact ⟨_, rfl⟩
  · obtain ⟨points, hpoints⟩ := exists_testPoints h.shares h.two_le
    obtain ⟨middle, hmiddle⟩ := Line.sample_ok h.two_le
      (h.shares 1 2 (by decide) (by decide) (by decide)) (Scalar.ofNat 0 : α)
    obtain ⟨degrees, hdegrees⟩ := h.middle middle hmiddle
    refine ⟨ofVotes (rightVotes inside (candidates regions ids) points)
      (leftVotes inside (candidates regions ids) points),
      Logged.result_bind_eq_ok.mpr ⟨points, hpoints, ?_⟩⟩
    -- where no side is found, the middle is reported
    split
    · refine Logged.result_bind_eq_ok.mpr ⟨middle, hmiddle, ?_⟩
      refine Logged.result_bind_eq_ok.mpr ⟨degrees, hdegrees, ?_⟩
      exact Logged.result_bind_eq_ok.mpr ⟨(), rfl, rfl⟩
    · rfl

end Bordering
end BorderTiles
