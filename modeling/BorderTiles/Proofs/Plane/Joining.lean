import BorderTiles.Plane.Kernel

/-!
# Plane — joined lines

What `Kernel.merge` makes of the answer of a kernel.  `Kernel.Joins` says that the answer consists of
given lines, be it one line or a collection.  `merge_of_joins`: these are the merged lines, unless there
was nothing to join.
-/

namespace BorderTiles

theorem Geometry.filterMap_line? {α : Type} (lines : List (Line α)) :
    (lines.map Geometry.line).filterMap line? = lines := by
  rw [List.filterMap_map]
  exact List.filterMap_some

theorem Geometry.allEmpty_map_line {α : Type} {lines : List (Line α)} :
    allEmpty (lines.map .line) = true ↔ ∀ l ∈ lines, l = [] := by
  induction lines with
  | nil => simp [allEmpty]
  | cons l rest ih => simp [allEmpty, isEmpty, ih]

theorem ne_nil_of_two_le {α : Type} {l : Line α} (h : 2 ≤ l.length) : l ≠ [] :=
  List.ne_nil_of_length_pos (Nat.lt_of_lt_of_le Nat.two_pos h)

namespace Kernel
variable {α ρ : Type} {k : Kernel α ρ} {lines joined : List (Line α)}

/-- The lines that come of joining lines: one line, or those of a collection. -/
inductive Joins (k : Kernel α ρ) (lines : List (Line α)) : List (Line α) → Prop
  | one {line : Line α} (h : k.join lines = .inl line) : Joins k lines [line]
  | many {joined : List (Line α)} (h : k.join lines = .inr (joined.map .line)) : Joins k lines joined

@[simp] theorem merge_nil : k.merge [] = [] := rfl

/-- Empty lines make no difference. -/
theorem merge_filter (k : Kernel α ρ) (lines : List (Line α)) :
    k.merge (lines.filter (!·.isEmpty)) = k.merge lines := by
  simp only [merge, List.filter_filter, Bool.and_self]

/-- Lines that are not empty are all joined. -/
theorem merge_of_joins (hne : lines ≠ []) (hlines : ∀ l ∈ lines, l ≠ []) (h : k.Joins lines joined)
    (hjoined : ∀ l ∈ joined, l ≠ []) : k.merge lines = joined := by
  have hall : lines.filter (!·.isEmpty) = lines :=
    List.filter_eq_self.mpr fun l hl => by simpa using hlines l hl
  simp only [merge, hall, List.isEmpty_iff, hne, if_false]
  cases h with
  | one h =>
      obtain hline := hjoined _ (List.mem_singleton_self _)
      simp only [h, hline, if_false]
  | many h =>
      simp only [h, Geometry.allEmpty_map_line, Geometry.filterMap_line?]
      split
      · next hempty =>
          refine (List.eq_nil_iff_forall_not_mem.mpr fun l hl => ?_).symm
          exact hjoined l hl (hempty l hl)
      · rfl

/-- **What holds of the lines that come of joining** holds of the merged ones. -/
theorem merge_of_exists_joins {P : List (Line α) → Prop} (hlines : ∀ l ∈ lines, l ≠ [])
    (hnil : lines = [] → P [])
    (h : lines ≠ [] → ∃ joined, k.Joins lines joined ∧ P joined ∧ ∀ l ∈ joined, 2 ≤ l.length) :
    P (k.merge lines) ∧ ∀ l ∈ k.merge lines, 2 ≤ l.length := by
  by_cases hne : lines = []
  · subst hne
    exact ⟨hnil rfl, nofun⟩
  · obtain ⟨joined, hjoins, hP, htwo⟩ := h hne
    rw [merge_of_joins hne hlines hjoins fun l hl => ne_nil_of_two_le (htwo l hl)]
    exact ⟨hP, htwo⟩

end Kernel
end BorderTiles
