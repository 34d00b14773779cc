import BorderTiles.Proofs.Fractions
import BorderTiles.Proofs.Mercator
import BorderTiles.Proofs.Plane.Joining
import Mathlib.Algebra.Order.Group.Multiset
import Mathlib.Data.List.Perm.Subperm
import Mathlib.Data.Sym.Sym2

/-!
# Segments — what lines are made of

`Line.segments` are the segments of a line, without direction, and `segmentsOf` those of many lines,
each as often as it occurs.  With a kernel that joins lines without losing, adding or doubling a segment
(`Kernel.KeepsSegments`) merged lines go through the points of the lines they are merged from
(`KeepsSegments.projected`), and none is longer than all of these segments together
(`KeepsSegments.length_le`).  `Kernel.KeepsPoints` asks for less, and of more lines.
`upright_keepsSegments`, `upright_keepsPoints`: the joining of lines to the next one does both.
-/

namespace BorderTiles
variable {α ρ : Type}

namespace Line

/-- The segments of a line, without direction. -/
def segments : Line α → List (Sym2 (Point α))
  | p :: q :: rest => s(p, q) :: segments (q :: rest)
  | _ => []

theorem length_segments (l : Line α) : l.segments.length = l.length - 1 := by
  induction l with
  | nil => rfl
  | cons p rest ih =>
      cases rest with
      | nil => rfl
      | cons q rest => simpa [segments] using ih

/-- A segment has its ends on the line. -/
theorem mem_of_mem_segments {l : Line α} {e : Sym2 (Point α)} (he : e ∈ l.segments) {p : Point α}
    (hp : p ∈ e) : p ∈ l := by
  induction l with
  | nil => cases he
  | cons a rest ih =>
      cases rest with
      | nil => cases he
      | cons b rest =>
          rcases List.mem_cons.mp he with rfl | he
          · rcases Sym2.mem_iff.mp hp with rfl | rfl
            · exact List.mem_cons_self
            · exact List.mem_cons_of_mem _ List.mem_cons_self
          · exact List.mem_cons_of_mem _ (ih he)

/-- Every point of a line is the end of a segment, if the line has two points. -/
theorem exists_mem_segments {l : Line α} (htwo : 2 ≤ l.length) {p : Point α} (hp : p ∈ l) :
    ∃ e ∈ l.segments, p ∈ e := by
  induction l with
  | nil => cases hp
  | cons a rest ih =>
      cases rest with
      | nil => simp at htwo
      | cons b rest =>
          rcases List.mem_cons.mp hp with rfl | hp
          · exact ⟨s(p, b), List.mem_cons_self, Sym2.mem_mk_left p b⟩
          · cases rest with
            | nil =>
                obtain rfl := List.mem_singleton.mp hp
                exact ⟨s(a, p), List.mem_cons_self, Sym2.mem_mk_right a p⟩
            | cons c rest =>
                obtain ⟨e, he, hpe⟩ := ih (by simp) hp
                exact ⟨e, List.mem_cons_of_mem _ he, hpe⟩

/-- A line that goes on where another one ends. -/
theorem segments_append_tail {l m : Line α} (hl : l ≠ []) (h : l.getLast? = m.head?) :
    segments (l ++ m.tail) = l.segments ++ m.segments := by
  induction l with
  | nil => exact absurd rfl hl
  | cons a rest ih =>
      cases rest with
      | nil =>
          cases m with
          | nil => cases h
          | cons b m =>
              obtain rfl : a = b := by simpa using h
              rfl
      | cons b rest =>
          have hrest := ih (List.cons_ne_nil b rest) (by simpa using h)
          exact congrArg (s(a, b) :: ·) hrest

end Line

/-- The segments of lines, each as often as it occurs. -/
def segmentsOf (lines : List (Line α)) : Multiset (Sym2 (Point α)) :=
  (lines.flatMap Line.segments : List (Sym2 (Point α)))

@[simp] theorem segmentsOf_nil : segmentsOf ([] : List (Line α)) = 0 := rfl

theorem segmentsOf_append (xs ys : List (Line α)) :
    segmentsOf (xs ++ ys) = segmentsOf xs + segmentsOf ys := by
  simp only [segmentsOf, List.flatMap_append, Multiset.coe_add]

theorem segmentsOf_cons (l : Line α) (lines : List (Line α)) :
    segmentsOf (l :: lines) = l.segments + segmentsOf lines := by
  simp only [segmentsOf, List.flatMap_cons, Multiset.coe_add]

theorem segmentsOf_perm {xs ys : List (Line α)} (h : xs.Perm ys) :
    segmentsOf xs = segmentsOf ys :=
  Multiset.coe_eq_coe.mpr (h.flatMap_right _)

theorem mem_segmentsOf {lines : List (Line α)} {e : Sym2 (Point α)} :
    e ∈ segmentsOf lines ↔ ∃ l ∈ lines, e ∈ l.segments := by
  rw [segmentsOf, Multiset.mem_coe, List.mem_flatMap]

/-- Lines have no segment if none has two points. -/
theorem segmentsOf_eq_zero_iff {lines : List (Line α)} :
    segmentsOf lines = 0 ↔ ∀ l ∈ lines, l.length < 2 := by
  rw [segmentsOf, Multiset.coe_eq_zero, List.flatMap_eq_nil_iff]
  refine forall₂_congr fun l _ => ?_
  rw [← List.length_eq_zero_iff, Line.length_segments]
  omega

/-- Lines without two points do not count. -/
theorem segmentsOf_filter (lines : List (Line α)) :
    segmentsOf (lines.filter (2 ≤ ·.length)) = segmentsOf lines := by
  induction lines with
  | nil => rfl
  | cons l rest ih =>
      rw [List.filter_cons]
      split
      · rw [segmentsOf_cons, segmentsOf_cons, ih]
      · next hfew =>
          have hnone : segmentsOf [l] = 0 :=
            segmentsOf_eq_zero_iff.mpr (List.forall_mem_singleton.mpr (by simpa using hfew))
          rw [ih, ← List.singleton_append, segmentsOf_append, hnone, zero_add]

/-- A line has no more segments than all lines. -/
theorem segments_le {lines : List (Line α)} {l : Line α} (h : l ∈ lines) :
    (l.segments : Multiset (Sym2 (Point α))) ≤ segmentsOf lines := by
  obtain ⟨before, after, rfl⟩ := List.append_of_mem h
  rw [segmentsOf_append, segmentsOf_cons]
  exact le_trans (Multiset.le_add_right _ _) (Multiset.le_add_left _ _)

/-! ### Joined lines -/

/-- Lines are joined without losing, adding or doubling a segment. -/
def Kernel.KeepsSegments [Mercator α] (k : Kernel α ρ) : Prop :=
  ∀ lines, lines ≠ [] → (∀ l ∈ lines, l.Projected) → ∃ joined, k.Joins lines joined ∧
    segmentsOf joined = segmentsOf lines ∧ ∀ l ∈ joined, 2 ≤ l.length

namespace Kernel.KeepsSegments
variable [Mercator α] {k : Kernel α ρ} {lines : List (Line α)} {l : Line α}

/-- **Merged lines** have the segments of the lines they are merged from, and each has one at least. -/
theorem merge_spec (hk : k.KeepsSegments) (hlines : ∀ l ∈ lines, l.Projected) :
    segmentsOf (k.merge lines) = segmentsOf lines ∧ ∀ l ∈ k.merge lines, 2 ≤ l.length := by
  refine merge_of_exists_joins (P := fun joined => segmentsOf joined = segmentsOf lines)
    (fun l hl => ne_nil_of_two_le (hlines l hl).two_le) ?_ fun hne => hk lines hne hlines
  rintro rfl
  rfl

/-- A merged line goes through the points of the lines it is merged from. -/
theorem projected (hk : k.KeepsSegments) (hlines : ∀ l ∈ lines, l.Projected)
    (hl : l ∈ k.merge lines) : ∀ p ∈ l, p.Projected := by
  obtain ⟨hsegments, htwo⟩ := hk.merge_spec hlines
  intro p hp
  obtain ⟨e, he, hpe⟩ := Line.exists_mem_segments (htwo l hl) hp
  have hmem : e ∈ segmentsOf lines := hsegments ▸ mem_segmentsOf.mpr ⟨l, hl, he⟩
  obtain ⟨m, hm, hem⟩ := mem_segmentsOf.mp hmem
  exact (hlines m hm).points p (Line.mem_of_mem_segments hem hpe)

/-- A merged line has no more segments than the lines it is merged from. -/
theorem length_le (hk : k.KeepsSegments) (hlines : ∀ l ∈ lines, l.Projected)
    (hl : l ∈ k.merge lines) : l.length ≤ (segmentsOf lines).card + 1 := by
  have hle := Multiset.card_le_card (segments_le hl)
  rw [(hk.merge_spec hlines).1, Multiset.coe_card, Line.length_segments] at hle
  omega

end Kernel.KeepsSegments

/-- Lines are joined without adding or doubling a point, and without making a line too short. -/
def Kernel.KeepsPoints (k : Kernel α ρ) : Prop :=
  ∀ lines, lines ≠ [] → (∀ l ∈ lines, 2 ≤ l.length) → ∃ joined, k.Joins lines joined ∧
    joined.flatten.Subperm lines.flatten ∧ ∀ l ∈ joined, 2 ≤ l.length

/-- **Merged lines** have points of the lines they are merged from, and each has two at least. -/
theorem Kernel.KeepsPoints.merge_spec {k : Kernel α ρ} (hk : k.KeepsPoints) {lines : List (Line α)}
    (hlines : ∀ l ∈ lines, 2 ≤ l.length) :
    (k.merge lines).flatten.Subperm lines.flatten ∧ ∀ l ∈ k.merge lines, 2 ≤ l.length := by
  refine merge_of_exists_joins (P := fun joined => joined.flatten.Subperm lines.flatten)
    (fun l hl => ne_nil_of_two_le (hlines l hl)) ?_ fun hne => hk lines hne hlines
  rintro rfl
  exact .refl _

/-! ### Lines joined to the next one -/

namespace Line

theorem segmentsOf_joinFirst {l : Line Rat} (hl : l ≠ []) (lines : List (Line Rat)) :
    segmentsOf (l.joinFirst lines) = l.segments + segmentsOf lines := by
  cases lines with
  | nil => exact segmentsOf_cons l []
  | cons m rest =>
      simp only [joinFirst]
      split
      · next h =>
          rw [segmentsOf_cons, segmentsOf_cons, segments_append_tail hl h, ← Multiset.coe_add,
            add_assoc]
      · exact segmentsOf_cons l (m :: rest)

theorem two_le_joinFirst {l : Line Rat} (hl : 2 ≤ l.length) {lines : List (Line Rat)}
    (hlines : ∀ m ∈ lines, 2 ≤ m.length) : ∀ m ∈ l.joinFirst lines, 2 ≤ m.length := by
  cases lines with
  | nil => exact List.forall_mem_singleton.mpr hl
  | cons m rest =>
      obtain ⟨hm, hrest⟩ := List.forall_mem_cons.mp hlines
      simp only [joinFirst]
      split
      · refine List.forall_mem_cons.mpr ⟨?_, hrest⟩
        rw [List.length_append]
        omega
      · exact List.forall_mem_cons.mpr ⟨hl, hlines⟩

theorem flatten_joinFirst_sublist (l : Line Rat) (lines : List (Line Rat)) :
    (l.joinFirst lines).flatten.Sublist (l ++ lines.flatten) := by
  cases lines with
  | nil => exact .refl _
  | cons m rest =>
      simp only [joinFirst]
      split
      · rw [List.flatten_cons, List.flatten_cons, List.append_assoc]
        exact ((List.tail_sublist m).append_right _).append_left l
      · exact .refl _

theorem two_le_joinAll {lines : List (Line Rat)} (h : ∀ l ∈ lines, 2 ≤ l.length) :
    ∀ l ∈ joinAll lines, 2 ≤ l.length := by
  induction lines with
  | nil => exact nofun
  | cons l rest ih =>
      obtain ⟨hl, hrest⟩ := List.forall_mem_cons.mp h
      exact two_le_joinFirst hl (ih hrest)

theorem segmentsOf_joinAll {lines : List (Line Rat)} (h : ∀ l ∈ lines, 2 ≤ l.length) :
    segmentsOf (joinAll lines) = segmentsOf lines := by
  induction lines with
  | nil => rfl
  | cons l rest ih =>
      obtain ⟨hl, hrest⟩ := List.forall_mem_cons.mp h
      show segmentsOf (l.joinFirst (joinAll rest)) = _
      rw [segmentsOf_joinFirst (ne_nil_of_two_le hl), ih hrest, segmentsOf_cons]

theorem flatten_joinAll_subperm (lines : List (Line Rat)) :
    (joinAll lines).flatten.Subperm lines.flatten := by
  induction lines with
  | nil => exact .refl _
  | cons l rest ih =>
      rw [List.flatten_cons]
      exact (flatten_joinFirst_sublist l _).subperm.trans ((List.subperm_append_left l).mpr ih)

end Line

/-- Joining each line to the next one keeps the segments. -/
theorem upright_keepsSegments : Kernel.upright.KeepsSegments := fun _ _ h =>
  have htwo := fun l hl => (h l hl).two_le
  ⟨_, .many rfl, Line.segmentsOf_joinAll htwo, Line.two_le_joinAll htwo⟩

/-- Joining each line to the next one keeps the points. -/
theorem upright_keepsPoints : Kernel.upright.KeepsPoints := fun lines _ h =>
  ⟨_, .many rfl, Line.flatten_joinAll_subperm lines, Line.two_le_joinAll h⟩

end BorderTiles
