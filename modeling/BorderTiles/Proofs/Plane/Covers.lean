import BorderTiles.Plane.Kernel
import BorderTiles.Proofs.Exact
import Mathlib.Algebra.Ring.Parity

/-!
# Plane — the places that a geometry covers

`Geometry.Covers` says which places of the plane belong to a geometry whose coordinates stand for
elements of an ordered field: a point covers itself, a line the segments between its points, a polygon
its rings and what an odd number of their segments lies to the right of, and a collection what its
members cover.  A geometry that covers a place is not empty (`not_isEmpty_of_covers`).

A kernel is `Kernel.ExactOn` a geometry if its bounds, its meeting a box and its part inside a box are
those of the places covered.
-/

namespace BorderTiles
variable {α ρ K : Type} [Field K] [LinearOrder K]

namespace Line

/-- A place on the segment between two points. -/
def Between (val : α → K) (p q : Point α) (x y : K) : Prop :=
  ∃ t : K, 0 ≤ t ∧ t ≤ 1 ∧ x = val p.x + t * (val q.x - val p.x) ∧
    y = val p.y + t * (val q.y - val p.y)

/-- A place on a line. -/
def Covers (val : α → K) : Line α → K → K → Prop
  | [], _, _ => False
  | [p], x, y => x = val p.x ∧ y = val p.y
  | p :: q :: rest, x, y => Between val p q x y ∨ Covers val (q :: rest) x y

/-- Whether the segment between two points is crossed on the way from a place to the right.  Of its
ends only the lower one belongs to it. -/
def Crossed (val : α → K) (p q : Point α) (x y : K) : Prop :=
  ((val p.y ≤ y ∧ y < val q.y) ∨ (val q.y ≤ y ∧ y < val p.y)) ∧
    x < val p.x + (y - val p.y) / (val q.y - val p.y) * (val q.x - val p.x)

instance (val : α → K) (p q : Point α) (x y : K) : Decidable (Crossed val p q x y) :=
  inferInstanceAs (Decidable (_ ∧ _))

/-- The number of segments crossed on the way from a place to the right. -/
def crossings (val : α → K) : Line α → K → K → Nat
  | p :: q :: rest, x, y =>
    (if Crossed val p q x y then 1 else 0) + crossings val (q :: rest) x y
  | _, _, _ => 0

end Line

namespace Geometry

mutual

/-- A place of a geometry. -/
def Covers (val : α → K) : Geometry α → K → K → Prop
  | point p, x, y => ∃ q, p = some q ∧ x = val q.x ∧ y = val q.y
  | line l, x, y => Line.Covers val l x y
  | polygon rings, x, y => (∃ ring ∈ rings, Line.Covers val ring x y) ∨
      Odd (rings.map fun ring => Line.crossings val ring x y).sum
  | many _ members, x, y => CoversAny val members x y

/-- A place of one of the members. -/
def CoversAny (val : α → K) : List (Geometry α) → K → K → Prop
  | [], _, _ => False
  | g :: rest, x, y => Covers val g x y ∨ CoversAny val rest x y

end

/-- Rings without points cover nothing. -/
theorem not_covers_of_empty_rings {val : α → K} {rings : List (Line α)} {x y : K}
    (h : rings.all List.isEmpty = true) : ¬ (polygon rings).Covers val x y := by
  have hnil : ∀ ring ∈ rings, ring = [] := fun ring hmem =>
    List.isEmpty_iff.mp (List.all_eq_true.mp h ring hmem)
  rw [Covers]
  rintro (⟨ring, hmem, hcovers⟩ | hodd)
  · rw [hnil ring hmem] at hcovers
    exact hcovers
  · have hzero : ∀ n ∈ rings.map fun ring => Line.crossings val ring x y, n = 0 := by
      intro n hn
      obtain ⟨ring, hmem, rfl⟩ := List.mem_map.mp hn
      rw [hnil ring hmem]
      rfl
    rw [List.sum_eq_zero hzero] at hodd
    exact Nat.not_odd_zero hodd

mutual

/-- A geometry that covers a place is not empty. -/
theorem not_isEmpty_of_covers {val : α → K} {x y : K} :
    ∀ {g : Geometry α}, g.Covers val x y → g.isEmpty = false
  | point p, h => by
      obtain ⟨q, rfl, -⟩ := (Covers.eq_def ..).mp h
      rfl
  | line [], h => by
      rw [Covers] at h
      exact h.elim
  | line (_ :: _), _ => rfl
  | polygon rings, h => Bool.eq_false_iff.mpr fun hempty => not_covers_of_empty_rings hempty h
  | many _ members, h => by
      rw [Covers] at h
      exact not_allEmpty_of_coversAny h

theorem not_allEmpty_of_coversAny {val : α → K} {x y : K} :
    ∀ {members : List (Geometry α)}, CoversAny val members x y → allEmpty members = false
  | [], h => by
      rw [CoversAny] at h
      exact h.elim
  | g :: rest, h => by
      rw [CoversAny] at h
      rw [allEmpty, Bool.and_eq_false_iff]
      exact h.imp not_isEmpty_of_covers not_allEmpty_of_coversAny

end

end Geometry

/-- A kernel answers for a geometry as the places that it covers do. -/
structure Kernel.ExactOn (k : Kernel α ρ) (val : α → K) (g : Geometry α) : Prop where
  bounds : ∀ x y, g.Covers val x y → ∃ box, k.bounds g = some box ∧ box.Holds val x y
  meets : ∀ b : Box α, b.Proper val →
    (k.meets g b = true ↔ ∃ x y, g.Covers val x y ∧ b.Holds val x y)
  clip : ∀ b : Box α, b.Proper val →
    ∀ x y, (k.clip g b).Covers val x y ↔ g.Covers val x y ∧ b.Holds val x y

end BorderTiles
