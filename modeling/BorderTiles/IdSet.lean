/-!
# IdSet

Finite sets of ids.  A set is the increasing list of its members, so that equal sets are equal values
and every set has one order.  `mem_ofList` says that a set made from a list has its members.
-/

namespace BorderTiles

/-- A finite set of ids. -/
structure IdSet where
  toList : List Int
  increasing : toList.Pairwise (· < ·)
  deriving DecidableEq

namespace IdSet

/-- Increasing ids with `n` among them. -/
def insertSorted (n : Int) : List Int → List Int
  | [] => [n]
  | m :: r => if n < m then n :: m :: r else if m < n then m :: insertSorted n r else m :: r

theorem mem_insertSorted {n a : Int} {ids : List Int} :
    a ∈ insertSorted n ids ↔ a = n ∨ a ∈ ids := by
  induction ids with
  | nil => simp [insertSorted]
  | cons m r ih =>
    unfold insertSorted
    split
    · simp
    · split
      · simp only [List.mem_cons, ih]; grind
      · have : m = n := by omega
        subst this; simp

theorem increasing_insertSorted {n : Int} {ids : List Int} (h : ids.Pairwise (· < ·)) :
    (insertSorted n ids).Pairwise (· < ·) := by
  induction ids with
  | nil => simp [insertSorted]
  | cons m r ih =>
    obtain ⟨hm, hr⟩ := List.pairwise_cons.1 h
    unfold insertSorted
    split
    · next hlt =>
      refine List.pairwise_cons.2 ⟨fun a ha => ?_, h⟩
      rcases List.mem_cons.1 ha with rfl | ha
      · exact hlt
      · exact Int.lt_trans hlt (hm a ha)
    · split
      · next hlt =>
        refine List.pairwise_cons.2 ⟨fun a ha => ?_, ih hr⟩
        rcases mem_insertSorted.1 ha with rfl | ha
        · exact hlt
        · exact hm a ha
      · exact h

/-- The empty set. -/
def empty : IdSet := ⟨[], .nil⟩

instance : Inhabited IdSet := ⟨empty⟩
instance : Membership Int IdSet := ⟨fun s n => n ∈ s.toList⟩

/-- The set with `n` added. -/
def insert (n : Int) (s : IdSet) : IdSet :=
  ⟨insertSorted n s.toList, increasing_insertSorted s.increasing⟩

/-- The set of the members of a list. -/
def ofList (ids : List Int) : IdSet := ids.foldr insert empty

/-- Whether a set has no member. -/
def isEmpty (s : IdSet) : Bool := s.toList.isEmpty

theorem mem_def {n : Int} {s : IdSet} : n ∈ s ↔ n ∈ s.toList := Iff.rfl

theorem mem_insert {n a : Int} {s : IdSet} : a ∈ s.insert n ↔ a = n ∨ a ∈ s := mem_insertSorted

theorem mem_ofList {n : Int} {ids : List Int} : n ∈ ofList ids ↔ n ∈ ids := by
  induction ids with
  | nil => simp [ofList, mem_def, empty]
  | cons m r ih => rw [ofList, List.foldr_cons, mem_insert, List.mem_cons]; exact or_congr_right ih

end IdSet
end BorderTiles
