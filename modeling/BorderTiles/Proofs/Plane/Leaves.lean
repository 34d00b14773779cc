import BorderTiles.Plane.Geometry
import Mathlib.Data.List.Lex
import Mathlib.Data.List.Sort

/-!
# Plane — the lines of a geometry

`Geometry.lineParts` looks for lines in collections of lines and in mixed collections, but not in what
is empty.  A collection is empty if all its members are, so no line is missed: `lineParts_many`.

* `Reaches`: the path to a line through such collections, which gives for each of them the position of
  the member in which it goes on.
* `IsLeaves`: the lines that are reached and not empty, with their paths, from left to right (`LeftOf`).
  `IsLeaves.unique`: there is one way to list them.
* `leaves` lists them (`isLeaves_leaves`), and they are the lines that are found (`map_snd_leaves`).

`lineParts_collects` puts this together with what becomes of members one after another
(`lineParts_append`) and of a collection of the lines that were found.
-/

namespace BorderTiles.Geometry
variable {α : Type} {g : Geometry α} {members : List (Geometry α)} {path : List Nat} {l : Line α}

/-! ### What is empty -/

theorem lineParts_of_isEmpty (h : g.isEmpty = true) : g.lineParts = [] := by
  rw [lineParts.eq_def, if_pos h]

/-- No line is missed in members that are all empty. -/
theorem memberLines_of_allEmpty (h : allEmpty members = true) : memberLines members = [] := by
  induction members with
  | nil => rfl
  | cons g rest ih =>
      rw [allEmpty, Bool.and_eq_true] at h
      rw [memberLines, lineParts_of_isEmpty h.1, ih h.2, List.append_nil]

theorem lineParts_point (p : Option (Point α)) : (point p).lineParts = [] := by
  rw [lineParts, ite_self]

theorem lineParts_polygon (rings : List (Line α)) : (polygon rings).lineParts = [] := by
  rw [lineParts, ite_self]

theorem lineParts_line (l : Line α) :
    (line l).lineParts = if List.isEmpty l then [] else [l] := by
  rw [lineParts, isEmpty]

/-- **The lines of a collection are those of its members**, whether or not it is empty. -/
theorem lineParts_many (kind : Collection) (members : List (Geometry α)) :
    (many kind members).lineParts = if kind.holdsLines then memberLines members else [] := by
  rw [lineParts, isEmpty]
  split
  · next hempty => rw [memberLines_of_allEmpty hempty, ite_self]
  · rfl

theorem lineParts_append (kind : Collection) (gs hs : List (Geometry α)) :
    (many kind (gs ++ hs)).lineParts = (many kind gs).lineParts ++ (many kind hs).lineParts := by
  rw [lineParts_many, lineParts_many, lineParts_many]
  split
  · exact memberLines_append gs hs
  · rfl

/-! ### Paths to lines -/

/-- The path from a geometry to a line through collections of lines and mixed collections: for each of
them, the position of the member in which it goes on. -/
inductive Reaches : Geometry α → List Nat → Line α → Prop
  | line (l : Line α) : Reaches (line l) [] l
  | member {kind : Collection} {members : List (Geometry α)} {i : Nat} {g : Geometry α}
      {path : List Nat} {l : Line α} (hkind : kind = .lines ∨ kind = .mixed)
      (hi : members[i]? = some g) (h : Reaches g path l) : Reaches (many kind members) (i :: path) l

/-- The way to one line goes on further left than the way to another where they part. -/
def LeftOf (a b : List Nat × Line α) : Prop := List.Lex (· < ·) a.1 b.1

instance : Std.Asymm (@LeftOf α) := ⟨fun a b => (List.Lex.asymm (· < ·)).asymm a.1 b.1⟩

/-- All lines that are reached and not empty, each once, with their paths and from left to right.  A
member is gone through to its depth before the next one. -/
structure IsLeaves (g : Geometry α) (found : List (List Nat × Line α)) : Prop where
  mem_iff : ∀ path l, (path, l) ∈ found ↔ g.Reaches path l ∧ l ≠ []
  ordered : found.Pairwise LeftOf

theorem IsLeaves.unique {found other : List (List Nat × Line α)} (h : g.IsLeaves found)
    (h' : g.IsLeaves other) : found = other :=
  h.ordered.eq_of_mem_iff h'.ordered fun (path, l) =>
    (h.mem_iff path l).trans (h'.mem_iff path l).symm

/-! ### The lines with their paths -/

theorem holdsLines_iff {kind : Collection} :
    kind.holdsLines = true ↔ kind = .lines ∨ kind = .mixed := by
  cases kind <;> decide

mutual

/-- The non-empty lines of a geometry with the paths to them. -/
def leaves : Geometry α → List (List Nat × Line α)
  | line l => if List.isEmpty l then [] else [([], l)]
  | many kind members => if kind.holdsLines then memberLeaves 0 members else []
  | point _ | polygon _ => []

/-- The non-empty lines of members with the paths to them, the first member at the given position. -/
def memberLeaves (i : Nat) : List (Geometry α) → List (List Nat × Line α)
  | [] => []
  | g :: rest => (leaves g).map (fun leaf => (i :: leaf.1, leaf.2)) ++ memberLeaves (i + 1) rest

end

mutual

/-- The lines that are found are the leaves. -/
theorem map_snd_leaves : ∀ g : Geometry α, g.leaves.map Prod.snd = g.lineParts
  | point p => (lineParts_point p).symm
  | polygon rings => (lineParts_polygon rings).symm
  | line l => by
      rw [leaves, lineParts_line]
      split <;> rfl
  | many kind members => by
      rw [leaves, lineParts_many, ← map_snd_memberLeaves 0 members]
      split <;> rfl

theorem map_snd_memberLeaves : ∀ (i : Nat) (members : List (Geometry α)),
    (memberLeaves i members).map Prod.snd = memberLines members
  | _, [] => rfl
  | i, g :: rest => by
      rw [memberLeaves, memberLines, ← map_snd_leaves g, ← map_snd_memberLeaves (i + 1) rest,
        List.map_append, List.map_map]
      rfl

end

theorem mem_memberLeaves {i : Nat} : (path, l) ∈ memberLeaves i members ↔
    ∃ j g rest, members[j]? = some g ∧ path = (i + j) :: rest ∧ (rest, l) ∈ g.leaves := by
  induction members generalizing i with
  | nil => simp [memberLeaves]
  | cons first later ih =>
      rw [memberLeaves, List.mem_append, List.mem_map, ih]
      constructor
      · rintro (⟨⟨rest, l⟩, hl, h⟩ | ⟨j, g, rest, hj, rfl, hl⟩)
        · cases h
          exact ⟨0, first, rest, rfl, rfl, hl⟩
        · exact ⟨j + 1, g, rest, hj, by rw [Nat.add_assoc, Nat.add_comm 1], hl⟩
      · rintro ⟨_ | j, g, rest, hj, rfl, hl⟩
        · cases hj
          exact .inl ⟨(rest, l), hl, rfl⟩
        · exact .inr ⟨j, g, rest, hj, by rw [Nat.add_assoc, Nat.add_comm 1], hl⟩

theorem mem_leaves_many {kind : Collection} : (path, l) ∈ (many kind members).leaves ↔
    (kind = .lines ∨ kind = .mixed) ∧
      ∃ i g rest, members[i]? = some g ∧ path = i :: rest ∧ (rest, l) ∈ g.leaves := by
  rw [leaves, ← holdsLines_iff]
  split
  · next hkind => simp only [mem_memberLeaves, hkind, true_and, Nat.zero_add]
  · next hkind => simp only [hkind, List.not_mem_nil, false_and, Bool.false_eq_true]

theorem mem_leaves_line {m : Line α} :
    (path, l) ∈ (line m).leaves ↔ path = [] ∧ l = m ∧ m ≠ [] := by
  rw [leaves]
  split
  · next hempty => simp [List.isEmpty_iff.mp hempty]
  · next hfull =>
      have hne : m ≠ [] := mt List.isEmpty_iff.mpr hfull
      simp [hne]

theorem reaches_of_mem_leaves :
    ∀ {path : List Nat} {g : Geometry α}, (path, l) ∈ g.leaves → g.Reaches path l ∧ l ≠ []
  | _, line _, h => by
      obtain ⟨rfl, rfl, hne⟩ := mem_leaves_line.mp h
      exact ⟨.line _, hne⟩
  | [], many .., h => by
      obtain ⟨-, _, _, _, -, hpath, -⟩ := mem_leaves_many.mp h
      cases hpath
  | _ :: rest, many .., h => by
      obtain ⟨hkind, _, _, _, hi, hpath, hl⟩ := mem_leaves_many.mp h
      cases hpath
      obtain ⟨hreach, hne⟩ := reaches_of_mem_leaves hl
      exact ⟨.member hkind hi hreach, hne⟩

theorem mem_leaves_of_reaches (h : g.Reaches path l) (hl : l ≠ []) : (path, l) ∈ g.leaves := by
  induction h with
  | line l => exact mem_leaves_line.mpr ⟨rfl, rfl, hl⟩
  | member hkind hi _ ih => exact mem_leaves_many.mpr ⟨hkind, _, _, _, hi, rfl, ih hl⟩

mutual

/-- The leaves are listed from left to right. -/
theorem pairwise_leaves : ∀ g : Geometry α, g.leaves.Pairwise LeftOf
  | point _ | polygon _ => .nil
  | line l => by
      rw [leaves]
      split
      · exact .nil
      · exact List.pairwise_singleton _ _
  | many kind members => by
      rw [leaves]
      split
      · exact pairwise_memberLeaves 0 members
      · exact .nil

theorem pairwise_memberLeaves : ∀ (i : Nat) (members : List (Geometry α)),
    (memberLeaves i members).Pairwise LeftOf
  | _, [] => .nil
  | i, g :: rest => by
      rw [memberLeaves, List.pairwise_append, List.pairwise_map]
      refine ⟨(pairwise_leaves g).imp fun h => List.Lex.cons h,
        pairwise_memberLeaves (i + 1) rest, ?_⟩
      rintro _ hfirst ⟨path, l⟩ hlater
      obtain ⟨leaf, -, rfl⟩ := List.mem_map.mp hfirst
      obtain ⟨j, _, tail, -, rfl, -⟩ := mem_memberLeaves.mp hlater
      exact List.Lex.rel (by omega)

end

/-- **The leaves are the lines that are reached and not empty**, from left to right. -/
theorem isLeaves_leaves (g : Geometry α) : g.IsLeaves g.leaves where
  mem_iff _ _ := ⟨reaches_of_mem_leaves, fun h => mem_leaves_of_reaches h.1 h.2⟩
  ordered := pairwise_leaves g

/-! ### A collection of the lines that are found -/

theorem ne_nil_of_mem_lineParts (h : l ∈ g.lineParts) : l ≠ [] := by
  rw [← map_snd_leaves] at h
  obtain ⟨⟨path, l⟩, hl, rfl⟩ := List.mem_map.mp h
  exact (reaches_of_mem_leaves hl).2

theorem memberLines_map_line {lines : List (Line α)} (h : ∀ l ∈ lines, l ≠ []) :
    memberLines (lines.map line) = lines := by
  induction lines with
  | nil => rfl
  | cons l rest ih =>
      obtain ⟨hl, hrest⟩ := List.forall_mem_cons.mp h
      rw [List.map_cons, memberLines, lineParts_line, if_neg (mt List.isEmpty_iff.mp hl), ih hrest]
      rfl

/-- **The lines of a geometry** are those that are reached through collections of lines and mixed
collections and not empty, each once, from left to right.  Lists of members one after another have the
lines of the one and then those of the other, and a mixed collection of the lines of a geometry has the
same lines again. -/
theorem lineParts_collects (g : Geometry α) :
    (∃ leaves, (∀ found, g.IsLeaves found ↔ found = leaves) ∧ g.lineParts = leaves.map Prod.snd) ∧
    (∀ (kind : Collection) (gs hs : List (Geometry α)),
      (many kind (gs ++ hs)).lineParts = (many kind gs).lineParts ++ (many kind hs).lineParts) ∧
    (many .mixed (g.lineParts.map line)).lineParts = g.lineParts := by
  refine ⟨⟨g.leaves, fun found => ⟨fun h => h.unique (isLeaves_leaves g), ?_⟩,
    (map_snd_leaves g).symm⟩, lineParts_append, ?_⟩
  · rintro rfl
    exact isLeaves_leaves g
  · rw [lineParts_many]
    exact memberLines_map_line fun _ => ne_nil_of_mem_lineParts

/-- A line among members that are empty or no lines. -/
example (p q : Point Nat) :
    (many .mixed [line [], many .lines [], many .points [.point p],
      many .mixed [.polygon [[p, q, p]], many .lines [line [], line [p, q]]]]).lineParts =
        [[p, q]] :=
  rfl

end BorderTiles.Geometry
