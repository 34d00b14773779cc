import BorderTiles.Proofs.Fractions
import Mathlib.Data.List.Basic

/-!
# Line — repeated positions

A line made from positions leaves out those that fall together with the one before.

* `mem_dropRepeats`, `head?_dropRepeats`, `getLast?_dropRepeats`: every value of a list, and so its ends,
  equals one that is kept.  `dropRepeats_idem`: nothing more is left out a second time.
* `Stuttered xs ys`: `ys` is `xs` with values repeated in place.  `dropRepeats_stuttered`: the same is
  kept of both.
* `Scalar.PartialEquality`: equal numbers are equal in either order and to what either equals.
  `partialEquality_float`, `partialEquality_rat`: so it is with binary numbers and with fractions.  Only
  NaN does not equal itself.
* `Line.Reduced`: what is kept of the places of positions.

`ofDegrees_settles` says which positions make a line, and which line.
-/

namespace BorderTiles

section
variable {τ : Type} {same : τ → τ → Bool}

/-! ### Values that are kept -/

theorem dropRepeats_go_of_distinct {last : τ} {xs : List τ}
    (h : (last :: xs).IsChain fun a b => same b a = false) : dropRepeats.go same last xs = xs := by
  induction xs generalizing last with
  | nil => rfl
  | cons b rest ih =>
      obtain ⟨hb, hrest⟩ := List.isChain_cons_cons.mp h
      rw [dropRepeats.go, hb, if_neg Bool.false_ne_true, ih hrest]

/-- **A second time nothing is left out.** -/
theorem dropRepeats_idem (same : τ → τ → Bool) (xs : List τ) :
    dropRepeats same (dropRepeats same xs) = dropRepeats same xs := by
  cases xs with
  | nil => rfl
  | cons a rest =>
      exact congrArg (a :: ·) (dropRepeats_go_of_distinct (isChain_dropRepeats_go same a rest))

theorem mem_dropRepeats_go {last : τ} {xs : List τ} (hrefl : ∀ a ∈ xs, same a a = true) :
    ∀ a ∈ xs, ∃ b ∈ last :: dropRepeats.go same last xs, same a b = true := by
  induction xs generalizing last with
  | nil => exact nofun
  | cons c rest ih =>
      obtain ⟨hc, hrest⟩ := List.forall_mem_cons.mp hrefl
      rw [dropRepeats.go]
      split
      · next heq =>
          refine List.forall_mem_cons.mpr ⟨⟨last, List.mem_cons_self, heq⟩, ih hrest⟩
      · refine List.forall_mem_cons.mpr ⟨⟨c, by simp, hc⟩, fun a ha => ?_⟩
        obtain ⟨b, hb, hab⟩ := ih hrest a ha
        exact ⟨b, List.mem_cons_of_mem _ hb, hab⟩

/-- Every value equals one that is kept. -/
theorem mem_dropRepeats {xs : List τ} (hrefl : ∀ a ∈ xs, same a a = true) :
    ∀ a ∈ xs, ∃ b ∈ dropRepeats same xs, same a b = true := by
  cases xs with
  | nil => exact nofun
  | cons c rest =>
      obtain ⟨hc, hrest⟩ := List.forall_mem_cons.mp hrefl
      exact List.forall_mem_cons.mpr ⟨⟨c, List.mem_cons_self, hc⟩, mem_dropRepeats_go hrest⟩

theorem head?_dropRepeats (same : τ → τ → Bool) (xs : List τ) :
    (dropRepeats same xs).head? = xs.head? := by
  cases xs <;> rfl

theorem getLast_dropRepeats_go {last : τ} {xs : List τ} (hlast : same last last = true)
    (hrefl : ∀ a ∈ xs, same a a = true) :
    same ((last :: xs).getLast (List.cons_ne_nil _ _))
      ((last :: dropRepeats.go same last xs).getLast (List.cons_ne_nil _ _)) = true := by
  induction xs generalizing last with
  | nil => exact hlast
  | cons b rest ih =>
      obtain ⟨hb, hrest⟩ := List.forall_mem_cons.mp hrefl
      simp only [dropRepeats.go]
      split
      · next heq =>
          -- the end of the list is the end of what follows `b`, unless that is nothing
          cases rest with
          | nil => exact heq
          | cons c rest => exact ih hlast hrest
      · simpa only [List.getLast_cons_cons] using ih hb hrest

/-- The last value equals the last one that is kept. -/
theorem getLast?_dropRepeats {xs : List τ} (hrefl : ∀ a ∈ xs, same a a = true) {a : τ}
    (ha : xs.getLast? = some a) : ∃ b, (dropRepeats same xs).getLast? = some b ∧ same a b = true := by
  cases xs with
  | nil => cases ha
  | cons c rest =>
      obtain ⟨hc, hrest⟩ := List.forall_mem_cons.mp hrefl
      rw [List.getLast?_eq_some_getLast (List.cons_ne_nil _ _)] at ha
      cases ha
      exact ⟨_, List.getLast?_eq_some_getLast (List.cons_ne_nil _ _), getLast_dropRepeats_go hc hrest⟩

/-- Of values that all equal the first, only that one is kept. -/
theorem dropRepeats_go_eq_nil {last : τ} {xs : List τ} (h : ∀ a ∈ xs, same a last = true) :
    dropRepeats.go same last xs = [] := by
  induction xs with
  | nil => rfl
  | cons b rest ih =>
      obtain ⟨hb, hrest⟩ := List.forall_mem_cons.mp h
      rw [dropRepeats.go, if_pos hb, ih hrest]

/-! ### Values that are repeated -/

/-- The second list has the values of the first, each once or several times in its place. -/
inductive Stuttered : List τ → List τ → Prop
  | nil : Stuttered [] []
  | cons (a : τ) (n : Nat) {xs ys : List τ} (h : Stuttered xs ys) :
      Stuttered (a :: xs) (List.replicate (n + 1) a ++ ys)

theorem Stuttered.map {σ : Type} (f : τ → σ) {xs ys : List τ} (h : Stuttered xs ys) :
    Stuttered (xs.map f) (ys.map f) := by
  induction h with
  | nil => exact .nil
  | cons a n _ ih =>
      rw [List.map_cons, List.map_append, List.map_replicate]
      exact .cons (f a) n ih

theorem dropRepeats_go_replicate {last a : τ} (h : same a last = true) (n : Nat) (xs : List τ) :
    dropRepeats.go same last (List.replicate n a ++ xs) = dropRepeats.go same last xs := by
  induction n with
  | zero => rfl
  | succ n ih => rw [List.replicate_succ, List.cons_append, dropRepeats.go, if_pos h, ih]

theorem dropRepeats_go_stuttered {xs ys : List τ} (h : Stuttered xs ys)
    (hrefl : ∀ a ∈ xs, same a a = true) (last : τ) :
    dropRepeats.go same last ys = dropRepeats.go same last xs := by
  induction h generalizing last with
  | nil => rfl
  | cons a n _ ih =>
      obtain ⟨ha, hrest⟩ := List.forall_mem_cons.mp hrefl
      rw [List.replicate_succ, List.cons_append, dropRepeats.go, dropRepeats.go]
      split
      · next heq => rw [dropRepeats_go_replicate heq, ih hrest]
      · rw [dropRepeats_go_replicate ha, ih hrest]

/-- **Repeating values in place changes nothing.** -/
theorem dropRepeats_stuttered {xs ys : List τ} (h : Stuttered xs ys)
    (hrefl : ∀ a ∈ xs, same a a = true) : dropRepeats same ys = dropRepeats same xs := by
  cases h with
  | nil => rfl
  | cons a n hrest =>
      obtain ⟨ha, hxs⟩ := List.forall_mem_cons.mp hrefl
      rw [List.replicate_succ, List.cons_append, dropRepeats, dropRepeats,
        dropRepeats_go_replicate ha, dropRepeats_go_stuttered hrest hxs]

end

/-! ### Equal numbers -/

/-- Equal numbers are equal in either order, and to what either of them equals.  Nothing is said of what
equals itself: NaN does not. -/
structure Scalar.PartialEquality (α : Type) [Scalar α] : Prop where
  symm : ∀ a b : α, eq a b = true → eq b a = true
  trans : ∀ a b c : α, eq a b = true → eq b c = true → eq a c = true

theorem partialEquality_rat : Scalar.PartialEquality Rat where
  symm _ _ h := decide_eq_true (of_decide_eq_true h).symm
  trans _ _ _ h h' := decide_eq_true ((of_decide_eq_true h).trans (of_decide_eq_true h'))

section
open Float.Model UnpackedFloat

/-- What makes unpacked numbers equal: of zeros nothing, of others the sign, the exponent and the
digits.  NaN equals nothing. -/
def unpackedKey : UnpackedFloat → Option (Fin 3 × Sign × Int × Nat)
  | notANumber => none
  | zero _ => some (0, .positive, 0, 0)
  | finite s m e _ => some (1, s, e, m)
  | infinity s => some (2, s, 0, 0)

theorem compare_eq_iff (a b : UnpackedFloat) :
    a.compare b = some .eq ↔ unpackedKey a ≠ none ∧ unpackedKey a = unpackedKey b := by
  have hsign : ∀ s t : Sign, compare s t = .eq ↔ s = t := by
    intro s t
    cases s <;> cases t <;> simp only [reduceCtorEq, iff_true] <;> decide
  delta UnpackedFloat.compare
  -- the comparison looks at the signs of both
  rcases a with (_ | _) | _ | _ | ⟨_ | _, m, e, hm⟩ <;>
    rcases b with (_ | _) | _ | _ | ⟨_ | _, n, f, hn⟩ <;>
    dsimp only [unpackedKey] <;>
    simp [Ordering.then_eq_eq, hsign]

/-- Binary numbers are equal if they have the same key. -/
theorem eq_float_iff (a b : Float) : Scalar.eq a b = true ↔
    unpackedKey a.toModel.unpack ≠ none ∧
      unpackedKey a.toModel.unpack = unpackedKey b.toModel.unpack :=
  (beq_iff_eq (a := a.toModel.unpack.compare b.toModel.unpack)).trans (compare_eq_iff _ _)

end

theorem partialEquality_float : Scalar.PartialEquality Float where
  symm a b h := by
    rw [eq_float_iff] at h ⊢
    exact ⟨h.2 ▸ h.1, h.2.symm⟩
  trans a b c h h' := by
    rw [eq_float_iff] at h h' ⊢
    exact ⟨h.1, h.2.trans h'.2⟩

namespace Point
variable {α : Type} [Scalar α] (hα : Scalar.PartialEquality α) {p q r : Point α}
include hα

theorem same_symm (h : p.same q = true) : q.same p = true := by
  simp only [same, Bool.and_eq_true] at h ⊢
  exact ⟨hα.symm _ _ h.1, hα.symm _ _ h.2⟩

theorem same_trans (h : p.same q = true) (h' : q.same r = true) : p.same r = true := by
  simp only [same, Bool.and_eq_true] at h h' ⊢
  exact ⟨hα.trans _ _ _ h.1 h'.1, hα.trans _ _ _ h.2 h'.2⟩

end Point

/-! ### Lines -/

namespace Line
variable {α : Type} [Mercator α]

/-- Longitudes and latitudes as positions. -/
def positions (pairs : List (α × α)) : List (List α) := pairs.map fun (lon, lat) => [lon, lat]

/-- The places of longitudes and latitudes. -/
def places (pairs : List (α × α)) : List (Point α) :=
  pairs.map fun (lon, lat) => ⟨(Mercator.toWorld lon lat).1, (Mercator.toWorld lon lat).2, none⟩

theorem mapM_positions (pairs : List (α × α)) :
    ((positions pairs).mapM fun position => do
      let (lon, lat) ← pair position
      let (x, y) := Mercator.toWorld lon lat
      return (⟨x, y, none⟩ : Point α)) = .ok (places pairs) := by
  refine mapM_eq_ok.mpr ?_
  rw [positions, places, List.forall₂_map_left_iff, List.forall₂_map_right_iff]
  exact List.forall₂_same.mpr fun _ _ => rfl

/-- The line of longitudes and latitudes is what is kept of their places, if that is enough. -/
theorem ofDegrees_positions (pairs : List (α × α)) : ofDegrees (positions pairs) =
    if (dropRepeats Point.same (places pairs)).length < 2 then
      .error (.indistinct (dropRepeats Point.same (places pairs)).length)
    else .ok (dropRepeats Point.same (places pairs)) := by
  rw [ofDegrees, mapM_positions]
  rfl

/-- What is kept of points: a line from the first to the last of them, and through all of them, that
repeats none at once. -/
structure Reduced (points : List (Point α)) (l : Line α) : Prop where
  two_le : 2 ≤ l.length
  distinct : l.IsChain fun p q => q.same p = false
  first : l.head? = points.head?
  last : ∃ p q, points.getLast? = some p ∧ l.getLast? = some q ∧ p.same q = true
  sublist : l.Sublist points
  complete : ∀ p ∈ points, ∃ q ∈ l, p.same q = true

theorem reduced_dropRepeats {points : List (Point α)} (hrefl : ∀ p ∈ points, p.same p = true)
    (htwo : 2 ≤ (dropRepeats Point.same points).length) :
    Reduced points (dropRepeats Point.same points) where
  two_le := htwo
  distinct := isChain_dropRepeats _ _
  first := head?_dropRepeats _ _
  last := by
    cases hlast : points.getLast? with
    | none =>
        obtain rfl := List.getLast?_eq_none_iff.mp hlast
        exact absurd htwo (Nat.not_succ_le_zero 1)
    | some p =>
        obtain ⟨q, hq, hpq⟩ := getLast?_dropRepeats hrefl hlast
        exact ⟨p, q, rfl, hq, hpq⟩
  sublist := dropRepeats_sublist _ _
  complete := mem_dropRepeats hrefl

/-- Too little is kept of points exactly if all of them are equal. -/
theorem length_dropRepeats_lt_two_iff (hα : Scalar.PartialEquality α) {points : List (Point α)}
    (hrefl : ∀ p ∈ points, p.same p = true) : (dropRepeats Point.same points).length < 2 ↔
      ∀ p ∈ points, ∀ q ∈ points, p.same q = true := by
  constructor
  · intro hfew p hp q hq
    obtain ⟨p', hp', hpp'⟩ := mem_dropRepeats hrefl p hp
    obtain ⟨q', hq', hqq'⟩ := mem_dropRepeats hrefl q hq
    -- there is only one point to be equal to
    obtain rfl : p' = q' := by
      match hkept : dropRepeats Point.same points, hfew with
      | [], _ => exact absurd (hkept ▸ hp') List.not_mem_nil
      | [a], _ =>
          rw [hkept] at hp' hq'
          rw [List.mem_singleton.mp hp', List.mem_singleton.mp hq']
    exact Point.same_trans hα hpp' (Point.same_symm hα hqq')
  · intro hall
    cases points with
    | nil => exact Nat.two_pos
    | cons a rest =>
        have hrest : dropRepeats.go Point.same a rest = [] := dropRepeats_go_eq_nil fun b hb =>
          hall b (List.mem_cons_of_mem a hb) a List.mem_cons_self
        rw [dropRepeats, hrest]
        exact Nat.one_lt_two

/-- **Positions make a line unless their places are all equal.**  The line goes from the first place to
the last one and through every other, and repeats none at once.  It stays the same if positions are
repeated in place, and nothing more is left out of points a second time. -/
theorem ofDegrees_settles (hα : Scalar.PartialEquality α) (pairs : List (α × α))
    (hnumbers : ∀ p ∈ places pairs, p.same p = true) :
    ((∃ fault, ofDegrees (positions pairs) = .error fault ∧ fault.kind = .geometry) ↔
      pairs = [] ∨ ∀ p ∈ places pairs, ∀ q ∈ places pairs, p.same q = true) ∧
    (¬ (pairs = [] ∨ ∀ p ∈ places pairs, ∀ q ∈ places pairs, p.same q = true) →
      ∃ l, ofDegrees (positions pairs) = .ok l ∧ Reduced (places pairs) l) ∧
    (∀ repeated, Stuttered pairs repeated →
      ofDegrees (positions repeated) = ofDegrees (positions pairs)) ∧
    ∀ points : List (Point α),
      dropRepeats Point.same (dropRepeats Point.same points) = dropRepeats Point.same points := by
  have hequal : (pairs = [] ∨ ∀ p ∈ places pairs, ∀ q ∈ places pairs, p.same q = true) ↔
      (dropRepeats Point.same (places pairs)).length < 2 := by
    rw [length_dropRepeats_lt_two_iff hα hnumbers]
    refine or_iff_right_of_imp ?_
    rintro rfl
    exact nofun
  rw [hequal, ofDegrees_positions]
  refine ⟨?_, fun hmany => ?_, fun repeated hrepeated => ?_, dropRepeats_idem _⟩
  · constructor
    · rintro ⟨fault, hfault, -⟩
      by_contra hmany
      rw [if_neg hmany] at hfault
      cases hfault
    · intro hfew
      exact ⟨_, if_pos hfew, rfl⟩
  · exact ⟨_, if_neg hmany, reduced_dropRepeats hnumbers (Nat.not_lt.mp hmany)⟩
  · have hkept : dropRepeats Point.same (places repeated) = dropRepeats Point.same (places pairs) :=
      dropRepeats_stuttered (hrepeated.map _) hnumbers
    rw [ofDegrees_positions, hkept]

/-- A way there and back: with its turning point given three times it is the same line of three points.
Binary numbers as well are refused if there are none. -/
theorem ofDegrees_settles_return :
    (∃ l, ofDegrees (positions [(10, 20), (30, 40), (30, 40), (30, 40), ((10 : Rat), 20)]) = .ok l ∧
      ofDegrees (positions [(10, 20), (30, 40), ((10 : Rat), 20)]) = .ok l ∧
      Reduced (places [(10, 20), (30, 40), (10, 20)]) l ∧ l.length = 3) ∧
    ∃ fault, ofDegrees (positions ([] : List (Float × Float))) = .error fault ∧
      fault.kind = .geometry := by
  have hstutter : Stuttered [(10, 20), (30, 40), ((10 : Rat), (20 : Rat))]
      [(10, 20), (30, 40), (30, 40), (30, 40), (10, 20)] := .cons _ 0 (.cons _ 2 (.cons _ 0 .nil))
  obtain ⟨-, hline, hrepeated, -⟩ := ofDegrees_settles partialEquality_rat
    [(10, 20), (30, 40), (10, 20)] (by decide +kernel)
  obtain ⟨l, hl, hreduced⟩ := hline (by decide +kernel)
  refine ⟨⟨l, (hrepeated _ hstutter).trans hl, hl, hreduced, ?_⟩,
    (ofDegrees_settles partialEquality_float [] nofun).1.mpr (.inl rfl)⟩
  have hlength : (ofDegrees (positions [(10, 20), (30, 40), ((10 : Rat), 20)])).map List.length =
      .ok 3 := by decide +kernel
  rw [hl] at hlength
  exact Except.ok.inj hlength

end Line
end BorderTiles
