import BorderTiles.Proofs.Bordering.Election

/-!
# Bordering — the border of an enclave

`Flanked` says of a line that one country holds all of its right points and none of its left ones,
another one all left points, and nobody else any.  `ofLine_flanked`: the two are found on their sides,
whatever their ids — unless the left one holds all right points as well, as a country does whose area
covers its enclave.  Then the right is a tie, no vote is left for the left side, and the lower id is
found alone.  `enclave_unattributed` is such a border.
-/

namespace BorderTiles
namespace Bordering
variable {α ρ : Type} {inside : ρ → Point α → Bool} {regions : Table Int ρ} {ids : List Int}
  {points : List (Point α × Point α)} {a b : Int} {areaA areaB : ρ}

/-- All right points are in the area of `b` and no left one is; all left points are in the area of `a`;
no test point is in another area. -/
structure Flanked (inside : ρ → Point α → Bool) (regions : Table Int ρ) (ids : List Int)
    (points : List (Point α × Point α)) (a b : Int) (areaA areaB : ρ) : Prop where
  left_mem : a ∈ ids
  right_mem : b ∈ ids
  left_area : regions.get? a = some areaA
  right_area : regions.get? b = some areaB
  ne : a ≠ b
  rights : ∀ p ∈ points, inside areaB p.1 = true
  lefts : ∀ p ∈ points, inside areaA p.2 = true ∧ inside areaB p.2 = false
  others : ∀ id ∈ ids, id ≠ a → id ≠ b → Unseen inside regions points id

namespace Flanked
variable (h : Flanked inside regions ids points a b areaA areaB)
include h

theorem left_known : Known regions ids a :=
  ⟨h.left_mem, by simp [Table.contains, h.left_area]⟩

theorem right_known : Known regions ids b :=
  ⟨h.right_mem, by simp [Table.contains, h.right_area]⟩

theorem rightCount_left :
    rightCount inside regions points a = points.countP fun p => inside areaA p.1 := by
  rw [rightCount, h.left_area]

/-- The country on the right has all right votes. -/
theorem rightCount_right : rightCount inside regions points b = points.length := by
  rw [rightCount, h.right_area]
  exact List.countP_eq_length.mpr h.rights

/-- The country on the left has the left votes of the samples whose right points it does not hold. -/
theorem leftCount_left :
    leftCount inside regions points a = points.countP fun p => !inside areaA p.1 := by
  rw [leftCount, h.left_area]
  exact List.countP_congr fun p hp => by simp [(h.lefts p hp).1]

/-- The country on the right has no left vote. -/
theorem leftCount_right : leftCount inside regions points b = 0 := by
  rw [leftCount, h.right_area]
  exact List.countP_eq_zero.mpr fun p hp => by simp [h.rights p hp]

/-- Only the two countries have votes. -/
theorem votes_of_others {id : Int} (hid : Known regions ids id) (ha : id ≠ a) (hb : id ≠ b) :
    rightCount inside regions points id = 0 ∧ leftCount inside regions points id = 0 :=
  have hunseen := h.others id hid.1 ha hb
  ⟨rightCount_of_unseen hunseen, leftCount_of_unseen hunseen⟩

/-- One with right votes who leads both countries is elected. -/
theorem elected_right {w : Int} (hw : Known regions ids w)
    (hpos : 0 < rightCount inside regions points w)
    (ha : Leads (rightCount inside regions points) w a)
    (hb : Leads (rightCount inside regions points) w b) :
    Elected (Known regions ids) (rightCount inside regions points) (some w) := by
  refine ⟨hw, hpos, fun id hid => ?_⟩
  by_cases hida : id = a
  · exact hida ▸ ha
  · by_cases hidb : id = b
    · exact hidb ▸ hb
    · exact .inl ((h.votes_of_others hid hida hidb).1 ▸ hpos)

/-- Where the country on the left holds all right points too, the lower id has the right and nobody the
left. -/
theorem decided_of_covering (hsome : points ≠ []) (hall : ∀ p ∈ points, inside areaA p.1 = true) :
    Decided inside regions ids points ⟨none, some (min a b)⟩ := by
  have hvotes : rightCount inside regions points a = points.length := by
    rw [h.rightCount_left]
    exact List.countP_eq_length.mpr hall
  have htie : ∀ w, w = a ∨ w = b → rightCount inside regions points w = points.length := by
    rintro w (rfl | rfl)
    · exact hvotes
    · exact h.rightCount_right
  have hwinner := htie (min a b) (min_choice a b)
  refine ⟨h.elected_right ?_ (hwinner ▸ List.length_pos_iff.mpr hsome)
    (.inr ⟨hwinner.trans hvotes.symm, min_le_left a b⟩)
    (.inr ⟨hwinner.trans h.rightCount_right.symm, min_le_right a b⟩), fun id hid => ?_⟩
  · rcases min_choice a b with heq | heq <;> rw [heq]
    · exact h.left_known
    · exact h.right_known
  · by_cases hida : id = a
    · rw [hida, h.leftCount_left]
      exact List.countP_eq_zero.mpr fun p hp => by simp [hall p hp]
    · by_cases hidb : id = b
      · exact hidb ▸ h.leftCount_right
      · exact (h.votes_of_others hid.1 hida hidb).2

/-- Where it does not, each country has its side. -/
theorem decided_of_missing {p : Point α × Point α} (hp : p ∈ points)
    (hmissing : inside areaA p.1 = false) : Decided inside regions ids points ⟨some a, some b⟩ := by
  have hfewer : rightCount inside regions points a < rightCount inside regions points b := by
    rw [h.rightCount_left, h.rightCount_right]
    refine lt_of_le_of_ne List.countP_le_length fun heq => ?_
    exact absurd (List.countP_eq_length.mp heq p hp) (by simp [hmissing])
  have hleft : 0 < leftCount inside regions points a := by
    rw [h.leftCount_left]
    exact List.countP_pos_iff.mpr ⟨p, hp, by simp [hmissing]⟩
  have hside : some b ≠ some a := fun heq => h.ne (Option.some.inj heq).symm
  refine ⟨h.elected_right h.right_known (Nat.zero_lt_of_lt hfewer) (.inl hfewer) (.refl _ b),
    ⟨h.left_known, hside⟩, hleft, fun id hid => ?_⟩
  by_cases hida : id = a
  · rw [hida]
    exact .refl _ a
  · have hidb : id ≠ b := fun heq => hid.2 (congrArg some heq.symm)
    exact .inl ((h.votes_of_others hid.1 hida hidb).2 ▸ hleft)

end Flanked

variable [Mercator α] {line : Line α}

theorem length_of_testPoints (h : TestPoints line points) : points.length = samples :=
  (mapM_eq_ok.mp h).length_eq.symm.trans List.length_range

/-- **The border of an enclave.**  A line between two countries has each of them on its side, whichever
id is lower, unless the country on the left holds all right points too: then the lower id is found on
the right and nobody on the left. -/
theorem ofLine_flanked (hids : ids.Nodup) (hpoints : TestPoints line points)
    (h : Flanked inside regions ids points a b areaA areaB) :
    ofLine inside regions ids line = ⟨[], .ok
      (if points.all fun p => inside areaA p.1 then ⟨none, some (min a b)⟩
      else ⟨some a, some b⟩)⟩ := by
  have hsome : points ≠ [] := List.ne_nil_of_length_eq_add_one (length_of_testPoints hpoints)
  have hdecided := outcome_decided inside regions hids points
  split
  · next hall =>
      have houtcome := hdecided.unique (h.decided_of_covering hsome (List.all_eq_true.mp hall))
      rw [ofLine_of_found hpoints (.inr (by simp [houtcome])), houtcome]
  · next hmissing =>
      obtain ⟨p, hp, hmissing⟩ : ∃ p ∈ points, inside areaA p.1 = false := by
        simpa using hmissing
      have houtcome := hdecided.unique (h.decided_of_missing hp hmissing)
      rw [ofLine_of_found hpoints (.inr (by simp [houtcome])), houtcome]

/-! ### A country around its enclave -/

/-- The area of a country, with that of its enclave. -/
def around : Box Rat := ⟨3 / 10, 3 / 10, 7 / 10, 7 / 10⟩

def enclave : Box Rat := ⟨2 / 5, 2 / 5, 3 / 5, 3 / 5⟩

/-- The northern part of the country around. -/
def north : Box Rat := ⟨3 / 10, 3 / 10, 7 / 10, 2 / 5⟩

/-- The border of the enclave in the north, which has it on its right. -/
def northBorder : Line Rat := [⟨2 / 5, 2 / 5, none⟩, ⟨3 / 5, 2 / 5, none⟩]

/-- The points beside this border. -/
def northPoints : List (Point Rat × Point Rat) :=
  List.replicate samples
    (⟨1 / 2, 2 / 5 + sampleOffset, none⟩, ⟨1 / 2, 2 / 5 - sampleOffset, none⟩)

theorem testPoints_northBorder : TestPoints northBorder northPoints := by
  rw [TestPoints]
  decide +kernel

/-- The country and its enclave. -/
def countryAndEnclave : Table Int (Box Rat) := ⟨[(1, around), (2, enclave)], by decide⟩

/-- The enclave and the part of the country north of it. -/
def enclaveAndNorth : Table Int (Box Rat) := ⟨[(1, enclave), (2, north)], by decide⟩

theorem flanked_around :
    Flanked Kernel.upright.inside countryAndEnclave [1, 2] northPoints 1 2 around enclave where
  left_mem := by decide
  right_mem := by decide
  left_area := rfl
  right_area := rfl
  ne := by decide
  rights := by decide +kernel
  lefts := by decide +kernel
  others id hid ha hb := by simp [ha, hb] at hid

theorem flanked_north :
    Flanked Kernel.upright.inside enclaveAndNorth [1, 2] northPoints 2 1 north enclave where
  left_mem := by decide
  right_mem := by decide
  left_area := rfl
  right_area := rfl
  ne := by decide
  rights := by decide +kernel
  lefts := by decide +kernel
  others id hid ha hb := by simp [ha, hb] at hid

/-- The country in the north is on its side, though it has the higher id; the one around its enclave is
on the wrong one. -/
theorem ofLine_flanked_northBorder :
    ofLine Kernel.upright.inside enclaveAndNorth [1, 2] northBorder = ⟨[], .ok ⟨some 2, some 1⟩⟩ ∧
      ofLine Kernel.upright.inside countryAndEnclave [1, 2] northBorder =
        ⟨[], .ok ⟨none, some 1⟩⟩ := by
  constructor
  · rw [ofLine_flanked (by decide) testPoints_northBorder flanked_north, if_neg (by decide +kernel)]
  · rw [ofLine_flanked (by decide) testPoints_northBorder flanked_around, if_pos (by decide +kernel)]
    rfl

/-- Between a country that lies around its enclave and the enclave, only the country is found, and on
the side of the enclave. -/
theorem enclave_unattributed :
    ∃ points, TestPoints northBorder points ∧
      Flanked Kernel.upright.inside countryAndEnclave [1, 2] points 1 2 around enclave ∧
      (ofLine Kernel.upright.inside countryAndEnclave [1, 2] northBorder).result =
        .ok ⟨none, some 1⟩ ∧
      (ofLine Kernel.upright.inside countryAndEnclave [1, 2] northBorder).result ≠
        .ok ⟨some 1, some 2⟩ := by
  have hresult : (ofLine Kernel.upright.inside countryAndEnclave [1, 2] northBorder).result =
      .ok ⟨none, some 1⟩ := by
    rw [ofLine, candidates_of_sorted countryAndEnclave (by decide)]
    decide +kernel
  refine ⟨northPoints, testPoints_northBorder, flanked_around, hresult, ?_⟩
  rw [hresult]
  decide

end Bordering
end BorderTiles
