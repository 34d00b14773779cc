import Mathlib.Analysis.SpecialFunctions.Log.Basic
import Mathlib.Analysis.SpecialFunctions.Pow.Real
import Mathlib.Analysis.SpecialFunctions.Trigonometric.Arctan
import BorderTiles.Proofs.Bordering.Reversed

/-!
# Bordering — where a sample lies

A sample of a line is taken on one of its segments and lies `beside` it.  With exact numbers:

* `segmentAt_ok`, `segmentAt_mono`: there is a segment for every ratio, and a greater ratio has no
  earlier one.  `sample_eq_beside`: the sample lies beside it.
* `fromMiddle_beside`, `fromMiddle_eq_zero`: it is the middle of the segment moved along the direction
  turned by a right angle, and the middle itself without an offset or without a direction.
* `sample_beside`: at the distance of the offset, on the right or on the left by its sign, and the
  samples of an offset and of its negative mirror each other.

The program asks for a root.  Only `IsLength` is known of it, so all is said in an ordered field.  Over
the real numbers every operation of the program has its exact result (`exact_real`), also the diagonal,
which fractions do not have (`exactDiagonal_real`).
-/

namespace BorderTiles
namespace Bordering
variable {α K : Type} [Field K]

/-! ### Vectors of the plane -/

/-- The scalar product, which is zero at a right angle. -/
def dot (v w : K × K) : K := v.1 * w.1 + v.2 * w.2

/-- The cross product, which is positive if, `y` growing southward, `w` is to the right of `v`. -/
def cross (v w : K × K) : K := v.1 * w.2 - v.2 * w.1

/-- The vector from one point to another. -/
def toward (val : α → K) (p q : Point α) : K × K := (val q.x - val p.x, val q.y - val p.y)

/-- The vector to a point from the middle between two others. -/
def fromMiddle (val : α → K) (p q r : Point α) : K × K :=
  (val r.x - (val p.x + val q.x) / 2, val r.y - (val p.y + val q.y) / 2)

variable [LinearOrder K]

/-- `length` is the length of `v`. -/
structure IsLength (v : K × K) (length : K) : Prop where
  nonneg : 0 ≤ length
  sq : length ^ 2 = dot v v

/-- `r` lies beside the segment from `p` to `q`: at a right angle to its middle, at the distance of
`offset`, on the right if that is positive and on the left if it is negative. -/
structure Beside (val : α → K) (p q : Point α) (offset : K) (r : Point α) : Prop where
  perpendicular : dot (toward val p q) (fromMiddle val p q r) = 0
  distance : IsLength (fromMiddle val p q r) |offset|
  cross_eq : ∃ length, IsLength (toward val p q) length ∧
    cross (toward val p q) (fromMiddle val p q r) = offset * length
  right : 0 < cross (toward val p q) (fromMiddle val p q r) ↔ 0 < offset
  left : cross (toward val p q) (fromMiddle val p q r) < 0 ↔ offset < 0

/-- `r` and `r'` are the points of an offset and of its negative at the segment from `p` to `q`: each
beside it, and mirror images; in its middle if the segment or the offset is zero. -/
structure Flanks (val : α → K) (p q : Point α) (offset : K) (r r' : Point α) : Prop where
  beside : toward val p q ≠ 0 → Beside val p q offset r ∧ Beside val p q (-offset) r'
  middle : toward val p q = 0 ∨ offset = 0 → fromMiddle val p q r = 0
  mirrored : fromMiddle val p q r' = -fromMiddle val p q r

/-- Numbers with the diagonal of every rectangle, as long as it is. -/
def ExactDiagonal [Scalar α] (val : α → K) : Prop :=
  ∀ a b : α, IsLength (val a, val b) (val (Scalar.hypotenuse a b))

variable [Mercator α] {val : α → K} {l : Line α}

theorem isLength_hypotenuse (h : Scalar.Exact val) (hdiagonal : ExactDiagonal val) (p q : Point α) :
    IsLength (toward val p q) (val (Scalar.hypotenuse (q.x - p.x) (q.y - p.y))) := by
  rw [toward, ← h.sub, ← h.sub]
  exact hdiagonal _ _

/-! ### The segment of a sample -/

/-- The segment at a ratio of `n` points. -/
def segmentAt (n : Nat) (ratio : α) : Except Fault Nat := do
  let found ← Scalar.truncate (Scalar.ofNat n * ratio)
  return (Mercator.clampIndex ((n : Int) - 2) found).toNat

theorem segmentAt_ok (h : Scalar.Exact val) (n : Nat) (ratio : α) :
    ∃ i, segmentAt n ratio = .ok i ∧ i ≤ n - 2 := by
  obtain ⟨z, hz, -⟩ := h.truncate (Scalar.ofNat n * ratio : α)
  refine ⟨_, bind_eq_ok.mpr ⟨z, hz, rfl⟩, ?_⟩
  unfold Mercator.clampIndex
  omega

/-- A sample lies beside its segment. -/
theorem sample_eq_beside {ratio : α} {i : Nat} (htwo : 2 ≤ l.length)
    (hi : segmentAt l.length ratio = .ok i) :
    ∃ p q, l[i]? = some p ∧ l[i + 1]? = some q ∧
      ∀ offset, l.sample ratio offset = .ok (beside offset p q) := by
  obtain ⟨found, hfound, hi⟩ := bind_eq_ok.mp hi
  cases hi
  obtain ⟨p, -, q, -, hp, hq⟩ := Line.exists_segment htwo found
  refine ⟨p, q, hp, hq, fun offset => ?_⟩
  simp only [Line.sample, hfound, hp, hq, bind, Except.bind]
  exact (apply_ite Except.ok _ _ _).symm

variable [IsStrictOrderedRing K]

/-- **The greater the ratio**, the further on the segment. -/
theorem segmentAt_mono (h : Scalar.Exact val) {n i j : Nat} {ratio ratio' : α}
    (hle : val ratio ≤ val ratio') (hi : segmentAt n ratio = .ok i)
    (hj : segmentAt n ratio' = .ok j) : i ≤ j := by
  obtain ⟨z, hz, hwhole⟩ := h.truncate (Scalar.ofNat n * ratio : α)
  obtain ⟨z', hz', hwhole'⟩ := h.truncate (Scalar.ofNat n * ratio' : α)
  rw [segmentAt, hz] at hi
  rw [segmentAt, hz'] at hj
  cases hi
  cases hj
  refine Int.toNat_le_toNat (clampIndex_mono _ (hwhole.mono hwhole' ?_))
  rw [h.mul, h.mul, h.ofNat]
  exact mul_le_mul_of_nonneg_left hle (Nat.cast_nonneg n)

/-! ### The point beside a segment -/

/-- Only the vector without length is zero. -/
theorem dot_self_eq_zero {v : K × K} : dot v v = 0 ↔ v = 0 := by
  rw [dot, Prod.ext_iff]
  constructor
  · intro h
    have h1 := mul_self_nonneg v.1
    have h2 := mul_self_nonneg v.2
    exact ⟨mul_self_eq_zero.mp (by linarith), mul_self_eq_zero.mp (by linarith)⟩
  · rintro ⟨h1, h2⟩
    rw [h1, h2]
    simp

theorem IsLength.eq_zero_iff {v : K × K} {length : K} (h : IsLength v length) :
    length = 0 ↔ v = 0 := by
  rw [← dot_self_eq_zero, ← h.sq, sq_eq_zero_iff]

theorem IsLength.unique {v : K × K} {a b : K} (ha : IsLength v a) (hb : IsLength v b) : a = b :=
  (pow_left_inj₀ ha.nonneg hb.nonneg two_ne_zero).mp (ha.sq.trans hb.sq.symm)

/-- **The point beside a segment** is its middle moved along the direction turned to the right.  Where
the length is zero, so is the direction, and so is what is divided by it. -/
theorem fromMiddle_beside (h : Scalar.Exact val) (hdiagonal : ExactDiagonal val) (offset : α)
    {p q : Point α} {length : K} (hlength : IsLength (toward val p q) length) :
    fromMiddle val p q (beside offset p q) =
      (-(val offset * (toward val p q).2 / length), val offset * (toward val p q).1 / length) := by
  have hroot := (isLength_hypotenuse h hdiagonal p q).unique hlength
  have htwo : val (Scalar.ofNat 2 : α) = 2 := h.ofNat 2
  have htwo' : val (Scalar.ofNat 2 : α) ≠ 0 := by rw [htwo]; norm_num
  rw [beside]
  split
  · next htest =>
      rw [Bool.or_eq_true, h.eq, h.eq, h.ofNat, Nat.cast_zero, hroot] at htest
      have hzero : val offset = 0 ∨ length = 0 := htest
      have hshift : ∀ c : K, val offset * c / length = 0 := by
        intro c
        rcases hzero with hzero | hzero <;> rw [hzero] <;> simp
      simp only [hshift, fromMiddle, h.add, h.sub, h.div _ _ htwo', htwo]
      refine Prod.ext ?_ ?_ <;> simp only <;> ring
  · next htest =>
      rw [Bool.or_eq_true, h.eq, h.eq, h.ofNat, Nat.cast_zero, hroot, not_or] at htest
      have hroot' : val (Scalar.hypotenuse (q.x - p.x) (q.y - p.y)) ≠ 0 := hroot ▸ htest.2
      simp only [fromMiddle, toward, h.add, h.sub, h.mul, h.div _ _ htwo', h.div _ _ hroot', htwo,
        hroot]
      refine Prod.ext ?_ ?_ <;> simp only <;> ring

/-- Without an offset, or on a segment without length, the point beside it is its middle. -/
theorem fromMiddle_eq_zero (h : Scalar.Exact val) (hdiagonal : ExactDiagonal val) {offset : α}
    {p q : Point α} (hzero : toward val p q = 0 ∨ val offset = 0) :
    fromMiddle val p q (beside offset p q) = 0 := by
  rw [fromMiddle_beside h hdiagonal offset (isLength_hypotenuse h hdiagonal p q)]
  rcases hzero with hzero | hzero <;> rw [hzero] <;> simp

/-- The points of an offset and of its negative mirror each other. -/
theorem fromMiddle_neg (h : Scalar.Exact val) (hdiagonal : ExactDiagonal val) (offset : α)
    (p q : Point α) : fromMiddle val p q (beside (-offset) p q) =
      -fromMiddle val p q (beside offset p q) := by
  have hlength := isLength_hypotenuse h hdiagonal p q
  rw [fromMiddle_beside h hdiagonal _ hlength, fromMiddle_beside h hdiagonal _ hlength, h.neg]
  refine Prod.ext ?_ ?_ <;> simp only [Prod.neg_mk] <;> ring

/-- Beside a segment that has a direction, the point is where its offset says. -/
theorem beside_spec (h : Scalar.Exact val) (hdiagonal : ExactDiagonal val) (offset : α)
    {p q : Point α} (hdirection : toward val p q ≠ 0) :
    Beside val p q (val offset) (beside offset p q) := by
  have hlength := isLength_hypotenuse h hdiagonal p q
  have hmoved := fromMiddle_beside h hdiagonal offset hlength
  generalize val (Scalar.hypotenuse (q.x - p.x) (q.y - p.y)) = length at hlength hmoved
  have hne : length ≠ 0 := mt hlength.eq_zero_iff.mp hdirection
  have hpos : 0 < length := lt_of_le_of_ne hlength.nonneg hne.symm
  have hsq : (toward val p q).1 ^ 2 + (toward val p q).2 ^ 2 = length ^ 2 := by
    rw [hlength.sq, dot, sq, sq]
  have hcross : cross (toward val p q) (fromMiddle val p q (beside offset p q)) =
      val offset * length := by
    calc cross (toward val p q) (fromMiddle val p q (beside offset p q))
        = val offset * ((toward val p q).1 ^ 2 + (toward val p q).2 ^ 2) / length := by
          rw [hmoved, cross]
          ring
      _ = val offset * length := by
          rw [hsq]
          field_simp
  refine ⟨?_, ⟨abs_nonneg _, ?_⟩, ?_, ?_, ?_⟩
  · rw [hmoved, dot]
    ring
  · calc |val offset| ^ 2 = val offset ^ 2 * length ^ 2 / length ^ 2 := by
          rw [sq_abs]
          field_simp
      _ = val offset ^ 2 * ((toward val p q).1 ^ 2 + (toward val p q).2 ^ 2) / length ^ 2 := by
          rw [hsq]
      _ = dot (fromMiddle val p q (beside offset p q)) (fromMiddle val p q (beside offset p q)) := by
          rw [hmoved, dot]
          ring
  · exact ⟨length, hlength, hcross⟩
  · rw [hcross, mul_pos_iff_of_pos_right hpos]
  · rw [hcross, ← neg_pos, ← neg_mul, mul_pos_iff_of_pos_right hpos, neg_pos]

/-! ### The sample -/

/-- **A sample** is taken, at every ratio, on a segment of the line, which is not before that of a
smaller ratio.  With an offset it lies beside that segment, on the right if the offset is positive and
on the left if it is negative, and the two sides mirror each other. -/
theorem sample_beside (h : Scalar.Exact val) (hdiagonal : ExactDiagonal val) (htwo : 2 ≤ l.length) :
    (∀ ratio, ∃ i p q, segmentAt l.length ratio = .ok i ∧ i ≤ l.length - 2 ∧
        l[i]? = some p ∧ l[i + 1]? = some q ∧
        ∀ offset, ∃ r r', l.sample ratio offset = .ok r ∧ l.sample ratio (-offset) = .ok r' ∧
          Flanks val p q (val offset) r r') ∧
      ∀ ratio ratio' i j, val ratio ≤ val ratio' → segmentAt l.length ratio = .ok i →
        segmentAt l.length ratio' = .ok j → i ≤ j := by
  refine ⟨fun ratio => ?_, fun ratio ratio' i j => segmentAt_mono h⟩
  obtain ⟨i, hi, hle⟩ := segmentAt_ok h l.length ratio
  obtain ⟨p, q, hp, hq, hsample⟩ := sample_eq_beside htwo hi
  refine ⟨i, p, q, hi, hle, hp, hq, fun offset => ⟨_, _, hsample offset, hsample (-offset), ?_⟩⟩
  refine ⟨fun hdirection => ⟨beside_spec h hdiagonal offset hdirection, ?_⟩,
    fromMiddle_eq_zero h hdiagonal, fromMiddle_neg h hdiagonal offset p q⟩
  rw [← h.neg]
  exact beside_spec h hdiagonal (-offset) hdirection

/-! ### Real numbers -/

noncomputable instance : Scalar ℝ where
  ofNat n := n
  ofNumber
    | .whole n => .ok n
    | .binary x =>
      match Number.Binary.ofFloat? x with
      | some b => .ok b.toRat
      | none => .error .wholeOfInfinity
  lt a b := decide (a < b)
  eq a b := decide (a = b)
  truncate x := .ok (if 0 ≤ x then ⌊x⌋ else ⌈x⌉)
  hypotenuse a b := √(a ^ 2 + b ^ 2)
  twoPow
    | .whole n => .ok (2 ^ n)
    | .binary x =>
      match Number.Binary.ofFloat? x with
      | some b => .ok ((2 : ℝ) ^ (b.toRat : ℝ))
      | none => .error .wholeOfInfinity

noncomputable instance : Mercator ℝ where
  limit := 85.0511287798066
  depth lat :=
    let r := lat * (Real.pi / 180)
    (1 - Real.log (Real.tan r + 1 / Real.cos r) / Real.pi) / 2
  latitude y := .ok (Real.arctan (Real.sinh (Real.pi * (1 - 2 * y))) * (180 / Real.pi))

theorem wholePart_real (x : ℝ) : WholePart x (if 0 ≤ x then ⌊x⌋ else ⌈x⌉) := by
  constructor
  · intro hx
    rw [if_pos hx]
    exact ⟨Int.floor_le x, Int.lt_floor_add_one x⟩
  · intro hx
    rcases hx.lt_or_eq with hneg | rfl
    · rw [if_neg (not_le.mpr hneg)]
      exact ⟨sub_lt_iff_lt_add.mpr (Int.ceil_lt_add_one x), Int.le_ceil x⟩
    · simp

/-- Real numbers are exact. -/
theorem exact_real : Scalar.Exact (id : ℝ → ℝ) where
  injective := Function.injective_id
  add _ _ := rfl
  sub _ _ := rfl
  mul _ _ := rfl
  neg _ := rfl
  div _ _ _ := rfl
  ofNat _ := rfl
  ofWhole n := ⟨n, rfl, rfl⟩
  lt _ _ := decide_eq_true_iff
  eq _ _ := decide_eq_true_iff
  truncate x := ⟨_, rfl, wholePart_real x⟩
  twoPow n := ⟨_, rfl, zpow_natCast 2 n⟩

/-- The diagonal of a rectangle is the root of the sum of its squared sides. -/
theorem hypotenuse_real (a b : ℝ) :
    0 ≤ Scalar.hypotenuse a b ∧ Scalar.hypotenuse a b ^ 2 = a ^ 2 + b ^ 2 :=
  ⟨Real.sqrt_nonneg _, Real.sq_sqrt (by positivity)⟩

theorem exactDiagonal_real : ExactDiagonal (id : ℝ → ℝ) := fun a b =>
  ⟨(hypotenuse_real a b).1, (hypotenuse_real a b).2.trans (by simp only [dot, id]; ring)⟩

/-- A line across the axes, with a segment without length behind it. -/
noncomputable def oblique : Line ℝ := [⟨0, 0, none⟩, ⟨6, 8, none⟩, ⟨6, 8, none⟩]

theorem segmentAt_oblique : segmentAt oblique.length (0 : ℝ) = .ok 0 ∧
    segmentAt oblique.length (1 : ℝ) = .ok 1 := by
  simp [segmentAt, Scalar.truncate, Scalar.ofNat, Mercator.clampIndex, oblique, bind, Except.bind,
    pure, Except.pure]

/-- Going southeast, the right is in the southwest; the segment without length has no sides. -/
theorem sample_oblique : 2 ≤ oblique.length ∧
    (∃ r r', oblique.sample 0 5 = .ok r ∧ oblique.sample 0 (-5) = .ok r' ∧
      (r.x = -1 ∧ r.y = 7) ∧ r'.x = 7 ∧ r'.y = 1) ∧
    ∃ r, oblique.sample 1 5 = .ok r ∧ r.x = 6 ∧ r.y = 8 := by
  have htwo : 2 ≤ oblique.length := by decide
  obtain ⟨hall, -⟩ := sample_beside exact_real exactDiagonal_real htwo
  refine ⟨htwo, ?_, ?_⟩
  · obtain ⟨i, p, q, hi, -, hp, hq, hsample⟩ := hall 0
    cases segmentAt_oblique.1.symm.trans hi
    cases hp
    cases hq
    obtain ⟨r, r', hr, hr', hflanks⟩ := hsample 5
    refine ⟨r, r', hr, hr', ?_⟩
    have hlength : IsLength (toward id (⟨0, 0, none⟩ : Point ℝ) ⟨6, 8, none⟩) 10 := by
      constructor <;> norm_num [toward, dot]
    obtain ⟨hright, -⟩ := hflanks.beside (by norm_num [toward, Prod.ext_iff])
    have hangle := hright.perpendicular
    obtain ⟨length, hlength', hturn⟩ := hright.cross_eq
    obtain rfl := hlength'.unique hlength
    have hmirrored := hflanks.mirrored
    simp only [dot, cross, toward, fromMiddle, id, Prod.neg_mk, Prod.mk.injEq]
      at hangle hturn hmirrored
    refine ⟨⟨?_, ?_⟩, ?_, ?_⟩ <;> linarith [hmirrored.1, hmirrored.2]
  · obtain ⟨i, p, q, hi, -, hp, hq, hsample⟩ := hall 1
    cases segmentAt_oblique.2.symm.trans hi
    cases hp
    cases hq
    obtain ⟨r, _, hr, -, hflanks⟩ := hsample 5
    refine ⟨r, hr, ?_⟩
    have hmiddle := hflanks.middle (.inl (by simp [toward]))
    simp only [fromMiddle, id, Prod.mk_eq_zero] at hmiddle
    constructor <;> linarith [hmiddle.1, hmiddle.2]

end Bordering
end BorderTiles
