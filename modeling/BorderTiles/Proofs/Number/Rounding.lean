import BorderTiles.Document.Reading
import Mathlib.Algebra.Order.Field.Power
import Mathlib.Data.Rat.Floor
import Mathlib.Tactic.FieldSimp
import Mathlib.Tactic.Linarith
import Mathlib.Tactic.Positivity
import Mathlib.Tactic.Ring

/-!
# Number — rounding

A binary number as a fraction, and what rounding does to it.

* `toRat_eq`, `floor_eq`: the value of a number is its magnitude with its sign, and its floor the floor
  of that.
* `Rounds q b`: `b` is a number next to `q`, on the grid of its binade.  `rounds_round`: rounding a
  quotient gives one.  Whole numbers are on every grid in question, so rounding does not pass them
  (`Rounds.le_magnitude`).
* `fits_of_extendedOf?`: what is read from a text is on the grid of the format.  To such a number a
  half can be added without reaching a whole number that is above (`Rounds.magnitude_lt`), except
  below one: so the whole part is the exact one (`floor_plusHalf`).
-/

namespace BorderTiles.Number

namespace Binary

/-- The absolute value. -/
def magnitude (b : Binary) : ℚ := b.mantissa * 2 ^ b.exponent

theorem magnitude_nonneg (b : Binary) : 0 ≤ b.magnitude :=
  mul_nonneg (Nat.cast_nonneg _) (by positivity)

theorem ratio_pos (b : Binary) : 0 < b.ratio.2 := by
  rw [ratio]
  split
  · exact Nat.one_pos
  · exact Nat.pow_pos Nat.two_pos

theorem ratio_eq (b : Binary) : (b.ratio.1 : ℚ) / b.ratio.2 = b.magnitude := by
  rw [ratio, magnitude]
  split
  · next e he =>
      rw [he, Nat.pow_eq, Nat.cast_mul, Nat.cast_pow, Nat.cast_one, div_one]
      exact congrArg _ (zpow_natCast 2 e).symm
  · next e he =>
      rw [he, zpow_negSucc, div_eq_mul_inv, Nat.pow_eq, Nat.cast_pow]
      rfl

/-- **The value of a number** is its magnitude with its sign. -/
theorem toRat_eq (b : Binary) : b.toRat = if b.negative then -b.magnitude else b.magnitude := by
  rw [← ratio_eq]
  simp only [toRat, Rat.mkRat_eq_div]
  push_cast
  rfl

/-- **The floor of a number** is that of its value. -/
theorem floor_eq (b : Binary) : b.floor = ⌊b.toRat⌋ := by
  have hvalue : b.toRat =
      (((if b.negative then -(b.ratio.1 : ℤ) else b.ratio.1) : ℤ) : ℚ) / (b.ratio.2 : ℕ) := by
    rw [toRat_eq, ← ratio_eq]
    split
    · push_cast
      rw [neg_div]
    · push_cast
      rfl
  rw [hvalue, Rat.floor_intCast_div_natCast]
  rfl

/-! ### Rounding -/

/-- A number next to `q`: no further than half a step of its exponent, which is the least one or that of
the binade of `q`. -/
structure Rounds (q : ℚ) (b : Binary) : Prop where
  least : -1074 ≤ b.exponent
  mantissa_le : b.mantissa ≤ 2 ^ 53
  fine : b.exponent = -1074 ∨ 2 ^ (b.exponent + 52) ≤ q
  close : |b.magnitude - q| ≤ 2 ^ b.exponent / 2

/-- Rounding a quotient of scaled whole numbers. -/
theorem rounds_of_scaled {q : ℚ} {n d : ℕ} {e : ℤ} (negative : Bool) (hd : 0 < d)
    (hscaled : (n : ℚ) / d = q / 2 ^ e) (hleast : -1074 ≤ e) (hfine : e = -1074 ∨ 2 ^ (e + 52) ≤ q)
    (hbelow : q < 2 ^ (e + 53)) : Rounds q ⟨negative, roundDiv n d, e⟩ := by
  have hpow : (0 : ℚ) < 2 ^ e := by positivity
  have hd' : (0 : ℚ) < d := Nat.cast_pos.mpr hd
  obtain ⟨hlow, hhigh⟩ := roundDiv_spec n d hd
  have hlow' : (2 * (roundDiv n d * d) : ℚ) ≤ 2 * n + d := by exact_mod_cast hlow
  have hhigh' : (2 * n : ℚ) ≤ 2 * (roundDiv n d * d) + d := by exact_mod_cast hhigh
  have hq : q = n / d * 2 ^ e := by rw [hscaled, div_mul_cancel₀ _ hpow.ne']
  have hhalf : |(roundDiv n d : ℚ) - n / d| ≤ 1 / 2 := by
    rw [abs_le]
    constructor
    · have : (n : ℚ) / d ≤ roundDiv n d + 1 / 2 := by
        rw [div_le_iff₀ hd']
        linarith
      linarith
    · have : (roundDiv n d : ℚ) - 1 / 2 ≤ n / d := by
        rw [le_div_iff₀ hd']
        linarith
      linarith
  refine ⟨hleast, ?_, hfine, ?_⟩
  · have hquotient : (n : ℚ) / d < 2 ^ 53 := by
      rw [hscaled, div_lt_iff₀ hpow, ← zpow_natCast, ← zpow_add₀ two_ne_zero, add_comm]
      exact hbelow
    have hmantissa : (roundDiv n d : ℚ) < 2 ^ 53 + 1 := by
      have := (abs_le.mp hhalf).2
      linarith
    have : roundDiv n d < 2 ^ 53 + 1 := by exact_mod_cast hmantissa
    exact Nat.lt_succ_iff.mp this
  · calc |(roundDiv n d : ℚ) * 2 ^ e - q| = |(roundDiv n d : ℚ) - n / d| * 2 ^ e := by
          rw [hq, ← sub_mul, abs_mul, abs_of_pos hpow]
      _ ≤ 1 / 2 * 2 ^ e := mul_le_mul_of_nonneg_right hhalf hpow.le
      _ = 2 ^ e / 2 := by ring

/-- Numerator and denominator of `n / d` over a power of two. -/
def scaled (n d : ℕ) : ℤ → ℕ × ℕ
  | .ofNat k => (n, d * Nat.pow 2 k)
  | .negSucc k => (n * Nat.pow 2 (k + 1), d)

/-- The lower one of the two exponents with which `n / d` can have a mantissa of 53 binary digits. -/
def lowest (n d : ℕ) : ℤ := Nat.log2 n - Nat.log2 d - 53

/-- The exponent with which it has one. -/
def binade (n d : ℕ) : ℤ :=
  if (scaled n d (lowest n d)).1 / (scaled n d (lowest n d)).2 < Nat.pow 2 53 then lowest n d
  else lowest n d + 1

theorem round_eq (negative : Bool) {n d : ℕ} (hn : n ≠ 0) (hd : 0 < d) :
    round negative n d = ⟨negative, roundDiv (scaled n d (max (binade n d) (-1074))).1
      (scaled n d (max (binade n d) (-1074))).2, max (binade n d) (-1074)⟩ := by
  have hmax : max d 1 = d := max_eq_left hd
  rw [round, if_neg hn, hmax]
  rfl

variable {n d : ℕ}

theorem scaled_pos (n : ℕ) (hd : 0 < d) (e : ℤ) : 0 < (scaled n d e).2 := by
  cases e with
  | ofNat k => exact Nat.mul_pos hd (Nat.pow_pos Nat.two_pos)
  | negSucc k => exact hd

theorem scaled_eq (n d : ℕ) (e : ℤ) :
    ((scaled n d e).1 : ℚ) / (scaled n d e).2 = n / d / 2 ^ e := by
  cases e with
  | ofNat k =>
      rw [scaled, Nat.pow_eq, Nat.cast_mul, Nat.cast_pow, div_div]
      exact congrArg (fun p : ℚ => n / (d * p)) (zpow_natCast 2 k).symm
  | negSucc k =>
      rw [scaled, Nat.pow_eq, Nat.cast_mul, Nat.cast_pow, zpow_negSucc, div_inv_eq_mul, mul_div_right_comm]
      rfl

/-- A number lies between the powers of two around its logarithm. -/
theorem log2_bounds (hn : n ≠ 0) :
    (2 : ℚ) ^ (Nat.log2 n : ℤ) ≤ n ∧ (n : ℚ) < 2 ^ ((Nat.log2 n : ℤ) + 1) := by
  constructor
  · rw [zpow_natCast]
    exact_mod_cast Nat.log2_self_le hn
  · have h : (n : ℚ) < 2 ^ (Nat.log2 n + 1) := by exact_mod_cast Nat.lt_log2_self
    exact_mod_cast h

/-- A quotient lies in one of two binades. -/
theorem lowest_bounds (hn : n ≠ 0) (hd : 0 < d) :
    (2 : ℚ) ^ (lowest n d + 52) ≤ n / d ∧ (n / d : ℚ) < 2 ^ (lowest n d + 54) := by
  have hd' : (0 : ℚ) < d := Nat.cast_pos.mpr hd
  obtain ⟨hnlow, hnhigh⟩ := log2_bounds hn
  obtain ⟨hdlow, hdhigh⟩ := log2_bounds hd.ne'
  constructor
  · rw [le_div_iff₀ hd']
    calc (2 : ℚ) ^ (lowest n d + 52) * d
        ≤ 2 ^ (lowest n d + 52) * 2 ^ ((Nat.log2 d : ℤ) + 1) :=
          mul_le_mul_of_nonneg_left hdhigh.le (by positivity)
      _ = 2 ^ (Nat.log2 n : ℤ) := by
          rw [← zpow_add₀ two_ne_zero, lowest]
          congr 1
          ring
      _ ≤ n := hnlow
  · rw [div_lt_iff₀ hd']
    calc (n : ℚ) < 2 ^ ((Nat.log2 n : ℤ) + 1) := hnhigh
      _ = 2 ^ (lowest n d + 54) * 2 ^ (Nat.log2 d : ℤ) := by
          rw [← zpow_add₀ two_ne_zero, lowest]
          congr 1
          ring
      _ ≤ 2 ^ (lowest n d + 54) * d := mul_le_mul_of_nonneg_left hdlow (by positivity)

/-- The whole part of a scaled quotient has 53 binary digits at most if the quotient is below a power of
two. -/
theorem scaled_div_lt (n : ℕ) (hd : 0 < d) (e : ℤ) :
    (scaled n d e).1 / (scaled n d e).2 < Nat.pow 2 53 ↔ (n / d : ℚ) < 2 ^ (e + 53) := by
  have hscaled : (0 : ℚ) < (scaled n d e).2 := Nat.cast_pos.mpr (scaled_pos n hd e)
  have hpow : (2 : ℚ) ^ (e + 53) = ((Nat.pow 2 53 : ℕ) : ℚ) * 2 ^ e := by
    rw [zpow_add₀ two_ne_zero, mul_comm, Nat.pow_eq]
    norm_num
  rw [Nat.div_lt_iff_lt_mul (scaled_pos n hd e), hpow, ← div_lt_iff₀ (by positivity), ← scaled_eq,
    div_lt_iff₀ hscaled, ← Nat.cast_mul, Nat.cast_lt]

/-- The binade of a quotient. -/
theorem binade_bounds (hn : n ≠ 0) (hd : 0 < d) :
    (2 : ℚ) ^ (binade n d + 52) ≤ n / d ∧ (n / d : ℚ) < 2 ^ (binade n d + 53) := by
  obtain ⟨hlow, hhigh⟩ := lowest_bounds hn hd
  rw [binade]
  split
  · next h => exact ⟨hlow, (scaled_div_lt n hd _).mp h⟩
  · next h =>
      rw [scaled_div_lt n hd, not_lt] at h
      exact ⟨by rwa [add_assoc], by rwa [add_assoc]⟩

/-- **Rounding a quotient** gives a number next to it. -/
theorem rounds_round (negative : Bool) (n : ℕ) {d : ℕ} (hd : 0 < d) :
    Rounds (n / d) (round negative n d) := by
  by_cases hn : n = 0
  · subst hn
    rw [round, if_pos rfl]
    refine ⟨le_refl _, Nat.zero_le _, .inl rfl, ?_⟩
    simp only [magnitude, Nat.cast_zero, zero_mul, zero_div, sub_zero, abs_zero]
    positivity
  · obtain ⟨hlow, hhigh⟩ := binade_bounds hn hd
    rw [round_eq negative hn hd]
    refine rounds_of_scaled negative (scaled_pos n hd _) (scaled_eq n d _) (le_max_right _ _) ?_ ?_
    · rcases le_total (-1074) (binade n d) with hmax | hmax
      · rw [max_eq_left hmax]
        exact .inr hlow
      · exact .inl (max_eq_right hmax)
    · refine hhigh.trans_le (zpow_le_zpow_right₀ one_le_two ?_)
      exact Int.add_le_add_right (le_max_left _ _) 53

/-! ### Whole numbers -/

/-- With a negative exponent, one is a whole number of steps. -/
theorem exists_steps {e : ℤ} (he : e ≤ 0) : ∃ k : ℤ, (k : ℚ) * 2 ^ e = 1 := by
  refine ⟨2 ^ (-e).toNat, ?_⟩
  rw [Int.cast_pow, Int.cast_ofNat, ← zpow_natCast, Int.toNat_of_nonneg (neg_nonneg.mpr he),
    ← zpow_add₀ two_ne_zero, neg_add_cancel, zpow_zero]

/-- Two values on a grid are a step apart. -/
theorem add_step_le {z w e : ℤ} (h : (z : ℚ) * 2 ^ e < w * 2 ^ e) :
    (z : ℚ) * 2 ^ e + 2 ^ e ≤ w * 2 ^ e := by
  have hpow : (0 : ℚ) < 2 ^ e := by positivity
  have hlt : z < w := by exact_mod_cast (mul_lt_mul_iff_left₀ hpow).mp h
  have hle : ((z + 1 : ℤ) : ℚ) ≤ w := Int.cast_le.mpr hlt
  calc (z : ℚ) * 2 ^ e + 2 ^ e = ((z + 1 : ℤ) : ℚ) * 2 ^ e := by push_cast; ring
    _ ≤ w * 2 ^ e := mul_le_mul_of_nonneg_right hle hpow.le

variable {q : ℚ} {b : Binary} {N : ℕ}

/-- **Rounding does not pass a whole number** on the way down. -/
theorem Rounds.le_magnitude (h : Rounds q b) (hN : N ≤ 2 ^ 52) (hq : (N : ℚ) ≤ q) :
    (N : ℚ) ≤ b.magnitude := by
  have hpow : (0 : ℚ) < 2 ^ b.exponent := by positivity
  have hclose : q ≤ b.mantissa * 2 ^ b.exponent + 2 ^ b.exponent / 2 := by
    have := (abs_le.mp h.close).1
    rw [magnitude] at this
    linarith
  rw [magnitude]
  rcases le_or_gt 0 b.exponent with he | he
  · -- the number is at least the least one of its binade, and that is large
    have hfine : (2 : ℚ) ^ (b.exponent + 52) ≤ q := h.fine.resolve_left (by omega)
    have hmantissa : (2 : ℚ) ^ 52 < b.mantissa + 1 := by
      rw [zpow_add₀ two_ne_zero] at hfine
      by_contra hle
      rw [not_lt] at hle
      have hmul := mul_le_mul_of_nonneg_right hle hpow.le
      have hfine' : (2 : ℚ) ^ 52 * 2 ^ b.exponent ≤ q := by
        rw [mul_comm]
        exact_mod_cast hfine
      linarith
    have hmantissa' : 2 ^ 52 ≤ b.mantissa := Nat.lt_succ_iff.mp (by exact_mod_cast hmantissa)
    calc (N : ℚ) ≤ b.mantissa := Nat.cast_le.mpr (hN.trans hmantissa')
      _ = b.mantissa * 1 := (mul_one _).symm
      _ ≤ b.mantissa * 2 ^ b.exponent :=
        mul_le_mul_of_nonneg_left (one_le_zpow₀ one_le_two he) (Nat.cast_nonneg _)
  · -- the whole number is on the grid, so the number would be a step below it
    obtain ⟨k, hk⟩ := exists_steps he.le
    have hgrid : (N : ℚ) = ((N * k : ℤ) : ℚ) * 2 ^ b.exponent := by
      push_cast
      rw [mul_assoc, hk, mul_one]
    by_contra hlt
    rw [not_le, hgrid, ← Int.cast_natCast b.mantissa] at hlt
    have hstep := add_step_le hlt
    rw [← hgrid, Int.cast_natCast] at hstep
    linarith

/-- A number near a small one is small. -/
theorem Rounds.exponent_neg (h : Rounds q b) (hq : q < 2 ^ 52) : b.exponent ≤ -1 := by
  by_contra hlt
  have he : 0 ≤ b.exponent := by omega
  have hfine : (2 : ℚ) ^ (b.exponent + 52) ≤ q := h.fine.resolve_left (by omega)
  have hlarge : (2 : ℚ) ^ (52 : ℤ) ≤ 2 ^ (b.exponent + 52) :=
    zpow_le_zpow_right₀ one_le_two (by omega)
  have : (2 : ℚ) ^ (52 : ℤ) = 2 ^ 52 := by norm_num
  linarith

/-- On a fine grid, a value and a half that is below a whole number is a step below it. -/
theorem gap_of_fine {z e f : ℤ} (hfine : f ≤ e) (hf : f ≤ -1)
    (hlt : (z : ℚ) * 2 ^ e + 1 / 2 < N) : (z : ℚ) * 2 ^ e + 1 / 2 + 2 ^ f ≤ N := by
  obtain ⟨k, hk⟩ := exists_steps (e := f + 1) (by omega)
  have hhalf : (k : ℚ) * 2 ^ f = 1 / 2 := by
    rw [zpow_add₀ two_ne_zero, zpow_one] at hk
    linarith
  have hshift : (2 : ℚ) ^ e = 2 ^ (e - f).toNat * 2 ^ f := by
    rw [← zpow_natCast, Int.toNat_of_nonneg (by omega), ← zpow_add₀ two_ne_zero, sub_add_cancel]
  have hsum : (z : ℚ) * 2 ^ e + 1 / 2 = ((z * 2 ^ (e - f).toNat + k : ℤ) : ℚ) * 2 ^ f := by
    push_cast
    rw [hshift, add_mul, hhalf]
    ring
  have hwhole : (N : ℚ) = ((N * (2 * k) : ℤ) : ℚ) * 2 ^ f := by
    push_cast
    rw [mul_assoc, mul_assoc, hhalf]
    ring
  rw [hsum, hwhole] at hlt ⊢
  exact add_step_le hlt

/-- A value that lies at most at the beginning of the binade that it has reached with a half is a half
below the next whole number. -/
theorem gap_of_coarse {z e f : ℤ} (hz : z ≤ 2 ^ 53) (hcoarse : e < f) (htwo : 2 ≤ N)
    (hbinade : (2 : ℚ) ^ (f + 52) ≤ z * 2 ^ e + 1 / 2) (hlt : (z : ℚ) * 2 ^ e + 1 / 2 < N) :
    (z : ℚ) * 2 ^ e + 1 / 2 + 1 / 2 ≤ N := by
  have htwo' : (2 : ℚ) ≤ N := by exact_mod_cast htwo
  have hvalue : (z : ℚ) * 2 ^ e ≤ 2 ^ (f + 52) := by
    have hz' : (z : ℚ) ≤ 2 ^ (53 : ℤ) := by exact_mod_cast hz
    calc (z : ℚ) * 2 ^ e ≤ 2 ^ (53 : ℤ) * 2 ^ e := mul_le_mul_of_nonneg_right hz' (by positivity)
      _ = 2 ^ (e + 53) := by rw [← zpow_add₀ two_ne_zero, add_comm]
      _ ≤ 2 ^ (f + 52) := zpow_le_zpow_right₀ one_le_two (by omega)
  rcases le_or_gt 0 (f + 52) with hwhole | hsmall
  · -- the binade begins with a whole number
    have hcast : (2 : ℚ) ^ (f + 52) = ((2 ^ (f + 52).toNat : ℕ) : ℚ) := by
      rw [Nat.cast_pow, ← zpow_natCast, Int.toNat_of_nonneg hwhole]
      rfl
    rw [hcast] at hbinade hvalue
    have hbelow : 2 ^ (f + 52).toNat < N := by exact_mod_cast hbinade.trans_lt hlt
    have hbelow' : ((2 ^ (f + 52).toNat : ℕ) : ℚ) + 1 ≤ N := by exact_mod_cast hbelow
    linarith
  · have hone : (2 : ℚ) ^ (f + 52) ≤ 2 ^ (0 : ℤ) := zpow_le_zpow_right₀ one_le_two hsmall.le
    rw [zpow_zero] at hone
    linarith

/-- **Adding a half does not reach a whole number** above, from a value on the grid of the format. -/
theorem Rounds.magnitude_lt {z e : ℤ} (h : Rounds (z * 2 ^ e + 1 / 2) b) (hz : z ≤ 2 ^ 53)
    (he : -1074 ≤ e) (htwo : 2 ≤ N) (hN : N ≤ 2 ^ 52) (hlt : (z : ℚ) * 2 ^ e + 1 / 2 < N) :
    b.magnitude < N := by
  have hN' : (N : ℚ) ≤ 2 ^ 52 := by exact_mod_cast hN
  have hexponent : b.exponent ≤ -1 := h.exponent_neg (hlt.trans_le hN')
  have hpow : (0 : ℚ) < 2 ^ b.exponent := by positivity
  have hhalf : (2 : ℚ) ^ b.exponent ≤ 1 / 2 := by
    calc (2 : ℚ) ^ b.exponent ≤ 2 ^ (-1 : ℤ) := zpow_le_zpow_right₀ one_le_two hexponent
      _ = 1 / 2 := by norm_num
  have hgap : (z : ℚ) * 2 ^ e + 1 / 2 + 2 ^ b.exponent ≤ N := by
    rcases le_or_gt b.exponent e with hfine | hcoarse
    · exact gap_of_fine hfine hexponent hlt
    · have hbinade := h.fine.resolve_left (by omega)
      exact (add_le_add_right hhalf _).trans (gap_of_coarse hz hcoarse htwo hbinade hlt)
  have hclose := (abs_le.mp h.close).2
  linarith

/-! ### A half more -/

/-- A number of the format: its mantissa and its exponent are in range. -/
structure Fits (b : Binary) : Prop where
  mantissa_le : b.mantissa ≤ 2 ^ 53
  least : -1074 ≤ b.exponent

theorem Rounds.fits (h : Rounds q b) : b.Fits := ⟨h.mantissa_le, h.least⟩

/-- The value of a number as a multiple of its step. -/
theorem toRat_eq_mul (b : Binary) :
    b.toRat = ((if b.negative then -(b.mantissa : ℤ) else b.mantissa : ℤ) : ℚ) * 2 ^ b.exponent := by
  rw [toRat_eq, magnitude]
  split
  · push_cast
    rw [neg_mul]
  · rfl

theorem negative_round (negative : Bool) (n d : ℕ) : (round negative n d).negative = negative := by
  rw [round]
  split <;> rfl

/-- A half more is next to the exact sum, on its side of zero. -/
theorem plusHalf_spec (b : Binary) :
    (b.toRat + 1 / 2 < 0 → b.plusHalf.toRat ≤ 0) ∧
      (0 ≤ b.toRat + 1 / 2 → b.plusHalf.toRat = b.plusHalf.magnitude ∧
        Rounds (b.toRat + 1 / 2) b.plusHalf) := by
  have hpos : (0 : ℚ) < b.ratio.2 := Nat.cast_pos.mpr b.ratio_pos
  set sum : ℤ := (if b.negative then -(2 * b.ratio.1 : ℤ) else 2 * b.ratio.1) + b.ratio.2 with hsum
  have hvalue : b.toRat + 1 / 2 = (sum : ℚ) / (2 * b.ratio.2 : ℕ) := by
    rw [toRat_eq, ← ratio_eq, hsum]
    split
    · push_cast
      field_simp
    · push_cast
      field_simp
  have hplus : b.plusHalf = round (decide (sum < 0)) sum.natAbs (2 * b.ratio.2) := rfl
  have hden : 0 < 2 * b.ratio.2 := Nat.mul_pos Nat.two_pos b.ratio_pos
  have hden' : (0 : ℚ) < (2 * b.ratio.2 : ℕ) := Nat.cast_pos.mpr hden
  rw [hvalue]
  constructor
  · intro hneg
    have hsign : sum < 0 := by
      rw [div_neg_iff] at hneg
      rcases hneg with ⟨-, h⟩ | ⟨h, -⟩
      · exact absurd h hden'.le.not_gt
      · exact_mod_cast h
    rw [toRat_eq, hplus, negative_round, decide_eq_true hsign, if_pos rfl]
    exact neg_nonpos.mpr (magnitude_nonneg _)
  · intro hnonneg
    have hsign : 0 ≤ sum := by
      rw [le_div_iff₀ hden', zero_mul] at hnonneg
      exact_mod_cast hnonneg
    have habs : ((sum.natAbs : ℕ) : ℚ) = sum := by
      rw [← Int.cast_natCast, Int.natAbs_of_nonneg hsign]
    rw [toRat_eq, hplus, negative_round, decide_eq_false hsign.not_gt, ← habs]
    exact ⟨rfl, rounds_round _ _ hden⟩

/-- **The whole part of a number and a half** reaches what the exact sum reaches, from two on. -/
theorem le_floor_plusHalf (hb : b.Fits) (htwo : 2 ≤ N) (hN : N ≤ 2 ^ 52) :
    (N : ℤ) ≤ b.plusHalf.floor ↔ (N : ℚ) ≤ b.toRat + 1 / 2 := by
  have htwo' : (2 : ℚ) ≤ N := by exact_mod_cast htwo
  obtain ⟨hbelow, habove⟩ := b.plusHalf_spec
  rw [floor_eq, Int.le_floor, Int.cast_natCast]
  rcases lt_or_ge (b.toRat + 1 / 2) 0 with hneg | hnonneg
  · have hzero := hbelow hneg
    constructor <;> intro <;> linarith
  · obtain ⟨hvalue, hrounds⟩ := habove hnonneg
    rw [hvalue]
    constructor
    · intro hle
      by_contra hlt
      rw [not_le] at hlt
      rw [toRat_eq_mul] at hrounds hlt
      have hmantissa : (if b.negative then -(b.mantissa : ℤ) else b.mantissa) ≤ 2 ^ 53 := by
        have := hb.mantissa_le
        split <;> omega
      exact (hrounds.magnitude_lt hmantissa hb.least htwo hN hlt).not_ge hle
    · exact hrounds.le_magnitude hN

/-- The whole part of a number and a half is the exact one. -/
theorem floor_plusHalf (hb : b.Fits) (hlow : 3 / 2 ≤ b.toRat) (hhigh : b.toRat + 1 / 2 < 2 ^ 52) :
    b.plusHalf.floor = ⌊b.toRat + 1 / 2⌋ := by
  have htwo : (2 : ℤ) ≤ ⌊b.toRat + 1 / 2⌋ := Int.le_floor.mpr (by push_cast; linarith)
  have hlarge : ⌊b.toRat + 1 / 2⌋ < 2 ^ 52 := Int.floor_lt.mpr (by push_cast; exact hhigh)
  obtain ⟨N, hN⟩ : ∃ N : ℕ, ⌊b.toRat + 1 / 2⌋ = N := ⟨_, (Int.toNat_of_nonneg (by omega)).symm⟩
  rw [hN] at htwo hlarge ⊢
  have hle : (N : ℤ) ≤ b.plusHalf.floor := by
    rw [le_floor_plusHalf hb (by omega) (by omega)]
    exact_mod_cast Int.le_floor.mp hN.ge
  have hlt : ¬ ((N + 1 : ℕ) : ℤ) ≤ b.plusHalf.floor := by
    rw [le_floor_plusHalf hb (by omega) (by omega), not_le]
    exact_mod_cast Int.floor_lt.mp (hN.trans_lt (Int.lt_succ N))
  omega

end Binary

/-! ### Numbers from text -/

theorem finite?_ofBinary {b c : Binary} (h : (Extended.ofBinary b).finite? = some c) : c = b := by
  rw [Extended.ofBinary] at h
  split at h
  · cases h
  · exact (Option.some.inj h).symm

theorem fits_of_ofDecimal {negative : Bool} {digits : ℕ} {exponent : ℤ} {b : Binary}
    (h : (ofDecimal negative digits exponent).finite? = some b) : b.Fits := by
  simp only [ofDecimal] at h
  split at h
  · cases h
    exact ⟨Nat.zero_le _, le_refl _⟩
  · split at h
    · cases h
    · rw [finite?_ofBinary h]
      split
      · exact (Binary.rounds_round _ _ Nat.one_pos).fits
      · exact (Binary.rounds_round _ _ (Nat.pow_pos (by decide))).fits

theorem ofDecimal_of_decimalOf? {negative : Bool} {s : List Char} {x : Extended}
    (h : decimalOf? negative s = some x) : ∃ digits exponent, x = ofDecimal negative digits exponent := by
  rw [decimalOf?] at h
  dsimp only at h
  -- with or without a point
  split at h
  all_goals
    split at h
    · cases h
    · obtain ⟨e, -, rfl⟩ := Option.map_eq_some_iff.mp h
      exact ⟨_, _, rfl⟩

/-- A text names an infinity or NaN, or it writes a decimal. -/
theorem extendedOf?_cases {text : String} {x : Extended} (h : extendedOf? text = some x) :
    x = .nan ∨ (∃ negative, x = .infinite negative) ∨
      ∃ negative digits exponent, x = ofDecimal negative digits exponent := by
  simp only [extendedOf?] at h
  split at h
  · cases h
    exact .inl rfl
  split at h
  · cases h
    exact .inr (.inl ⟨_, rfl⟩)
  split at h
  · exact .inr (.inr ⟨_, ofDecimal_of_decimalOf? h⟩)
  · cases h

/-- **What is read from a text** is a number of the format. -/
theorem fits_of_extendedOf? {text : String} {b : Binary}
    (h : (extendedOf? text).bind Extended.finite? = some b) : b.Fits := by
  obtain ⟨x, hx, hb⟩ := Option.bind_eq_some_iff.mp h
  obtain rfl | ⟨negative, rfl⟩ | ⟨negative, digits, exponent, rfl⟩ := extendedOf?_cases hx
  · cases hb
  · cases hb
  · exact fits_of_ofDecimal hb

end BorderTiles.Number
