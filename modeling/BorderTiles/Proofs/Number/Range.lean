import BorderTiles.Proofs.Number.Rounding

/-!
# Number — the range of binary numbers

Which whole numbers have a binary number next to them.

* `isBeyond_iff`: a number is beyond the largest finite one if its magnitude reaches `2 ^ 1024`.
* `le_roundDiv_of_even`: a quotient half way to an even number is rounded to it.
* `isBeyond_round`: so whole numbers are beyond from the middle between the largest finite number and
  `2 ^ 1024` on, which itself goes to the even mantissa and up.
-/

namespace BorderTiles.Number

/-- The least whole number without a binary number: `2 ^ 1024` less half a step. -/
def threshold : ℕ := 2 ^ 1024 - 2 ^ 970

/-- A quotient rounded down from the middle between two numbers is rounded to an even one. -/
theorem roundDiv_of_tie {n d : ℕ} (hd : 0 < d) (htie : 2 * n = 2 * (roundDiv n d * d) + d) :
    roundDiv n d % 2 = 0 := by
  have hn := Nat.div_add_mod n d
  have hr := Nat.mod_lt n hd
  have hcomm : n / d * d = d * (n / d) := Nat.mul_comm _ _
  unfold roundDiv at htie ⊢
  simp only at htie ⊢
  split at htie
  · omega
  · split at htie
    · rw [Nat.add_mul] at htie
      omega
    · split at htie
      · next hlow hhigh heven => rw [if_neg hlow, if_neg hhigh, if_pos heven, heven]
      · rw [Nat.add_mul] at htie
        omega

/-- A quotient is rounded up to an even number from half a unit below it on. -/
theorem le_roundDiv_of_even {n d K : ℕ} (hd : 0 < d) (hK : K % 2 = 0) :
    K ≤ roundDiv n d ↔ 2 * (K * d) ≤ 2 * n + d := by
  obtain ⟨hlow, hhigh⟩ := roundDiv_spec n d hd
  constructor
  · intro hle
    have := Nat.mul_le_mul_right d hle
    omega
  · intro hle
    by_contra hlt
    -- only the tie below an even number is left, and that goes to the even number
    obtain ⟨j, hj⟩ : ∃ j, K = roundDiv n d + 1 + j := ⟨K - (roundDiv n d + 1), by omega⟩
    have hmul : K * d = roundDiv n d * d + d + j * d := by
      rw [hj]
      ring
    have hj0 : j = 0 := by
      by_contra hne
      have := Nat.le_mul_of_pos_left d (Nat.pos_of_ne_zero hne)
      omega
    subst hj0
    have htie := roundDiv_of_tie hd (n := n) (by omega)
    omega

namespace Binary

/-- A number is beyond the largest finite one if its magnitude is. -/
theorem isBeyond_iff (b : Binary) : b.isBeyond = true ↔ (2 : ℚ) ^ (1024 : ℤ) ≤ b.magnitude := by
  rw [isBeyond, Bool.and_eq_true, decide_eq_true_iff, decide_eq_true_iff]
  by_cases hzero : b.mantissa = 0
  · simp [hzero, magnitude]
  · obtain ⟨hlow, hhigh⟩ := log2_bounds hzero
    have hpow : (0 : ℚ) < 2 ^ b.exponent := by positivity
    simp only [ne_eq, hzero, not_false_eq_true, true_and]
    rw [magnitude]
    constructor
    · intro hle
      calc (2 : ℚ) ^ (1024 : ℤ) ≤ 2 ^ (b.exponent + Nat.log2 b.mantissa) :=
            zpow_le_zpow_right₀ one_le_two hle
        _ = 2 ^ (Nat.log2 b.mantissa : ℤ) * 2 ^ b.exponent := by
            rw [add_comm, zpow_add₀ two_ne_zero]
        _ ≤ b.mantissa * 2 ^ b.exponent := mul_le_mul_of_nonneg_right hlow hpow.le
    · intro hle
      by_contra hlt
      have hsmall : (b.mantissa : ℚ) * 2 ^ b.exponent < 2 ^ (1024 : ℤ) := by
        calc (b.mantissa : ℚ) * 2 ^ b.exponent
            < 2 ^ ((Nat.log2 b.mantissa : ℤ) + 1) * 2 ^ b.exponent :=
              mul_lt_mul_of_pos_right hhigh hpow
          _ = 2 ^ ((Nat.log2 b.mantissa : ℤ) + 1 + b.exponent) := (zpow_add₀ two_ne_zero _ _).symm
          _ ≤ 2 ^ (1024 : ℤ) := zpow_le_zpow_right₀ one_le_two (by omega)
      exact hsmall.not_ge hle

/-- The threshold in half steps of the largest binade. -/
theorem threshold_eq : threshold = (2 ^ 54 - 1) * 2 ^ 970 := by
  rw [threshold, Nat.sub_mul, ← pow_add, one_mul]

/-- Rounding a whole number in a binade of whole steps. -/
theorem round_of_binade (negative : Bool) {n k : ℕ} (hn : n ≠ 0) (hk : binade n 1 = k) :
    round negative n 1 = ⟨negative, roundDiv n (2 ^ k), k⟩ := by
  have hmax : max (binade n 1) (-1074) = Int.ofNat k := by
    rw [hk]
    exact max_eq_left (by omega)
  rw [round_eq negative hn Nat.one_pos, hmax, scaled, Nat.one_mul, Nat.pow_eq]
  rfl

/-- With whole steps, a number reaches a power of two times its step if its mantissa does. -/
theorem le_magnitude_iff (negative : Bool) (m k K : ℕ) :
    (2 : ℚ) ^ ((K + k : ℕ) : ℤ) ≤ magnitude ⟨negative, m, k⟩ ↔ 2 ^ K ≤ m := by
  have hpow : (0 : ℚ) < 2 ^ k := by positivity
  rw [magnitude, zpow_natCast, zpow_natCast, pow_add, mul_le_mul_iff_left₀ hpow]
  exact_mod_cast Iff.rfl

/-- What is rounded from below the largest binade is not beyond the largest finite number. -/
theorem Rounds.magnitude_lt_of_small {q : ℚ} {b : Binary} (h : Rounds q b)
    (hq : q < 2 ^ (1023 : ℤ)) : b.magnitude < 2 ^ (1024 : ℤ) := by
  have hexponent : b.exponent ≤ 970 := by
    rcases h.fine with hleast | hfine
    · omega
    · have := (zpow_lt_zpow_iff_right₀ one_lt_two).mp (hfine.trans_lt hq)
      omega
  have hmantissa : (b.mantissa : ℚ) ≤ 2 ^ (53 : ℤ) := by exact_mod_cast h.mantissa_le
  calc b.magnitude ≤ 2 ^ (53 : ℤ) * 2 ^ (970 : ℤ) :=
        mul_le_mul hmantissa (zpow_le_zpow_right₀ one_le_two hexponent) (by positivity) (by positivity)
    _ = 2 ^ (1023 : ℤ) := by rw [← zpow_add₀ two_ne_zero]; rfl
    _ < 2 ^ (1024 : ℤ) := zpow_lt_zpow_right₀ one_lt_two (by omega)

theorem ne_zero_of_large {n : ℕ} (h : 2 ^ 1023 ≤ n) : n ≠ 0 := by
  have hpos : 0 < 2 ^ 1023 := by positivity
  exact (hpos.trans_le h).ne'

/-- A whole number in the largest binade or above has whole steps. -/
theorem exists_binade {n : ℕ} (h : 2 ^ 1023 ≤ n) : ∃ k : ℕ, binade n 1 = k ∧ 971 ≤ k ∧
    2 ^ (k + 52) ≤ n ∧ n < 2 ^ (k + 53) := by
  have hn : n ≠ 0 := ne_zero_of_large h
  obtain ⟨hlow, hhigh⟩ := binade_bounds hn Nat.one_pos
  rw [Nat.cast_one, div_one] at hlow hhigh
  have hlarge : (2 : ℚ) ^ (1023 : ℤ) ≤ n := by exact_mod_cast h
  have hbinade := (zpow_lt_zpow_iff_right₀ one_lt_two).mp (hlarge.trans_lt hhigh)
  obtain ⟨k, hk⟩ := Int.eq_ofNat_of_zero_le (a := binade n 1) (by omega)
  rw [hk] at hlow hhigh hbinade
  exact ⟨k, hk, by omega, by exact_mod_cast hlow, by exact_mod_cast hhigh⟩

/-- **A whole number is beyond the largest finite one** from the threshold on. -/
theorem isBeyond_round (negative : Bool) (n : ℕ) :
    (round negative n 1).isBeyond = true ↔ threshold ≤ n := by
  rw [isBeyond_iff, threshold_eq]
  have hhalf : 0 < 2 ^ 970 := by positivity
  have hbinade : 2 ^ 1023 = 2 ^ 53 * 2 ^ 970 := by rw [← pow_add]
  rcases lt_or_ge n (2 ^ 1023) with hsmall | hlarge
  · have hround := rounds_round negative n Nat.one_pos
    have hlt := hround.magnitude_lt_of_small (by
      rw [Nat.cast_one, div_one]
      exact_mod_cast hsmall)
    rw [hbinade] at hsmall
    generalize 2 ^ 970 = half at hhalf hsmall
    exact ⟨fun hle => absurd hlt hle.not_gt, fun hle => by omega⟩
  · have hn : n ≠ 0 := ne_zero_of_large hlarge
    obtain ⟨k, hk, hleast, hlow, hhigh⟩ := exists_binade hlarge
    rw [round_of_binade negative hn hk]
    rcases hleast.eq_or_lt with rfl | habove
    · -- the largest binade: the number behind it has an even mantissa, so a tie goes up
      have hpos : 0 < 2 ^ 971 := by positivity
      have hstep : 2 ^ 971 = 2 * 2 ^ 970 := by rw [← pow_succ']
      have hpower : (1024 : ℤ) = ((53 + 971 : ℕ) : ℤ) := rfl
      rw [hpower, le_magnitude_iff, le_roundDiv_of_even hpos rfl, hstep]
      generalize 2 ^ 970 = half
      omega
    · -- above, every mantissa is large enough
      have hpower : (2 : ℚ) ^ (1024 : ℤ) ≤ 2 ^ ((52 + k : ℕ) : ℤ) :=
        zpow_le_zpow_right₀ one_le_two (by omega)
      have hmantissa : 2 ^ 52 ≤ roundDiv n (2 ^ k) := by
        rw [le_roundDiv_of_even (Nat.two_pow_pos k) rfl, ← pow_add, add_comm 52]
        exact (Nat.mul_le_mul_left 2 hlow).trans (Nat.le_add_right _ _)
      have hexponent : 54 + 970 ≤ k + 52 := by omega
      have hthreshold : (2 ^ 54 - 1) * 2 ^ 970 ≤ 2 ^ (k + 52) := by
        refine le_trans ?_ (pow_le_pow_right₀ one_le_two hexponent)
        rw [pow_add]
        exact Nat.mul_le_mul_right _ (Nat.sub_le _ _)
      exact iff_of_true (hpower.trans ((le_magnitude_iff negative _ _ _).mpr hmantissa))
        (hthreshold.trans hlow)

end Binary

/-- **A whole number has a binary number** below the threshold only. -/
theorem toFloat_whole (n : ℤ) :
    (threshold ≤ n.natAbs → (Number.whole n).toFloat = .error .wholeRange) ∧
      (n.natAbs < threshold → ∃ x, (Number.whole n).toFloat = .ok x) := by
  have hbeyond := Binary.isBeyond_round (decide (n < 0)) n.natAbs
  refine ⟨fun hle => ?_, fun hlt => ?_⟩
  · simp only [toFloat, hbeyond.mpr hle, if_true]
  · have hinside := mt hbeyond.mp (not_le.mpr hlt)
    simp only [toFloat, hinside]
    exact ⟨_, rfl⟩

end BorderTiles.Number
