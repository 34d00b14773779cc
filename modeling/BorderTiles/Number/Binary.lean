/-!
# Number — Binary

The exact value of a binary floating point number.  A finite one is `± mantissa · 2 ^ exponent`
(`Binary.ofFloat?`); `Binary.round` goes back from a quotient, rounding to the nearest one, to the even
mantissa on a tie, and `Extended` adds the infinities and NaN.  All of this is done on whole numbers;
`toFloat` comes last.  `roundDiv_spec` says that a rounded quotient is within half a unit.
-/

namespace BorderTiles.Number

/-- The fields of a finite binary number. -/
structure Binary where
  negative : Bool
  mantissa : Nat
  exponent : Int
  deriving DecidableEq, Repr

namespace Binary

/-- The fields of `x`, unless it is infinite or NaN. -/
def ofFloat? (x : Float) : Option Binary :=
  let bits := x.toBits.toNat
  let fraction : Nat := bits % Nat.pow 2 52
  let biased : Nat := bits / Nat.pow 2 52 % 2048
  let negative : Bool := Nat.pow 2 63 ≤ bits
  if biased = 2047 then none
  else if biased = 0 then some ⟨negative, fraction, -1074⟩
  else some ⟨negative, Nat.pow 2 52 + fraction, biased - 1075⟩

/-- Numerator and denominator of the absolute value. -/
def ratio (b : Binary) : Nat × Nat :=
  match b.exponent with
  | .ofNat e => (b.mantissa * Nat.pow 2 e, 1)
  | .negSucc e => (b.mantissa, Nat.pow 2 (e + 1))

/-- The exact value. -/
def toRat (b : Binary) : Rat :=
  let (n, d) := b.ratio
  let q := mkRat n d
  if b.negative then -q else q

end Binary

/-- `n / d` rounded to the nearest whole number, a tie to the even one. -/
def roundDiv (n d : Nat) : Nat :=
  let q := n / d
  let r := n % d
  if 2 * r < d then q
  else if d < 2 * r then q + 1
  else if q % 2 = 0 then q else q + 1

theorem roundDiv_spec (n d : Nat) (hd : 0 < d) :
    2 * (roundDiv n d * d) ≤ 2 * n + d ∧ 2 * n ≤ 2 * (roundDiv n d * d) + d := by
  have hn := Nat.div_add_mod n d
  have hr := Nat.mod_lt n hd
  have hc : n / d * d = d * (n / d) := Nat.mul_comm _ _
  unfold roundDiv
  simp only
  split
  · omega
  · split
    · rw [Nat.add_mul]; omega
    · split
      · omega
      · rw [Nat.add_mul]; omega

/-- The number nearest to `n / d`, with the sign asked for, a tie going to the even mantissa.  A
denominator of zero counts as one; there is no largest number. -/
def Binary.round (negative : Bool) (n d : Nat) : Binary :=
  if n = 0 then ⟨negative, 0, -1074⟩
  else
    let d := max d 1
    let least : Int := Nat.log2 n - Nat.log2 d - 53
    let scaled (e : Int) : Nat × Nat :=
      match e with
      | .ofNat k => (n, d * Nat.pow 2 k)
      | .negSucc k => (n * Nat.pow 2 (k + 1), d)
    let floorOf (e : Int) : Nat := (scaled e).1 / (scaled e).2
    let e := max (if floorOf least < Nat.pow 2 53 then least else least + 1) (-1074)
    ⟨negative, roundDiv (scaled e).1 (scaled e).2, e⟩

namespace Binary

/-- Whether a number is beyond the largest finite one. -/
def isBeyond (b : Binary) : Bool := b.mantissa ≠ 0 && 1024 ≤ b.exponent + Nat.log2 b.mantissa

/-- The number as it is calculated with; beyond the largest finite one it is an infinity. -/
def toFloat (b : Binary) : Float :=
  let magnitude := (Float.ofNat b.mantissa).scaleB b.exponent
  if b.negative then -magnitude else magnitude

/-- The greatest whole number that is not above. -/
def floor (b : Binary) : Int :=
  let (n, d) := b.ratio
  (if b.negative then -(n : Int) else n) / (d : Int)

/-- The number nearest to the sum of `b` and a half. -/
def plusHalf (b : Binary) : Binary :=
  let (n, d) := b.ratio
  let sum : Int := (if b.negative then -(2 * n : Int) else 2 * n) + d
  round (sum < 0) sum.natAbs (2 * d)

end Binary

/-- What a decimal can stand for. -/
inductive Extended where
  | finite (b : Binary)
  | infinite (negative : Bool)
  | nan
  deriving DecidableEq, Repr

namespace Extended

/-- The number, if it is finite. -/
def finite? : Extended → Option Binary
  | finite b => some b
  | _ => none

/-- The number as it is calculated with. -/
def toFloat : Extended → Float
  | finite b => b.toFloat
  | infinite negative => if negative then -(1.0 / 0.0) else 1.0 / 0.0
  | nan => 0.0 / 0.0

/-- The number, or the infinity with its sign if it is beyond all finite ones. -/
def ofBinary (b : Binary) : Extended := if b.isBeyond then infinite b.negative else finite b

end Extended

/-- The binary number nearest to `q`. -/
def ofRat (q : Rat) : Float :=
  (Binary.round (q.num < 0) q.num.natAbs q.den).toFloat

/-- The number nearest to `digits · 10 ^ exponent`.  Exponents far outside the range of finite numbers
are answered without forming the power. -/
def ofDecimal (negative : Bool) (digits : Nat) (exponent : Int) : Extended :=
  let size : Int := Nat.log2 digits
  let decimals := exponent + size * 30103 / 100000
  if digits = 0 || decimals < -400 then .finite ⟨negative, 0, -1074⟩
  else if 400 < decimals then .infinite negative
  else
    .ofBinary (match exponent with
      | .ofNat e => Binary.round negative (digits * Nat.pow 10 e) 1
      | .negSucc e => Binary.round negative digits (Nat.pow 10 (e + 1)))

end BorderTiles.Number
