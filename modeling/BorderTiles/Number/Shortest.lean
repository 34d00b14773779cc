import BorderTiles.Number.Binary

/-!
# Number — Shortest

The shortest decimal that reads back as the same binary number.  The reals that round to
`mantissa · 2 ^ exponent` form an interval, which includes its ends if the mantissa is even.  On the
grid of `n` significant digits the two neighbours of the value are tried for `n = 1, 2, …`; the first
grid with a neighbour inside the interval gives the digits, and of two such neighbours the nearer one
is taken, on a tie the even one.  `shortest` writes the digits positionally from `10 ^ -4` up to below
`10 ^ 16` and with an exponent of two or more digits elsewhere.
-/

namespace BorderTiles.Number

/-- `10 ^ k` for any whole `k`. -/
def tenPow (k : Int) : Rat :=
  match k with
  | .ofNat n => mkRat (Nat.pow 10 n) 1
  | .negSucc n => mkRat 1 (Nat.pow 10 (n + 1))

/-- `2 ^ k` for any whole `k`. -/
def twoPow (k : Int) : Rat :=
  match k with
  | .ofNat n => mkRat (Nat.pow 2 n) 1
  | .negSucc n => mkRat 1 (Nat.pow 2 (n + 1))

/-- The interval of reals that round to a number. -/
structure Interval where
  low : Rat
  high : Rat
  closed : Bool

namespace Interval

/-- Whether `q` rounds to the number. -/
def contains (i : Interval) (q : Rat) : Bool :=
  if i.closed then i.low ≤ q && q ≤ i.high else i.low < q && q < i.high

/-- The interval of `mantissa · 2 ^ exponent`.  Below a power of two the gap is half as wide, except
at the smallest exponent. -/
def ofBinary (b : Binary) : Interval :=
  let unit := twoPow (b.exponent - 2)
  let below : Nat := if b.mantissa = Nat.pow 2 52 && -1074 < b.exponent then 1 else 2
  { low := unit * ((4 * b.mantissa - below : Nat) : Rat)
    high := unit * ((4 * b.mantissa + 2 : Nat) : Rat)
    closed := b.mantissa % 2 = 0 }

end Interval

/-- The exponent of the first decimal digit of a positive number. -/
def leadingExponent (b : Binary) (q : Rat) : Int :=
  let estimate := ((Nat.log2 b.mantissa : Int) + b.exponent) * 30103 / 100000
  if tenPow (estimate + 1) ≤ q then estimate + 1 else estimate

/-- The digits and the exponent of the last digit: the first of the grids with `digits`, `digits + 1`,
… significant digits, at most `tries` of them, that has a neighbour of `q` in the interval. -/
def searchGrid (i : Interval) (q : Rat) (lead : Int) : (tries digits : Nat) → Nat × Int
  | 0, digits => ((q / tenPow (lead - digits)).floor.toNat, lead - digits)
  | tries + 1, digits =>
    let last := lead - digits + 1
    let step := tenPow last
    let down := (q / step).floor
    let below := (down : Rat) * step
    let above := ((down + 1 : Int) : Rat) * step
    match i.contains below, i.contains above with
    | true, true =>
      let up := above - q < q - below || (above - q == q - below && down % 2 = 1)
      (if up then (down + 1).toNat else down.toNat, last)
    | true, false => (down.toNat, last)
    | false, true => ((down + 1).toNat, last)
    | false, false => searchGrid i q lead tries (digits + 1)

/-- Without the zeros at the end, each of which raises the exponent. -/
def dropZeros (n : Nat) (e : Int) : Nat × Int :=
  if h : n ≠ 0 ∧ n % 10 = 0 then dropZeros (n / 10) (e + 1) else (n, e)
termination_by n
decreasing_by omega

/-- Digits with their point or exponent. -/
def layout (digits : List Char) (last : Int) : String :=
  let count : Int := digits.length
  let lead := last + count - 1
  if -4 ≤ lead && lead < 16 then
    if 0 ≤ last then String.ofList (digits ++ List.replicate last.toNat '0' ++ ['.', '0'])
    else if 0 ≤ lead then
      String.ofList (digits.take (lead.toNat + 1) ++ '.' :: digits.drop (lead.toNat + 1))
    else String.ofList ('0' :: '.' :: List.replicate (-lead - 1).toNat '0' ++ digits)
  else
    let mantissa := match digits with
      | [] => []
      | [d] => [d]
      | d :: r => d :: '.' :: r
    let size := Nat.toDigits 10 lead.natAbs
    let exponent := List.replicate (2 - size.length) '0' ++ size
    String.ofList (mantissa ++ 'e' :: (if lead < 0 then '-' else '+') :: exponent)

/-- The shortest text that reads back as `x`. -/
def shortest (x : Float) : String :=
  match Binary.ofFloat? x with
  | none => if x.isNaN then "nan" else if x < 0 then "-inf" else "inf"
  | some b =>
    let sign := if b.negative then "-" else ""
    if b.mantissa = 0 then sign ++ "0.0"
    else
      let q := { b with negative := false }.toRat
      let (n, e) := searchGrid (.ofBinary b) q (leadingExponent b q) 17 1
      let (n, e) := dropZeros n e
      sign ++ layout (Nat.toDigits 10 n) e

end BorderTiles.Number
