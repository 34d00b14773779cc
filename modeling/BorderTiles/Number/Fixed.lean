import BorderTiles.Number.Binary

/-!
# Number — Fixed

A number with a fixed count of decimals.  The exact value is rounded to the last place, a tie to the
even digit; the sign is kept even if only zeros are left.
-/

namespace BorderTiles.Number

/-- `n` units of the last of `places` decimals, as text. -/
def placed (places n : Nat) : String :=
  let digits := Nat.toDigits 10 n
  let padded := List.replicate (places + 1 - digits.length) '0' ++ digits
  let cut := padded.length - places
  if places = 0 then String.ofList padded
  else String.ofList (padded.take cut ++ '.' :: padded.drop cut)

/-- `x` with `places` decimals. -/
def fixed (places : Nat) (x : Float) : String :=
  match Binary.ofFloat? x with
  | some b =>
    let (n, d) := b.ratio
    (if b.negative then "-" else "") ++ placed places (roundDiv (n * Nat.pow 10 places) d)
  | none => if x.isNaN then "nan" else if x < 0 then "-inf" else "inf"

end BorderTiles.Number
