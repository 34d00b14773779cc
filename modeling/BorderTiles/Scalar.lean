import BorderTiles.Number.Basic

/-!
# Scalar

What the geometry asks of its numbers.  A `Scalar` has the four operations, comparisons that answer
with a truth value, a length of the diagonal of a rectangle, powers of two, and a whole part that can
fail.  The program runs on `Float`; the same definitions can be read over any other instance.
-/

namespace BorderTiles

/-- Numbers to calculate with. -/
class Scalar (α : Type) extends Add α, Sub α, Mul α, Div α, Neg α where
  /-- A small whole number. -/
  ofNat : Nat → α
  /-- The number nearest to a given one. -/
  ofNumber : Number → Except Fault α
  /-- Whether the first number is smaller. -/
  lt : α → α → Bool
  /-- Whether two numbers are equal. -/
  eq : α → α → Bool
  /-- The whole part, toward zero. -/
  truncate : α → Except Fault Int
  /-- The diagonal of a rectangle with these sides. -/
  hypotenuse : α → α → α
  /-- Two to a power. -/
  twoPow : Number → Except Fault α

namespace Scalar
variable {α : Type} [Scalar α]

/-- A whole number as a scalar. -/
def ofWhole (n : Int) : Except Fault α := ofNumber (.whole n)

/-- The smaller of two numbers, the first unless the second is smaller. -/
def least (a b : α) : α := if lt b a then b else a

/-- The greater of two numbers, the first unless the second is greater. -/
def greatest (a b : α) : α := if lt a b then b else a

/-- The quotient, unless the divisor is zero. -/
def divide (a b : α) : Except Fault α :=
  if eq b (ofNat 0) then .error .divisionByZero else .ok (a / b)

end Scalar

/-- The diagonal, computed on sides scaled to at most one. -/
def diagonal (a b : Float) : Float :=
  let long := max a.abs b.abs
  if a.isInf || b.isInf then 1.0 / 0.0
  else if long == 0 then 0
  else long * ((a / long) * (a / long) + (b / long) * (b / long)).sqrt

instance : Scalar Float where
  ofNat n := Float.ofNat n
  ofNumber := Number.toFloat
  lt a b := a < b
  eq a b := a == b
  truncate := Number.truncate
  hypotenuse := diagonal
  twoPow
    | .whole n => do
      let x ← (Number.whole n).toFloat
      if 1024 ≤ n then throw .powerRange
      return if n < -1100 then 0 * x else (1.0 : Float).scaleB n
    | .binary x =>
      let y := Float.pow 2 x
      if y.isInf && x.isFinite then .error .powerRange else .ok y

end BorderTiles
