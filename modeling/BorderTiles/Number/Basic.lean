import BorderTiles.Fault
import BorderTiles.Number.Binary

/-!
# Number — Basic

A number as it is written in a document: a whole number of any size or a binary one.  `truncate`
gives the whole part of a binary number and fails on infinities and NaN; `toFloat` fails on whole
numbers beyond the range; `same` compares exact values.
-/

namespace BorderTiles

/-- A whole number of any size, or a binary floating point number. -/
inductive Number where
  | whole (n : Int)
  | binary (x : Float)

namespace Number

/-- The whole part of `x`, toward zero. -/
def truncate (x : Float) : Except Fault Int :=
  match Binary.ofFloat? x with
  | some b =>
    let (n, d) := b.ratio
    let q : Int := (n / d : Nat)
    .ok (if b.negative then -q else q)
  | none => .error (if x.isNaN then .wholeOfNaN else .wholeOfInfinity)

/-- The binary number nearest to a number. -/
def toFloat : Number → Except Fault Float
  | whole n =>
    let b := Binary.round (n < 0) n.natAbs 1
    if b.isBeyond then .error .wholeRange else .ok b.toFloat
  | binary x => .ok x

/-- The whole part of a number, toward zero. -/
def toWhole : Number → Except Fault Int
  | whole n => .ok n
  | binary x => truncate x

/-- An exact value: a finite one, or an infinity with its sign. -/
inductive Extent where
  | finite (q : Rat)
  | infinite (negative : Bool)
  deriving DecidableEq, Repr

/-- The exact value of a number; NaN has none. -/
def extent? : Number → Option Extent
  | whole n => some (.finite n)
  | binary x =>
    match Binary.ofFloat? x with
    | some b => some (.finite b.toRat)
    | none => if x.isNaN then none else some (.infinite (x < 0))

/-- Whether two numbers have the same value; NaN has no value. -/
def same (m n : Number) : Bool := m.extent?.isSome && m.extent? == n.extent?

end Number
end BorderTiles
