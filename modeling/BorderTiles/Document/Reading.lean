import BorderTiles.Document.Value
import BorderTiles.Number.Numeral
import BorderTiles.Text.Blank

/-!
# Document — Reading

Readings of a loosely typed value.  `Value.affirms` reads a truth value: everything affirms except
null, false and what is spelled as one of the three words of `denials`.  `Value.rounded?` reads a whole
number, halves going up; `Value.toWhole` and `Value.toBinary?` read a number, the former with the reason
if there is none.
-/

namespace BorderTiles.Value

/-- The words for no. -/
def denials : List String := ["no", "0", "false"]

/-- Whether a word says yes. -/
def isYes (word : String) : Bool := !denials.contains word

/-- Whether a value says yes. -/
def affirms : Value → Except Fault Bool
  | null => .ok false
  | bool b => .ok b
  | v => v.spelled.map isYes

/-- The whole number nearest to the finite number that the text of a value writes, halves going up. -/
def rounded? : Value → Option Int
  | null => none
  | v => do
    let text := String.ofList (Text.trim Text.isBlank (← v.spelled.toOption).toList)
    let b ← (← Number.extendedOf? text).finite?
    return b.plusHalf.floor

/-- The whole part of a number or the whole number that a text writes. -/
def toWhole : Value → Except Fault Int
  | bool b => .ok (if b then 1 else 0)
  | number n => n.toWhole
  | text s => Number.wholeOf s
  | v => .error (.notNumeric v.typeName)

/-- A number, or the number that a text writes, as a binary number. -/
def toBinary? : Value → Except Fault (Option Float)
  | bool b => .ok (some (if b then 1 else 0))
  | number n => n.toFloat.map some
  | text s => .ok (Number.binaryOf? s)
  | _ => .ok none

end BorderTiles.Value
