import BorderTiles.Fault
import BorderTiles.Number.Binary
import BorderTiles.Text.Blank
import BorderTiles.Text.Digit

/-!
# Number — Numeral

Reading numbers from text.  Digits of every script count, an underscore may stand between two digits,
and blanks around the number are ignored.  `wholeOf` reads a whole number and fails with the reason;
`extendedOf?` reads a decimal with an optional point and exponent, or an infinity or NaN by name.
-/

namespace BorderTiles.Number
open BorderTiles.Text

/-- Blanks and digits of every script as their ASCII equivalents. -/
def plain (c : Char) : Char :=
  if c.toNat < 128 then c
  else if isWideBlank c then ' '
  else (digit? c).elim c ofDigit

/-- A sign and what follows it. -/
def splitSign : List Char → Bool × List Char
  | '-' :: r => (true, r)
  | '+' :: r => (false, r)
  | s => (false, s)

/-- Whether every underscore stands between two digits, `before` saying whether a digit comes before. -/
def underscoresApart (before : Bool) : List Char → Bool
  | [] => true
  | '_' :: r => before && r.head?.any Char.isDigit && underscoresApart false r
  | c :: r => underscoresApart c.isDigit r

/-- The value of decimal digits. -/
def valueOf (digits : List Char) : Nat :=
  digits.foldl (fun n c => 10 * n + (c.toNat - '0'.toNat)) 0

/-- The whole number that `text` writes. -/
def wholeOf (text : String) : Except Fault Int :=
  let (negative, body) := splitSign (trim isAsciiBlank (text.toList.map plain))
  let run := body.takeWhile fun c => c.isDigit || c == '_'
  let digits := run.filter Char.isDigit
  if run.isEmpty || !underscoresApart false run then .error (.notWhole text)
  else if Fault.maxDigits < digits.length then .error (.longNumeral digits.length)
  else if run.length < body.length then .error (.notWhole text)
  else
    let n : Int := valueOf digits
    .ok (if negative then -n else n)

/-- An exponent mark and its digits, or nothing at all. -/
def exponentOf? : List Char → Option Int
  | [] => some 0
  | c :: r =>
    if c == 'e' || c == 'E' then
      let (negative, digits) := splitSign r
      if digits.isEmpty || !digits.all Char.isDigit then none
      else
        let n : Int := valueOf digits
        some (if negative then -n else n)
    else none

/-- The unsigned decimal that `s` writes without underscores. -/
def decimalOf? (negative : Bool) (s : List Char) : Option Extended :=
  let units := s.takeWhile Char.isDigit
  let (decimals, rest) := match s.drop units.length with
    | '.' :: r => (r.takeWhile Char.isDigit, r.dropWhile Char.isDigit)
    | r => ([], r)
  if units.isEmpty && decimals.isEmpty then none
  else
    (exponentOf? rest).map fun e =>
      ofDecimal negative (valueOf (units ++ decimals)) (e - decimals.length)

/-- The number nearest to what `text` writes. -/
def extendedOf? (text : String) : Option Extended :=
  let (negative, body) := splitSign (trim isAsciiBlank (text.toList.map plain))
  let name := body.map Char.toLower
  if name = "nan".toList then some .nan
  else if name = "inf".toList || name = "infinity".toList then some (.infinite negative)
  else if underscoresApart false body then decimalOf? negative (body.filter (· != '_'))
  else none

/-- The number nearest to what `text` writes, to calculate with. -/
def binaryOf? (text : String) : Option Float := (extendedOf? text).map Extended.toFloat

end BorderTiles.Number
