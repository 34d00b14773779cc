import BorderTiles.Text.Quoted

/-!
# Fault

Why a step cannot give an answer.  A `Fault` names the cause; `Fault.message` is its wording, and
`Fault.kind` says which family it belongs to: a settings error of the family `value`, `document` or
`missing` is reported, any other one ends the run.
-/

namespace BorderTiles

/-- The families of faults. -/
inductive Fault.Kind where
  /-- A number out of range. -/
  | range
  /-- A value of the right type that is not acceptable. -/
  | value
  /-- A value of the wrong type. -/
  | type
  /-- A division by zero. -/
  | division
  /-- A position outside a sequence. -/
  | index
  /-- A source feature without a usable geometry. -/
  | geometry
  /-- An input that the plane geometry refuses. -/
  | plane
  /-- A step that is not allowed in this state. -/
  | state
  /-- A file that does not exist. -/
  | missing
  /-- A text that is not a document. -/
  | document
  /-- Something that is not there. -/
  | absent
  deriving DecidableEq, Repr

/-- The causes. -/
inductive Fault where
  /-- An infinite number has no whole part. -/
  | wholeOfInfinity
  /-- NaN has no whole part. -/
  | wholeOfNaN
  /-- A power that exceeds every binary number. -/
  | powerRange
  /-- A whole number that exceeds every binary number. -/
  | wholeRange
  /-- A curve that exceeds every binary number at a finite place. -/
  | curveRange
  /-- A quotient by zero. -/
  | divisionByZero
  /-- A position with fewer than two numbers. -/
  | shortPosition (count : Nat)
  /-- A position with more than two numbers. -/
  | longPosition
  /-- A line without points where one is looked up. -/
  | emptyLine
  /-- A line of one point. -/
  | lonePoint
  /-- A ring of fewer than four points, the first one being the last. -/
  | shortRing
  /-- An outline through a position that is not finite. -/
  | unplacedOutline
  /-- A document that describes no geometry. -/
  | notGeometry
  /-- A way with fewer than two distinct points. -/
  | indistinct (count : Nat)
  /-- A text that is not a whole number. -/
  | notWhole (text : String)
  /-- A whole number with too many digits to be read. -/
  | longNumeral (count : Nat)
  /-- A whole number with too many digits to be written. -/
  | longWhole
  /-- A zoom range whose end comes before its start. -/
  | reversedRange (text : String)
  /-- A zoom range of more than two parts. -/
  | extraPart
  /-- A value that is no number and no text. -/
  | notNumeric (type : String)
  /-- An attribute value that cannot be compared as a key. -/
  | notKey (type : String)
  /-- Settings that are no collection of pairs. -/
  | notCollection (type : String)
  /-- An element of the settings that is no pair. -/
  | notSequence (index : Nat)
  /-- An element of the settings with another length than two. -/
  | notPair (index length : Nat)
  /-- A settings file that does not exist. -/
  | missingSettings (path : String)
  /-- A text that is not a document, with the character count, line and column of the first error. -/
  | malformed (reason : String) (offset line column : Nat)
  /-- A feature without a geometry where one is drawn. -/
  | noGeometry
  /-- A second end of the same input. -/
  | alreadyFinished
  deriving DecidableEq, Repr

namespace Fault

/-- The family of a fault. -/
def kind : Fault → Kind
  | wholeOfInfinity | powerRange | wholeRange | curveRange => .range
  | wholeOfNaN | shortPosition _ | longPosition | notWhole _ | longNumeral _ | longWhole
  | reversedRange _ | extraPart | notPair .. | shortRing | notGeometry => .value
  | notNumeric _ | notKey _ | notCollection _ | notSequence _ => .type
  | divisionByZero => .division
  | emptyLine => .index
  | indistinct _ => .geometry
  | lonePoint | unplacedOutline => .plane
  | alreadyFinished => .state
  | missingSettings _ => .missing
  | malformed .. => .document
  | noGeometry => .absent

/-- The most characters of a quoted text that a message shows. -/
def shownCharacters : Nat := 200

/-- The most digits of a whole number that is read or written. -/
def maxDigits : Nat := 4300

/-- The wording of a fault. -/
def message : Fault → String
  | wholeOfInfinity => "cannot convert float infinity to integer"
  | wholeOfNaN => "cannot convert float NaN to integer"
  | powerRange => "(34, 'Numerical result out of range')"
  | wholeRange => "int too large to convert to float"
  | curveRange => "math range error"
  | divisionByZero => "float division by zero"
  | shortPosition count => s!"not enough values to unpack (expected 2, got {count})"
  | longPosition | extraPart => "too many values to unpack (expected 2)"
  | emptyLine => "list index out of range"
  | lonePoint => "IllegalArgumentException: point array must contain 0 or >1 elements\n"
  | shortRing => "A linearring requires at least 4 coordinates."
  | notGeometry => "not a geometry"
  | unplacedOutline =>
    "IllegalArgumentException: CGAlgorithmsDD::orientationIndex encountered NaN/Inf numbers"
  | indistinct count => s!"line needs at least 2 distinct points, got {count}"
  | notWhole text =>
    "invalid literal for int() with base 10: "
      ++ String.ofList ((Text.quoted text).toList.take shownCharacters)
  | longNumeral count =>
    s!"Exceeds the limit ({maxDigits} digits) for integer string conversion: value has {count} "
      ++ "digits; use sys.set_int_max_str_digits() to increase the limit"
  | longWhole =>
    s!"Exceeds the limit ({maxDigits} digits) for integer string conversion; "
      ++ "use sys.set_int_max_str_digits() to increase the limit"
  | reversedRange text => "invalid zoom range: " ++ text
  | notNumeric type =>
    "int() argument must be a string, a bytes-like object or a real number, not '" ++ type ++ "'"
  | notKey type => "unhashable type: '" ++ type ++ "'"
  | notCollection type => "'" ++ type ++ "' object is not iterable"
  | notSequence index =>
    s!"cannot convert dictionary update sequence element #{index} to a sequence"
  | notPair index length =>
    s!"dictionary update sequence element #{index} has length {length}; 2 is required"
  | missingSettings path => s!"Config file {path} not found"
  | malformed reason offset line column =>
    s!"{reason}: line {line} column {column} (char {offset})"
  | noGeometry => "'NoneType' object has no attribute 'is_empty'"
  | alreadyFinished => "boundary layer already finished"

end Fault
end BorderTiles
