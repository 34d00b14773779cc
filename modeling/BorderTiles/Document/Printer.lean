import BorderTiles.Document.Value

/-!
# Document — Printer

The text of a document in ASCII: other characters are written as UTF-16 units, items are separated
by a comma and a space, names from values by a colon and a space.  `Value.sorted` orders the fields of
every object by name, so that equal objects have one text.
-/

namespace BorderTiles.Value

/-- One UTF-16 unit as an escape. -/
def unitEscape (n : Nat) : List Char := '\\' :: 'u' :: Text.hex 4 n

/-- One character of a text. -/
def escape (c : Char) : List Char :=
  if c = '"' then ['\\', '"']
  else if c = '\\' then ['\\', '\\']
  else if c = '\n' then ['\\', 'n']
  else if c = '\r' then ['\\', 'r']
  else if c = '\t' then ['\\', 't']
  else if c.toNat = 8 then ['\\', 'b']
  else if c.toNat = 12 then ['\\', 'f']
  else if 0x20 ≤ c.toNat && c.toNat < 0x7F then [c]
  else if c.toNat < 0x10000 then unitEscape c.toNat
  else
    let n := c.toNat - 0x10000
    unitEscape (0xD800 + n / 0x400) ++ unitEscape (0xDC00 + n % 0x400)

/-- A text between double quotes. -/
def textForm (s : String) : String :=
  String.ofList ('"' :: s.toList.flatMap escape ++ ['"'])

/-- A number; infinities and NaN by name. -/
def numberForm : Number → String
  | .whole n => toString n
  | .binary x =>
    if x.isNaN then "NaN"
    else if x.isInf then (if x < 0 then "-Infinity" else "Infinity")
    else Number.shortest x

mutual

/-- The text of a document. -/
def print : Value → String
  | null => "null"
  | bool b => if b then "true" else "false"
  | number n => numberForm n
  | text s => textForm s
  | list items => "[" ++ ", ".intercalate (printItems items) ++ "]"
  | object fields => "\x7b" ++ ", ".intercalate (printFields fields) ++ "\x7d"

/-- The texts of the items of a list. -/
def printItems : List Value → List String
  | [] => []
  | v :: r => print v :: printItems r

/-- The texts of the fields of an object. -/
def printFields : List (String × Value) → List String
  | [] => []
  | (name, v) :: r => (textForm name ++ ": " ++ print v) :: printFields r

end

mutual

/-- The value with the fields of its objects ordered by name. -/
def sorted : Value → Value
  | list items => .list (sortedItems items)
  | object fields => .object ((sortedFields fields).mergeSort fun a b => a.1 ≤ b.1)
  | v => v

/-- Items with their objects ordered. -/
def sortedItems : List Value → List Value
  | [] => []
  | v :: r => sorted v :: sortedItems r

/-- Fields with the objects inside them ordered. -/
def sortedFields : List (String × Value) → List (String × Value)
  | [] => []
  | (name, v) :: r => (name, sorted v) :: sortedFields r

end

end BorderTiles.Value
