import BorderTiles.Document.Value
import BorderTiles.Number.Numeral
import BorderTiles.Table

/-!
# Document — Reader

Reading a document from text.  A reader takes the characters that are left and returns a value with
the characters behind it, or a `Flaw` with the characters left where it was noticed, from which
`Value.parse` computes the place.  Whole numbers stay whole numbers, infinities and NaN are read by
name, and of several fields of one name the last value stands in the first place.
-/

namespace BorderTiles.Value

/-- Why a text is not a document. -/
inductive Flaw where
  | value
  | name
  | colon
  | comma
  | openText
  | control
  | escape
  | unit
  | extra
  | mark
  | long (digits : Nat)

/-- The wording of a flaw. -/
def Flaw.reason : Flaw → String
  | value => "Expecting value"
  | name => "Expecting property name enclosed in double quotes"
  | colon => "Expecting ':' delimiter"
  | comma => "Expecting ',' delimiter"
  | openText => "Unterminated string starting at"
  | control => "Invalid control character at"
  | escape => "Invalid \\escape"
  | unit => "Invalid \\uXXXX escape"
  | extra => "Extra data"
  | mark => "Unexpected UTF-8 BOM (decode using utf-8-sig)"
  | long _ => ""

/-- What a reader gives: a result, or a flaw and the characters left where it was noticed. -/
abbrev Outcome (τ : Type) := Except (Flaw × List Char) τ

/-- The blanks between the parts of a document. -/
def isLayout (c : Char) : Bool := c == ' ' || c == '\t' || c == '\n' || c == '\r'

/-- Without the blanks at the start. -/
def skip (s : List Char) : List Char := s.dropWhile isLayout

/-- The value of a hexadecimal digit. -/
def hexDigit? (c : Char) : Option Nat :=
  if c.isDigit then some (c.toNat - '0'.toNat)
  else if 'a' ≤ c && c ≤ 'f' then some (c.toNat - 'a'.toNat + 10)
  else if 'A' ≤ c && c ≤ 'F' then some (c.toNat - 'A'.toNat + 10)
  else none

/-- The value of four hexadecimal digits. -/
def unit? : List Char → Option Nat
  | [a, b, c, d] => do
    let a ← hexDigit? a
    let b ← hexDigit? b
    let c ← hexDigit? c
    let d ← hexDigit? d
    some (((a * 16 + b) * 16 + c) * 16 + d)
  | _ => none

/-- The character of a code point; a lone half of a pair has none and becomes the replacement
character. -/
def charOf (n : Nat) : Char :=
  if 0xD800 ≤ n && n < 0xE000 then '\uFFFD' else Char.ofNat n

/-- The character that an escape letter stands for. -/
def letter? (c : Char) : Option Char :=
  match c with
  | '"' => some '"'
  | '\\' => some '\\'
  | '/' => some '/'
  | 'b' => some (Char.ofNat 8)
  | 'f' => some (Char.ofNat 12)
  | 'n' => some '\n'
  | 'r' => some '\r'
  | 't' => some '\t'
  | _ => none

/-- A UTF-16 escape behind its `u`, which `s` starts with; two escapes can form a pair. -/
def readUnits (s : List Char) : Outcome (Char × List Char) :=
  let digits := s.drop 1
  if digits.length ≤ 4 then .error (.unit, s)
  else
    match unit? (digits.take 4) with
    | none => .error (.unit, s)
    | some high =>
      let rest := digits.drop 4
      match rest with
      | '\\' :: 'u' :: more =>
        if 0xD800 ≤ high && high < 0xDC00 && 4 < more.length then
          match unit? (more.take 4) with
          | none => .error (.unit, 'u' :: more)
          | some low =>
            if 0xDC00 ≤ low && low < 0xE000 then
              .ok (Char.ofNat (0x10000 + (high - 0xD800) * 0x400 + (low - 0xDC00)), more.drop 4)
            else .ok (charOf high, rest)
        else .ok (charOf high, rest)
      | _ => .ok (charOf high, rest)

/-- The characters of a text up to its closing quote; `start` begins with the opening one. -/
def readText (start : List Char) (found : List Char) :
    (fuel : Nat) → List Char → Outcome (String × List Char)
  | 0, _ => .error (.openText, start)
  | _, [] => .error (.openText, start)
  | fuel + 1, c :: r =>
    if c = '"' then .ok (String.ofList found.reverse, r)
    else if c.toNat < 0x20 then .error (.control, c :: r)
    else if c = '\\' then
      match r with
      | [] => .error (.openText, start)
      | 'u' :: _ => do
        let (d, rest) ← readUnits r
        readText start (d :: found) fuel rest
      | d :: rest =>
        match letter? d with
        | some e => readText start (e :: found) fuel rest
        | none => .error (.escape, c :: r)
    else readText start (c :: found) fuel r

/-- A fraction and an exponent at the start of `s`, each only if it has a digit. -/
def fractionOf (s : List Char) : List Char :=
  let fraction := match s with
    | '.' :: r => match r.takeWhile Char.isDigit with
      | [] => []
      | digits => '.' :: digits
    | _ => []
  let exponent := match s.drop fraction.length with
    | c :: r =>
      if c = 'e' || c = 'E' then
        let sign := r.takeWhile (fun d => d = '+' || d = '-') |>.take 1
        match (r.drop sign.length).takeWhile Char.isDigit with
        | [] => []
        | digits => c :: sign ++ digits
      else []
    | [] => []
  fraction ++ exponent

/-- A number. -/
def readNumber (s : List Char) : Outcome (Value × List Char) :=
  let (negative, body) := match s with
    | '-' :: r => (true, r)
    | r => (false, r)
  let units := match body with
    | '0' :: _ => ['0']
    | r => r.takeWhile Char.isDigit
  if units.isEmpty then .error (.value, s)
  else
    let rest := body.drop units.length
    let fraction := fractionOf rest
    if fraction.isEmpty then
      if Fault.maxDigits < units.length then .error (.long units.length, s)
      else
        let n : Int := Number.valueOf units
        .ok (.whole (if negative then -n else n), rest)
    else
      let x := (Number.decimalOf? negative (units ++ fraction)).getD .nan
      .ok (.number (.binary x.toFloat), rest.drop fraction.length)

/-- The values with a fixed spelling. -/
def words : List (List Char × Value) :=
  [("null".toList, .null), ("true".toList, .bool true), ("false".toList, .bool false),
    ("NaN".toList, .number (.binary (0.0 / 0.0))),
    ("Infinity".toList, .number (.binary (1.0 / 0.0))),
    ("-Infinity".toList, .number (.binary (-(1.0 / 0.0))))]

/-- Fields without repeated names. -/
def distinct (fields : List (String × Value)) : List (String × Value) :=
  (Table.ofList fields).entries

mutual

/-- One value. -/
def readValue : (fuel : Nat) → List Char → Outcome (Value × List Char)
  | 0, s => .error (.value, s)
  | fuel + 1, s =>
    match s with
    | '"' :: r => do
      let (t, rest) ← readText s [] (r.length + 1) r
      .ok (.text t, rest)
    | '{' :: r =>
      match skip r with
      | '}' :: rest => .ok (.object [], rest)
      | rest => do
        let (fields, rest) ← readFields fuel rest
        .ok (.object (distinct fields), rest)
    | '[' :: r =>
      match skip r with
      | ']' :: rest => .ok (.list [], rest)
      | rest => do
        let (items, rest) ← readItems fuel rest
        .ok (.list items, rest)
    | _ =>
      match words.find? fun word => word.1.isPrefixOf s with
      | some (word, v) => .ok (v, s.drop word.length)
      | none => readNumber s

/-- The items of a list up to its end. -/
def readItems : (fuel : Nat) → List Char → Outcome (List Value × List Char)
  | 0, s => .error (.value, s)
  | fuel + 1, s => do
    let (v, rest) ← readValue fuel s
    match skip rest with
    | ']' :: rest => .ok ([v], rest)
    | ',' :: rest =>
      let (items, rest) ← readItems fuel (skip rest)
      .ok (v :: items, rest)
    | rest => .error (.comma, rest)

/-- The fields of an object up to its end. -/
def readFields : (fuel : Nat) → List Char → Outcome (List (String × Value) × List Char)
  | 0, s => .error (.name, s)
  | fuel + 1, s =>
    match s with
    | '"' :: r => do
      let (name, rest) ← readText s [] (r.length + 1) r
      match skip rest with
      | ':' :: rest =>
        let (v, rest) ← readValue fuel (skip rest)
        match skip rest with
        | '}' :: rest => .ok ([(name, v)], rest)
        | ',' :: rest =>
          let (fields, rest) ← readFields fuel (skip rest)
          .ok ((name, v) :: fields, rest)
        | rest => .error (.comma, rest)
      | rest => .error (.colon, rest)
    | _ => .error (.name, s)

end

/-- The fault of a flaw noticed where `rest` was left of `s`. -/
def faultAt (s : List Char) (flaw : Flaw) (rest : List Char) : Fault :=
  match flaw with
  | .long digits => .longNumeral digits
  | flaw =>
    let before := s.take (s.length - rest.length)
    let column := (before.reverse.takeWhile (· ≠ '\n')).length + 1
    .malformed flaw.reason before.length (before.count '\n' + 1) column

/-- The document that a text writes. -/
def parse (text : String) : Except Fault Value :=
  let s := text.toList
  match s with
  | '\uFEFF' :: _ => .error (faultAt s .mark s)
  | _ =>
    match readValue (2 * s.length + 2) (skip s) with
    | .error (flaw, rest) => .error (faultAt s flaw rest)
    | .ok (v, rest) =>
      match skip rest with
      | [] => .ok v
      | rest => .error (faultAt s .extra rest)

end BorderTiles.Value
