import BorderTiles.Text.Printable

/-!
# Text — Quoted

A text between quotes, as it is shown inside a message.  Apostrophes enclose it, or double quotes if
it holds an apostrophe and no double quote.  The backslash and the enclosing quote are escaped, the
tab and the line ends have letters, and a character that is not printable is shown by its number in
as few of two, four or eight hexadecimal digits as hold it.
-/

namespace BorderTiles.Text

/-- `n` in `width` or more lower case hexadecimal digits. -/
def hex (width n : Nat) : List Char :=
  let digits := Nat.toDigits 16 n
  List.replicate (width - digits.length) '0' ++ digits

/-- The enclosing character of a quoted text. -/
def quoteFor (s : List Char) : Char :=
  if s.contains '\'' && !s.contains '"' then '"' else '\''

/-- One character of a text enclosed in `quote`. -/
def quoteChar (quote c : Char) : List Char :=
  if c = '\\' || c = quote then ['\\', c]
  else if c = '\t' then ['\\', 't']
  else if c = '\n' then ['\\', 'n']
  else if c = '\r' then ['\\', 'r']
  else if isPrintable c then [c]
  else if c.toNat < 0x100 then '\\' :: 'x' :: hex 2 c.toNat
  else if c.toNat < 0x10000 then '\\' :: 'u' :: hex 4 c.toNat
  else '\\' :: 'U' :: hex 8 c.toNat

/-- `s` between quotes. -/
def quoted (s : String) : String :=
  let quote := quoteFor s.toList
  String.ofList (quote :: s.toList.flatMap (quoteChar quote) ++ [quote])

end BorderTiles.Text
