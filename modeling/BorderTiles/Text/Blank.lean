/-!
# Text — Blank

Blank characters.  `isAsciiBlank` holds the space and the five layout controls; `isBlank` adds the
four information separators and the blanks of every script.  `trim` drops a class of characters at
both ends, `trim_eq_self` says when it changes nothing.
-/

namespace BorderTiles.Text

/-- Tab, line feed, vertical tab, form feed, carriage return or space. -/
def isAsciiBlank (c : Char) : Bool :=
  c == ' ' || (9 ≤ c.toNat && c.toNat ≤ 13)

/-- A blank that is not ASCII. -/
def isWideBlank (c : Char) : Bool :=
  [0x85, 0xA0, 0x1680, 0x2028, 0x2029, 0x202F, 0x205F, 0x3000].contains c.toNat
    || (0x2000 ≤ c.toNat && c.toNat ≤ 0x200A)

/-- A blank of any script, the information separators included. -/
def isBlank (c : Char) : Bool :=
  isAsciiBlank c || isWideBlank c || (0x1C ≤ c.toNat && c.toNat ≤ 0x1F)

/-- Without the characters of `p` at either end. -/
def trim (p : Char → Bool) (s : List Char) : List Char :=
  ((s.dropWhile p).reverse.dropWhile p).reverse

theorem trim_nil (p : Char → Bool) : trim p [] = [] := rfl

theorem trim_eq_self {p : Char → Bool} {s : List Char} (h : ∀ c ∈ s, p c = false) :
    trim p s = s := by
  have drop (t : List Char) (ht : ∀ c ∈ t, p c = false) : t.dropWhile p = t := by
    cases t with
    | nil => rfl
    | cons c r => simp [ht c List.mem_cons_self]
  rw [trim, drop s h, drop s.reverse (by simpa using h), List.reverse_reverse]

end BorderTiles.Text
