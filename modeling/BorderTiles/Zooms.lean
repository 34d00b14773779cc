import BorderTiles.Number.Numeral
import BorderTiles.Scalar

/-!
# Zooms

Zoom levels.  `Zooms.parse` reads one level or a range with both ends; the sign of a level would be
read as the dash of a range, so no level is negative: `dash_notMem_cutAtDashes` says that the parts of
a range hold no dash.  A range is listed in full, however long it is; a machine can list no range of
`2 ^ 63` levels or more, and up to that bound the list is what it gives.  `Zooms.pixelTolerance` is how
far a line may be moved when it is simplified.
-/

namespace BorderTiles.Zooms

/-- The whole numbers from `a` to `b`, however many they are. -/
def upTo (a b : Int) : List Int :=
  (List.range (b - a + 1).toNat).map fun (i : Nat) => a + i

/-- A text cut at its dashes. -/
def cutAtDashes : List Char → List (List Char)
  | [] => [[]]
  | c :: r =>
    match c, cutAtDashes r with
    | '-', parts => [] :: parts
    | c, part :: parts => (c :: part) :: parts
    | c, [] => [[c]]

theorem cutAtDashes_ne_nil (s : List Char) : cutAtDashes s ≠ [] := by
  cases s with
  | nil => simp [cutAtDashes]
  | cons c r =>
    unfold cutAtDashes
    split <;> simp

/-- No part of a cut text holds a dash. -/
theorem dash_notMem_cutAtDashes {s part : List Char} (h : part ∈ cutAtDashes s) : '-' ∉ part := by
  induction s generalizing part with
  | nil => simp_all [cutAtDashes]
  | cons c r ih =>
    unfold cutAtDashes at h
    split at h
    · rcases List.mem_cons.1 h with rfl | h
      · simp
      · exact ih h
    · next hc hr =>
      rcases List.mem_cons.1 h with rfl | h
      · have := ih (hr ▸ List.mem_cons_self)
        simp_all [eq_comm]
      · exact ih (hr ▸ List.mem_cons_of_mem _ h)
    · next hr => exact absurd hr (cutAtDashes_ne_nil r)

/-- The whole number that a part of a text writes. -/
def level (part : List Char) : Except Fault Int := Number.wholeOf (String.ofList part)

/-- The levels between two ends, given as parts of a text.  A third part is read before it is refused. -/
def between (text : String) : List (List Char) → Except Fault (List Int)
  | first :: last :: more => do
    let a ← level first
    let b ← level last
    match more with
    | extra :: _ =>
      let _ ← level extra
      throw .extraPart
    | [] => if b < a then throw (.reversedRange text) else return upTo a b
  | _ => throw (.notWhole text)

/-- The levels that a text names. -/
def parse (text : String) : Except Fault (List Int) :=
  if text.toList.contains '-' then between text (cutAtDashes text.toList)
  else do
    let n ← Number.wholeOf text
    return [n]

/-- The tolerance of simplification in pixels. -/
def pixelTolerance {α : Type} [Scalar α] (zoom : Int) : α :=
  if 14 ≤ zoom then Scalar.ofNat 256 / Scalar.ofNat 4096 else Scalar.ofNat 1 / Scalar.ofNat 10

end BorderTiles.Zooms
