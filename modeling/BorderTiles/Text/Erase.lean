/-!
# Text — Erase

Removing every occurrence of a word.  `erase w s` reads `s` from the left, drops each occurrence of
the non-empty word `w` that it meets and goes on behind it: occurrences do not overlap, and one that
only arises by a removal stays.
-/

namespace BorderTiles.Text

/-- `s` without the occurrences of `w` found from the left. -/
def erase (w : List Char) : (s : List Char) → List Char
  | [] => []
  | c :: r =>
    if w.isPrefixOf (c :: r) then erase w (r.drop (w.length - 1)) else c :: erase w r
termination_by s => s.length
decreasing_by all_goals simp; try omega

/-- Nothing is added: what is left is part of the text, in order. -/
theorem erase_sublist (w s : List Char) : (erase w s).Sublist s := by
  fun_induction erase w s with
  | case1 => exact .slnil
  | case2 c r _ ih => exact (ih.trans (List.drop_sublist _ _)).cons c
  | case3 c r _ ih => exact ih.cons_cons c

end BorderTiles.Text
