import BorderTiles.Proofs.Feature
import Mathlib.Logic.Function.Iterate

/-!
# Tags — names to display

A name is cleaned in three passes, each of them once from the left: the first takes out " at ", the
second blanks and the third `extentWord`.

* `Text.erase_eq_self_iff`: a pass for a word leaves a text as it is exactly if the word is not in it.
* `toList_cleanName_of_blankless`: in a text without blanks, as a clean name is one, the last pass
  alone finds anything.
* `cleanName_settles`: so a clean name is cleaned again without a change exactly if the word of the
  last pass is not in it, and repeated cleaning comes to rest.

The word can come back: what stood around it may join to the same word (`cleanName_not_idempotent`).
-/

namespace BorderTiles

/-! ### Words taken out of a text -/

namespace Text

/-- A text is left as it is exactly if the word is not in it. -/
theorem erase_eq_self_iff {w : List Char} (hw : w ≠ []) (s : List Char) :
    erase w s = s ↔ ¬ w <:+: s := by
  fun_induction erase w s with
  | case1 => simpa using hw
  | case2 c r hfound _ =>
      -- what is left of the text is shorter
      have hle : (erase w (r.drop (w.length - 1))).length ≤ r.length :=
        ((erase_sublist _ _).trans (List.drop_sublist _ _)).length_le
      have hne : erase w (r.drop (w.length - 1)) ≠ c :: r := by
        intro h
        rw [h, List.length_cons] at hle
        exact Nat.not_succ_le_self _ hle
      exact iff_of_false hne (not_not_intro (List.isPrefixOf_iff_prefix.mp hfound).isInfix)
  | case3 c r hother ih =>
      have hother : ¬ w <+: c :: r := mt List.isPrefixOf_iff_prefix.mpr hother
      rw [List.cons_inj_right, ih, List.infix_cons_iff, or_iff_right hother]

/-- A word is not in a text that lacks one of its characters. -/
theorem erase_eq_self_of_notMem {w s : List Char} {c : Char} (hw : c ∈ w) (hs : c ∉ s) :
    erase w s = s :=
  (erase_eq_self_iff (List.ne_nil_of_mem hw) s).mpr fun h => hs (h.subset hw)

end Text

/-! ### Clean names -/

/-- The word that the last pass takes out. -/
def extentWord : List Char := "Extentof".toList

/-- In a text without blanks only the last pass finds anything. -/
theorem toList_cleanName_of_blankless {name : String}
    (h : ∀ c ∈ name.toList, Text.isAsciiBlank c = false) :
    (cleanName name).toList = Text.erase extentWord name.toList := by
  have hspace : ' ' ∉ name.toList := fun hmem => absurd (h ' ' hmem) (by decide)
  have hjoined : Text.erase " at ".toList name.toList = name.toList :=
    Text.erase_eq_self_of_notMem (by decide) hspace
  have hfilter : name.toList.filter (!Text.isAsciiBlank ·) = name.toList :=
    List.filter_eq_self.mpr fun c hc => by rw [h c hc]; rfl
  rw [cleanName, hjoined, hfilter, String.toList_ofList]
  rfl

/-- Cleaning adds nothing to a name. -/
theorem toList_cleanName_sublist (name : String) : (cleanName name).toList.Sublist name.toList := by
  rw [cleanName, String.toList_ofList]
  exact (Text.erase_sublist _ _).trans (List.filter_sublist.trans (Text.erase_sublist _ _))

theorem isAsciiBlank_of_mem_cleanName {name : String} {c : Char} (hc : c ∈ (cleanName name).toList) :
    Text.isAsciiBlank c = false :=
  Bool.eq_false_iff.mpr fun hblank => notMem_cleanName hblank name hc

/-- A name that cleaning changes gets shorter. -/
theorem length_cleanName_lt {name : String} (h : cleanName name ≠ name) :
    (cleanName name).toList.length < name.toList.length := by
  have hsub := toList_cleanName_sublist name
  refine Nat.lt_of_le_of_ne hsub.length_le fun hlength => h ?_
  exact String.toList_inj.mp (hsub.eq_of_length hlength)

/-- Cleaning a name again and again comes to rest after no more steps than it has characters. -/
theorem exists_cleanName_rest (name : String) : ∃ n ≤ name.toList.length,
    cleanName (cleanName^[n] name) = cleanName^[n] name := by
  by_cases hrest : cleanName name = name
  · exact ⟨0, Nat.zero_le _, hrest⟩
  · have hshorter := length_cleanName_lt hrest
    obtain ⟨n, hn, h⟩ := exists_cleanName_rest (cleanName name)
    exact ⟨n + 1, Nat.succ_le_of_lt (Nat.lt_of_le_of_lt hn hshorter), h⟩
termination_by name.toList.length

/-- **Cleaning a clean name** changes nothing exactly if the name is free of the word of the last pass;
and by further cleaning every name comes to rest. -/
theorem cleanName_settles (name : String) :
    (cleanName (cleanName name) = cleanName name ↔ ¬ extentWord <:+: (cleanName name).toList) ∧
      ∃ n ≤ name.toList.length, cleanName (cleanName^[n] name) = cleanName^[n] name := by
  refine ⟨?_, exists_cleanName_rest name⟩
  rw [← String.toList_inj,
    toList_cleanName_of_blankless fun _ hc => isAsciiBlank_of_mem_cleanName hc]
  exact Text.erase_eq_self_iff (by decide) _

/-- Of one "Extentof" inside another the inner one is taken out, and the outer one is there then. -/
theorem cleanName_not_idempotent : cleanName "ExtExtentofentof" = "Extentof" ∧
    cleanName (cleanName "ExtExtentofentof") ≠ cleanName "ExtExtentofentof" := by
  decide +kernel

end BorderTiles
