import BorderTiles.Number.Numeral
import Mathlib.Data.List.TakeWhile
import Mathlib.Tactic.IntervalCases

/-!
# Number — whole numbers in text

* `sign_of_dashless`: only a dash makes a number negative, and no other character is read as a dash.
  So `wholeOf` reads no negative number where there is none (`wholeOf_nonneg`).
* `Writes s n`: the text `s` writes `n` in decimal digits, which are not too many to be read.
  `writes_toString`: so does the decimal text of a number.  `Writes.wholeOf_eq`: a number that is written
  is read.
* `kind_of_wholeOf`: a text that writes no whole number is a fault of its value.
-/

namespace BorderTiles
open Text

namespace Text

theorem digit?_lt {c : Char} {d : Nat} (h : digit? c = some d) : d < 10 := by
  obtain ⟨z, hz, rfl⟩ := Option.map_eq_some_iff.mp h
  have hrange := Array.find?_some hz
  simp only [Bool.and_eq_true, decide_eq_true_eq] at hrange
  omega

theorem ofDigit_ne_dash {d : Nat} (h : d < 10) : ofDigit d ≠ '-' := by
  interval_cases d <;> decide

theorem mem_of_mem_trim {p : Char → Bool} {s : List Char} {c : Char} (h : c ∈ trim p s) : c ∈ s := by
  rw [trim, List.mem_reverse] at h
  have hright := List.mem_reverse.mp ((List.dropWhile_suffix p).subset h)
  exact (List.dropWhile_suffix p).subset hright

end Text

namespace Number

/-! ### Signs -/

/-- Only a dash is read as a dash. -/
theorem plain_eq_dash {c : Char} (h : plain c = '-') : c = '-' := by
  unfold plain at h
  split at h
  · exact h
  · split at h
    · exact absurd h (by decide)
    · cases hd : digit? c with
      | none => rwa [hd] at h
      | some d =>
          rw [hd] at h
          exact absurd h (ofDigit_ne_dash (digit?_lt hd))

theorem splitSign_of_dashless {s : List Char} (h : '-' ∉ s) : (splitSign s).1 = false := by
  unfold splitSign
  split
  · exact absurd List.mem_cons_self h
  · rfl
  · rfl

/-- **A text without a dash has no negative sign.** -/
theorem sign_of_dashless {text : String} (h : '-' ∉ text.toList) :
    (splitSign (trim isAsciiBlank (text.toList.map plain))).1 = false := by
  refine splitSign_of_dashless fun hmem => h ?_
  obtain ⟨c, hc, hdash⟩ := List.mem_map.mp (mem_of_mem_trim hmem)
  rwa [plain_eq_dash hdash] at hc

theorem wholeOf_nonneg {text : String} {n : Int} (hdash : '-' ∉ text.toList)
    (h : wholeOf text = .ok n) : 0 ≤ n := by
  simp only [wholeOf, sign_of_dashless hdash] at h
  split at h
  · cases h
  split at h
  · cases h
  split at h
  · cases h
  · cases h
    exact Int.natCast_nonneg _

/-- A text that is refused has a wrong value. -/
theorem kind_of_wholeOf {text : String} {fault : Fault} (h : wholeOf text = .error fault) :
    fault.kind = .value := by
  simp only [wholeOf] at h
  split at h
  · cases h
    rfl
  split at h
  · cases h
    rfl
  split at h
  · cases h
    rfl
  · cases h

/-! ### Digits -/

/-- The text writes the number in decimal digits, and no more of them than are read. -/
structure Writes (s : String) (n : Nat) : Prop where
  nonempty : s.toList ≠ []
  digits : ∀ c ∈ s.toList, c.isDigit
  short : s.toList.length ≤ Fault.maxDigits
  value : Nat.ofDigitChars 10 s.toList 0 = n

/-- The decimal text of a number writes it. -/
theorem writes_toString {n : Nat} (h : (toString n).length ≤ Fault.maxDigits) :
    Writes (toString n) n := by
  have hlist : (toString n).toList = Nat.toDigits 10 n := Nat.toList_repr
  exact {
    nonempty := by
      rw [hlist]
      exact Nat.toDigits_ne_nil
    digits := by
      rw [hlist]
      exact fun c hc => Nat.isDigit_of_mem_toDigits (by decide) (by decide) hc
    short := h
    value := by
      rw [hlist]
      exact Nat.ofDigitChars_toDigits (by decide) (by decide) }

theorem toNat_of_isDigit {c : Char} (h : c.isDigit) : 48 ≤ c.toNat ∧ c.toNat ≤ 57 := by
  simpa [Char.isDigit, UInt32.le_iff_toNat_le] using h

theorem plain_of_isDigit {c : Char} (h : c.isDigit) : plain c = c := by
  have := toNat_of_isDigit h
  exact if_pos (by omega)

theorem isAsciiBlank_of_isDigit {c : Char} (h : c.isDigit) : isAsciiBlank c = false := by
  have hrange := toNat_of_isDigit h
  have hspace : c ≠ ' ' := by
    rintro rfl
    exact absurd h (by decide)
  simp only [isAsciiBlank, Bool.or_eq_false_iff, Bool.and_eq_false_iff, decide_eq_false_iff_not,
    beq_eq_false_iff_ne]
  exact ⟨hspace, .inr (by omega)⟩

theorem splitSign_of_digits {s : List Char} (h : ∀ c ∈ s, c.isDigit) : splitSign s = (false, s) := by
  unfold splitSign
  split
  · exact absurd (h _ List.mem_cons_self) (by decide)
  · exact absurd (h _ List.mem_cons_self) (by decide)
  · rfl

theorem underscoresApart_of_digits {s : List Char} (h : ∀ c ∈ s, c.isDigit) (before : Bool) :
    underscoresApart before s = true := by
  induction s generalizing before with
  | nil => rfl
  | cons c r ih =>
      obtain ⟨hc, hr⟩ := List.forall_mem_cons.mp h
      unfold underscoresApart
      split
      · rfl
      · next heq =>
          cases heq
          exact absurd hc (by decide)
      · next heq =>
          cases heq
          exact ih hr _

/-- **A number that is written is read.** -/
theorem Writes.wholeOf_eq {s : String} {n : Nat} (h : Writes s n) : wholeOf s = .ok n := by
  have hplain : s.toList.map plain = s.toList := by
    calc s.toList.map plain = s.toList.map id :=
          List.map_congr_left fun c hc => plain_of_isDigit (h.digits c hc)
      _ = s.toList := List.map_id _
  have htrim : trim isAsciiBlank s.toList = s.toList :=
    trim_eq_self fun c hc => isAsciiBlank_of_isDigit (h.digits c hc)
  have hrun : s.toList.takeWhile (fun c => c.isDigit || c == '_') = s.toList :=
    List.takeWhile_eq_self_iff.mpr fun c hc => by rw [h.digits c hc, Bool.true_or]
  have hfilter : s.toList.filter Char.isDigit = s.toList := List.filter_eq_self.mpr h.digits
  have hempty : s.toList.isEmpty = false := by simpa using h.nonempty
  have hvalue : valueOf s.toList = n := h.value
  simp only [wholeOf, hplain, htrim, splitSign_of_digits h.digits, hrun, hfilter, hempty,
    underscoresApart_of_digits h.digits, hvalue, Nat.not_lt.mpr h.short, Nat.lt_irrefl, if_false,
    Bool.not_true, Bool.or_false, Bool.false_eq_true]

end Number
end BorderTiles
