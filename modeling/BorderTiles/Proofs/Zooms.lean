import BorderTiles.Proofs.Number.Numeral
import BorderTiles.Proofs.Results
import BorderTiles.Zooms
import Mathlib.Data.List.Chain

/-!
# Zooms — what a text names

* `Ascending`: levels that go up one by one from a natural number.
* `cutAtDashes_append`: a text is cut at its first dash.
* `between_cases`: parts without a dash name ascending levels, or they are refused.

`parse_names` adds which levels the decimal digits of one number, or of two, name.
-/

namespace BorderTiles.Zooms
open Number

/-- Levels that go up one by one from a natural number. -/
structure Ascending (levels : List Int) : Prop where
  nonempty : levels ≠ []
  consecutive : levels.IsChain fun m n => n = m + 1
  nonneg : ∀ n ∈ levels, 0 ≤ n

/-- From a natural number up to a second one. -/
theorem upTo_natCast (a b : Nat) : upTo a b = (List.range' a (b + 1 - a)).map Int.ofNat := by
  have hcount : ((b : Int) - a + 1).toNat = b + 1 - a := by omega
  rw [upTo, hcount, List.range'_eq_map_range, List.map_map]
  rfl

theorem ascending_range' (a n : Nat) : Ascending ((List.range' a (n + 1)).map Int.ofNat) where
  nonempty := by simp
  consecutive := by
    rw [List.isChain_map]
    exact (List.isChain_range' a (n + 1) 1).imp fun _ _ h => congrArg Int.ofNat h
  nonneg := by
    intro m hm
    obtain ⟨i, -, rfl⟩ := List.mem_map.mp hm
    exact Int.natCast_nonneg i

theorem ascending_upTo {a b : Int} (ha : 0 ≤ a) (hab : a ≤ b) : Ascending (upTo a b) := by
  obtain ⟨a, rfl⟩ := Int.eq_ofNat_of_zero_le ha
  obtain ⟨b, rfl⟩ := Int.eq_ofNat_of_zero_le (ha.trans hab)
  obtain ⟨n, hn⟩ : ∃ n, b + 1 - a = n + 1 := ⟨b - a, by omega⟩
  rw [upTo_natCast, hn]
  exact ascending_range' a n

/-! ### Dashes -/

theorem cutAtDashes_cons_of_ne {c : Char} {r part : List Char} {parts : List (List Char)}
    (hc : c ≠ '-') (h : cutAtDashes r = part :: parts) :
    cutAtDashes (c :: r) = (c :: part) :: parts := by
  unfold cutAtDashes
  rw [h]
  split
  · exact absurd rfl hc
  · next heq =>
      cases heq
      rfl
  · next heq => cases heq

theorem cutAtDashes_of_dashless {s : List Char} (h : '-' ∉ s) : cutAtDashes s = [s] := by
  induction s with
  | nil => rfl
  | cons c r ih =>
      exact cutAtDashes_cons_of_ne (fun hc => h (hc ▸ List.mem_cons_self))
        (ih fun hr => h (List.mem_cons_of_mem c hr))

/-- A text is cut at its first dash. -/
theorem cutAtDashes_append {s : List Char} (h : '-' ∉ s) (t : List Char) :
    cutAtDashes (s ++ '-' :: t) = s :: cutAtDashes t := by
  induction s with
  | nil => rfl
  | cons c r ih =>
      exact cutAtDashes_cons_of_ne (fun hc => h (hc ▸ List.mem_cons_self))
        (ih fun hr => h (List.mem_cons_of_mem c hr))

/-! ### What is named -/

theorem level_nonneg {part : List Char} {n : Int} (hdash : '-' ∉ part) (h : level part = .ok n) :
    0 ≤ n :=
  wholeOf_nonneg (by rwa [String.toList_ofList]) h

theorem between_pair {text : String} {first last : List Char} {a b : Int} (ha : level first = .ok a)
    (hb : level last = .ok b) : between text [first, last] =
      if b < a then .error (.reversedRange text) else .ok (upTo a b) := by
  rw [between, ha, hb]
  rfl

/-- A third part is read, but whatever it says it is too much. -/
theorem between_triple {text : String} {first last extra : List Char} {a b : Int}
    (ha : level first = .ok a) (hb : level last = .ok b) (more : List (List Char)) :
    between text (first :: last :: extra :: more) = level extra >>= fun _ => .error .extraPart := by
  rw [between, ha, hb]
  rfl

/-- **Parts without a dash** name ascending levels, or their text has a wrong value. -/
theorem between_cases {text : String} {parts : List (List Char)}
    (hdash : ∀ part ∈ parts, '-' ∉ part) :
    (∃ fault, between text parts = .error fault ∧ fault.kind = .value) ∨
      ∃ levels, between text parts = .ok levels ∧ Ascending levels := by
  match parts, hdash with
  | [], _ => exact .inl ⟨_, rfl, rfl⟩
  | [_], _ => exact .inl ⟨_, rfl, rfl⟩
  | first :: last :: more, hdash =>
      cases ha : level first with
      | error fault => exact .inl ⟨fault, by rw [between, ha]; rfl, kind_of_wholeOf ha⟩
      | ok a =>
      cases hb : level last with
      | error fault => exact .inl ⟨fault, by rw [between, ha, hb]; rfl, kind_of_wholeOf hb⟩
      | ok b =>
      cases more with
      | cons extra more =>
          rw [between_triple ha hb]
          cases hextra : level extra with
          | error fault => exact .inl ⟨fault, rfl, kind_of_wholeOf hextra⟩
          | ok c => exact .inl ⟨.extraPart, rfl, rfl⟩
      | nil =>
          rw [between_pair ha hb]
          split
          · exact .inl ⟨_, rfl, rfl⟩
          · next hba =>
              have hfirst := level_nonneg (hdash first List.mem_cons_self) ha
              exact .inr ⟨_, rfl, ascending_upTo hfirst (Int.not_lt.mp hba)⟩

theorem parse_of_dash {text : String} (h : '-' ∈ text.toList) :
    parse text = between text (cutAtDashes text.toList) :=
  if_pos (List.contains_iff_mem.mpr h)

theorem parse_of_dashless {text : String} (h : '-' ∉ text.toList) :
    parse text = (wholeOf text).map ([·]) := by
  refine (if_neg fun hmem => h (List.contains_iff_mem.mp hmem)).trans ?_
  cases wholeOf text <;> rfl

theorem parse_cases (text : String) : (∃ fault, parse text = .error fault ∧ fault.kind = .value) ∨
    ∃ levels, parse text = .ok levels ∧ Ascending levels := by
  by_cases hdash : '-' ∈ text.toList
  · rw [parse_of_dash hdash]
    exact between_cases fun part hpart => dash_notMem_cutAtDashes hpart
  · rw [parse_of_dashless hdash]
    cases hn : wholeOf text with
    | error fault => exact .inl ⟨fault, rfl, kind_of_wholeOf hn⟩
    | ok n =>
        refine .inr ⟨[n], rfl, List.cons_ne_nil n [], .singleton n, ?_⟩
        exact List.forall_mem_singleton.mpr (wholeOf_nonneg hdash hn)

theorem dash_notMem_of_writes {s : String} {n : Nat} (h : Writes s n) : '-' ∉ s.toList :=
  fun hdash => absurd (h.digits _ hdash) (by decide)

/-- Two numbers with a dash between them are the ends of a range. -/
theorem parse_of_writes {s t : String} {a b : Nat} (hs : Writes s a) (ht : Writes t b) :
    parse (s ++ "-" ++ t) =
      if b < a then .error (.reversedRange (s ++ "-" ++ t)) else .ok (upTo a b) := by
  have hlist : (s ++ "-" ++ t).toList = s.toList ++ '-' :: t.toList := by
    rw [String.toList_append, String.toList_append, List.append_assoc]
    rfl
  have hdash : '-' ∈ (s ++ "-" ++ t).toList := by
    rw [hlist]
    exact List.mem_append_right _ List.mem_cons_self
  have hcut : cutAtDashes (s ++ "-" ++ t).toList = [s.toList, t.toList] := by
    rw [hlist, cutAtDashes_append (dash_notMem_of_writes hs),
      cutAtDashes_of_dashless (dash_notMem_of_writes ht)]
  have ha : level s.toList = .ok (a : Int) := by rw [level, String.ofList_toList, hs.wholeOf_eq]
  have hb : level t.toList = .ok (b : Int) := by rw [level, String.ofList_toList, ht.wholeOf_eq]
  rw [parse_of_dash hdash, hcut, between_pair ha hb]
  simp only [Int.ofNat_lt]

/-- **A text names levels that go up one by one from a natural number, or it is refused.**  The decimal
digits of a number name it alone; those of two numbers, with a dash between them, name the levels from
the first to the second, and are refused if the second is smaller. -/
theorem parse_names :
    (∀ text, (∃ fault, parse text = .error fault ∧ fault.kind = .value) ∨
      ∃ levels, parse text = .ok levels ∧ Ascending levels) ∧
    (∀ (s : String) (a : Nat), Writes s a → parse s = .ok [(a : Int)]) ∧
    (∀ (s t : String) (a b : Nat), Writes s a → Writes t b →
      (a ≤ b → parse (s ++ "-" ++ t) = .ok ((List.range' a (b + 1 - a)).map Int.ofNat)) ∧
      (b < a → parse (s ++ "-" ++ t) = .error (.reversedRange (s ++ "-" ++ t)))) ∧
    ∀ n : Nat, (toString n).length ≤ 4300 → Writes (toString n) n := by
  refine ⟨parse_cases, fun s a hs => ?_, fun s t a b hs ht => ?_, fun n h => writes_toString h⟩
  · rw [parse_of_dashless (dash_notMem_of_writes hs), hs.wholeOf_eq]
    rfl
  · rw [parse_of_writes hs ht]
    exact ⟨fun hab => by rw [if_neg hab.not_gt, upTo_natCast], fun hba => if_pos hba⟩

/-- One level, a range and a range the wrong way round. -/
theorem parse_names_fourteen : Writes "14" 14 ∧ parse "14" = .ok [14] ∧
    parse "11-14" = .ok [11, 12, 13, 14] ∧ parse "14-3" = .error (.reversedRange "14-3") := by
  obtain ⟨-, hone, hrange, hwrites⟩ := parse_names
  have hthree := hwrites 3 (by decide)
  have heleven := hwrites 11 (by decide)
  have hfourteen := hwrites 14 (by decide)
  exact ⟨hfourteen, hone _ _ hfourteen, (hrange _ _ _ _ heleven hfourteen).1 (by decide),
    (hrange _ _ _ _ hfourteen hthree).2 (by decide)⟩

end BorderTiles.Zooms
