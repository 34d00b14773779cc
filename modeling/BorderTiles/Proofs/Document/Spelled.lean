import BorderTiles.Document.Value

/-!
# Document — values without a text

Only one kind of value has no text: those that are `Value.Long`, that is, are or hold a whole number with
too many digits.  `SpelledUnless p` says of a result that it is there, or else that `p` and the result is
the fault of such a number; `SpelledUnless.map` and `SpelledUnless.pair` carry it through the steps of the
printer.  `spelled_spec`: a value has a text unless it is long.
-/

namespace BorderTiles.Value

/-- A value that is, or holds, a whole number with too many digits. -/
inductive Long : Value → Prop
  | whole {n : Int} (h : digitLimit ≤ n.natAbs) : Long (.number (.whole n))
  | item {items : List Value} {v : Value} (hv : v ∈ items) (h : Long v) : Long (.list items)
  | field {fields : List (String × Value)} {e : String × Value} (he : e ∈ fields) (h : Long e.2) :
      Long (.object fields)

theorem long_whole_iff {n : Int} : Long (.number (.whole n)) ↔ digitLimit ≤ n.natAbs :=
  ⟨fun | .whole h => h, .whole⟩

theorem long_list_iff {items : List Value} : Long (.list items) ↔ ∃ v ∈ items, Long v :=
  ⟨fun | .item hv h => ⟨_, hv, h⟩, fun ⟨_, hv, h⟩ => .item hv h⟩

theorem long_object_iff {fields : List (String × Value)} :
    Long (.object fields) ↔ ∃ e ∈ fields, Long e.2 :=
  ⟨fun | .field he h => ⟨_, he, h⟩, fun ⟨_, he, h⟩ => .field he h⟩

/-! ### The text of a value -/

/-- A result that is there unless `long`; then a whole number has too many digits. -/
def SpelledUnless {σ : Type} (long : Prop) (result : Except Fault σ) : Prop :=
  (long ∧ result = .error .longWhole) ∨ (¬ long ∧ ∃ s, result = .ok s)

namespace SpelledUnless
variable {σ τ μ : Type} {p q : Prop} {m : Except Fault σ} {n : Except Fault τ}

theorem congr (h : SpelledUnless p m) (hpq : p ↔ q) : SpelledUnless q m := by
  rwa [SpelledUnless, ← hpq]

theorem of_ok {s : σ} (hp : ¬ p) : SpelledUnless p (.ok s : Except Fault σ) := .inr ⟨hp, s, rfl⟩

theorem map (f : σ → μ) (h : SpelledUnless p m) : SpelledUnless p (m >>= fun s => pure (f s)) := by
  rcases h with ⟨hp, rfl⟩ | ⟨hp, s, rfl⟩
  · exact .inl ⟨hp, rfl⟩
  · exact .inr ⟨hp, f s, rfl⟩

theorem pair (f : σ → τ → μ) (h : SpelledUnless p m) (h' : SpelledUnless q n) :
    SpelledUnless (p ∨ q) (m >>= fun s => n >>= fun t => pure (f s t)) := by
  rcases h with ⟨hp, rfl⟩ | ⟨hp, s, rfl⟩
  · exact .inl ⟨.inl hp, rfl⟩
  · exact (h'.map (f s)).congr (or_iff_right hp).symm

end SpelledUnless

mutual

/-- The form of a value is there unless the value is long. -/
theorem shown_spec : ∀ v : Value, SpelledUnless v.Long v.shown
  | .null | .bool _ | .text _ => .of_ok nofun
  | .number (.binary _) => .of_ok nofun
  | .number (.whole n) => by
      rw [shown, numberText, SpelledUnless, long_whole_iff]
      split
      · next hlong => exact .inl ⟨hlong, rfl⟩
      · next hlong => exact .inr ⟨hlong, _, rfl⟩
  | .list items => by
      rw [shown]
      exact ((shownItems_spec items).map _).congr long_list_iff.symm
  | .object fields => by
      rw [shown]
      exact ((shownFields_spec fields).map _).congr long_object_iff.symm

theorem shownItems_spec : ∀ items : List Value,
    SpelledUnless (∃ v ∈ items, Long v) (shownItems items)
  | [] => .of_ok (by simp)
  | v :: rest => by
      rw [shownItems]
      exact ((shown_spec v).pair List.cons (shownItems_spec rest)).congr
        (by simp only [List.mem_cons, exists_eq_or_imp])

theorem shownFields_spec : ∀ fields : List (String × Value),
    SpelledUnless (∃ e ∈ fields, Long e.2) (shownFields fields)
  | [] => .of_ok (by simp)
  | (name, v) :: rest => by
      rw [shownFields]
      exact ((shown_spec v).pair _ (shownFields_spec rest)).congr
        (by simp only [List.mem_cons, exists_eq_or_imp])

end

/-- **The text of a value** is there unless the value is long. -/
theorem spelled_spec (v : Value) : SpelledUnless v.Long v.spelled := by
  cases v with
  | text s => exact .of_ok nofun
  | null | bool | number | list | object => exact shown_spec _

end BorderTiles.Value
