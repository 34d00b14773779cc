import BorderTiles.Settings

/-!
# Settings — which values can be entered

Settings are entered from an object, from a list of pairs or from a text, which has no pairs.

* `Misshapen`: values that hold no settings because of their type: no collection at all, or a list that
  `Breaks` at an element that is no sequence or gives something compound for a name.
* `mergePairs_cases`, `merge_cases`: the fault of a misshapen value is one of a wrong type; any other
  value is entered, or its fault is one of a wrong value.
-/

namespace BorderTiles

/-- Whether a value has parts, so that it cannot be a name or be told apart from others. -/
def Value.compound : Value → Bool
  | .list _ | .object _ => true
  | _ => false

namespace Settings

/-- A pair of what can be a name and a value. -/
def Pair (v : Value) : Prop := ∃ name value, items? v = some [name, value] ∧ name.compound = false

/-- A value that is no sequence, or a pair with something compound for a name. -/
def Mistyped (v : Value) : Prop :=
  items? v = none ∨ ∃ name value, items? v = some [name, value] ∧ name.compound = true

/-- A list of which the first element that is no pair is of the wrong type. -/
inductive Breaks : List Value → Prop
  | here {v : Value} {rest : List Value} : Mistyped v → Breaks (v :: rest)
  | later {v : Value} {rest : List Value} : Pair v → Breaks rest → Breaks (v :: rest)

/-- A value that holds no settings because of its type. -/
def Misshapen (v : Value) : Prop := items? v = none ∨ ∃ items, v = .list items ∧ Breaks items

/-! ### Pairs -/

theorem enterPair_ok (s : Settings) {name : Value} (h : name.compound = false) (value : Value) :
    ∃ s', s.enterPair name value = .ok s' := by
  cases name with
  | list | object => cases h
  | null | bool | number | text => exact ⟨_, rfl⟩

theorem enterPair_compound (s : Settings) {name : Value} (h : name.compound = true) (value : Value) :
    s.enterPair name value = .error (.notKey name.typeName) := by
  cases name with
  | list | object => rfl
  | null | bool | number | text => cases h

theorem not_mistyped_of_pair {v : Value} (h : Pair v) : ¬ Mistyped v := by
  obtain ⟨name, value, hitems, hname⟩ := h
  rintro (hnone | ⟨name', value', hitems', hname'⟩)
  · cases hitems.symm.trans hnone
  · cases hitems.symm.trans hitems'
    cases hname.symm.trans hname'

/-- A list breaks at its first element, or that is a pair and the others break. -/
theorem breaks_cons {v : Value} {rest : List Value} :
    Breaks (v :: rest) ↔ Mistyped v ∨ Pair v ∧ Breaks rest := by
  constructor
  · rintro (hv | ⟨hv, hrest⟩)
    · exact .inl hv
    · exact .inr ⟨hv, hrest⟩
  · rintro (hv | ⟨hv, hrest⟩)
    · exact .here hv
    · exact .later hv hrest

/-- What the first element of a list of pairs does to it. -/
theorem mergePairs_cons (index : Nat) (s : Settings) (v : Value) (rest : List Value) :
    (Pair v ∧ ∃ s', mergePairs index s (v :: rest) = mergePairs (index + 1) s' rest) ∨
      (Mistyped v ∧ ∃ fault, mergePairs index s (v :: rest) = .error fault ∧ fault.kind = .type) ∨
      (¬ Mistyped v ∧ ¬ Pair v ∧
        ∃ fault, mergePairs index s (v :: rest) = .error fault ∧ fault.kind = .value) := by
  rw [mergePairs]
  split
  · next hitems => exact .inr (.inl ⟨.inl hitems, _, rfl, rfl⟩)
  · next name value hitems =>
      cases hname : name.compound with
      | false =>
          obtain ⟨s', hs'⟩ := s.enterPair_ok hname value
          exact .inl ⟨⟨name, value, hitems, hname⟩, s', by rw [hs']; rfl⟩
      | true =>
          refine .inr (.inl ⟨.inr ⟨name, value, hitems, hname⟩, .notKey name.typeName, ?_, rfl⟩)
          rw [s.enterPair_compound hname]
          rfl
  · next items hother hitems =>
      have hlength : ¬ ∃ name value, items? v = some [name, value] := by
        rintro ⟨name, value, hpair⟩
        exact hother name value (Option.some.inj (hitems.symm.trans hpair))
      refine .inr (.inr ⟨?_, ?_, _, rfl, rfl⟩)
      · rintro (hnone | ⟨name, value, hpair, -⟩)
        · cases hitems.symm.trans hnone
        · exact hlength ⟨name, value, hpair⟩
      · rintro ⟨name, value, hpair, -⟩
        exact hlength ⟨name, value, hpair⟩

/-- **A list of pairs** is entered, or it breaks, or one of its elements has another length. -/
theorem mergePairs_cases (items : List Value) (index : Nat) (s : Settings) :
    (Breaks items ∧ ∃ fault, mergePairs index s items = .error fault ∧ fault.kind = .type) ∨
      (¬ Breaks items ∧ ((∃ s', mergePairs index s items = .ok s') ∨
        ∃ fault, mergePairs index s items = .error fault ∧ fault.kind = .value)) := by
  induction items generalizing index s with
  | nil => exact .inr ⟨nofun, .inl ⟨s, rfl⟩⟩
  | cons v rest ih =>
      rw [breaks_cons]
      rcases mergePairs_cons index s v rest with
        ⟨hpair, s', hs'⟩ | ⟨hmistyped, hfault⟩ | ⟨hmistyped, hpair, hfault⟩
      · -- the first element is entered, so the others decide
        rw [hs']
        have hfirst := not_mistyped_of_pair hpair
        simpa only [hfirst, hpair, false_or, true_and] using ih (index + 1) s'
      · exact .inl ⟨.inl hmistyped, hfault⟩
      · refine .inr ⟨?_, .inr hfault⟩
        rintro (h | ⟨h, -⟩)
        · exact hmistyped h
        · exact hpair h

/-! ### Values -/

/-- A text has single characters for elements, and none of them is a pair. -/
theorem mergePairs_text (s : Settings) (t : String) (items : List Value)
    (h : items? (.text t) = some items) : (∃ s', mergePairs 0 s items = .ok s') ∨
      ∃ fault, mergePairs 0 s items = .error fault ∧ fault.kind = .value := by
  cases h
  cases t.toList with
  | nil => exact .inl ⟨s, rfl⟩
  | cons c rest =>
      refine .inr ⟨.notPair 0 1, ?_, rfl⟩
      have hitems : items? (.text (String.singleton c)) = some [.text (String.singleton c)] := by
        simp [items?]
      rw [List.map_cons, mergePairs, hitems]
      rfl

/-- **What a value holds is entered**, or it is misshapen and its fault is one of a wrong type, or its
fault is one of a wrong value. -/
theorem merge_cases (s : Settings) (v : Value) :
    (Misshapen v ∧ ∃ fault, s.merge v = .error fault ∧ fault.kind = .type) ∨
      (¬ Misshapen v ∧ ((∃ s', s.merge v = .ok s') ∨
        ∃ fault, s.merge v = .error fault ∧ fault.kind = .value)) := by
  cases v with
  | null | bool | number => exact .inl ⟨.inl rfl, _, rfl, rfl⟩
  | text t =>
      refine .inr ⟨?_, mergePairs_text s t _ rfl⟩
      rintro (h | ⟨items, h, -⟩) <;> cases h
  | object fields =>
      refine .inr ⟨?_, .inl ⟨_, rfl⟩⟩
      rintro (h | ⟨items, h, -⟩) <;> cases h
  | list items =>
      have hmisshapen : Misshapen (.list items) ↔ Breaks items := by
        constructor
        · rintro (h | ⟨items, h, hbreaks⟩) <;> cases h
          exact hbreaks
        · exact fun h => .inr ⟨items, rfl, h⟩
      rw [hmisshapen]
      exact mergePairs_cases items 0 s

end Settings
end BorderTiles
