import BorderTiles.Relation
import BorderTiles.Proofs.Table

/-!
# Relation — records and codes

What an accepted relation satisfies, and what entering relations does to the table of codes.

* `level_of_ofTags?`: the level of an accepted relation is one of `2 … 10`.
* `holds_enter`: a relation with a code keeps it; nothing is removed.
* `Spelled`: every code in the table is a text.  `Spelled.enter` keeps it, since only a relation with
  a code is entered.
-/

namespace BorderTiles

namespace Relation

/-- What the tags of an accepted relation give. -/
theorem ofTags?_eq_some {id : Int} {tags : Tags} {r : Relation} (h : ofTags? id tags = some r) :
    r.id = id ∧ minLevel ≤ r.level ∧ r.level ≤ maxLevel ∧ r.code = tags.text? codeTag := by
  rw [ofTags?] at h
  split at h
  · cases h
  · split at h
    · cases h
    · next level _ =>
        split at h
        · next hl =>
            rw [Bool.and_eq_true, decide_eq_true_iff, decide_eq_true_iff] at hl
            cases h
            exact ⟨rfl, hl.1, hl.2, rfl⟩
        · cases h

/-- The tags of an administrative boundary. -/
def adminTags (level : String) (code : Option String) : Tags :=
  .ofList [("type", some "boundary"), ("boundary", some "administrative"),
    ("admin_level", some level), (codeTag, code)]

theorem level_of_ofTags? {id : Int} {tags : Tags} {r : Relation} (h : ofTags? id tags = some r) :
    2 ≤ r.level ∧ r.level ≤ 10 :=
  ⟨(ofTags?_eq_some h).2.1, (ofTags?_eq_some h).2.2.1⟩

end Relation

namespace CountryCodes

theorem holds_iff {codes : CountryCodes} {id : Int} :
    codes.holds id = true ↔ ∃ code, codes.get? (some id) = some code := by
  rw [holds, Table.contains, Option.isSome_iff_exists]

/-- Entering a relation takes no code away. -/
theorem holds_enter {codes : CountryCodes} {a : Int} (h : codes.holds a = true) (id : Int)
    (tags : Tags) : (Relation.enter id tags codes).2.holds a = true := by
  obtain ⟨code, hc⟩ := holds_iff.mp h
  rw [Relation.enter]
  split
  · exact h
  · dsimp only
    split
    · exact holds_iff.mpr ⟨code, Table.get?_putNew_of_some hc⟩
    · exact h

/-- Every code of the table is a text. -/
def Spelled (codes : CountryCodes) : Prop := ∀ id code, codes.get? id = some code → code.isSome

theorem spelled_empty : Spelled ∅ := fun _ _ h => by cases h

theorem Spelled.enter {codes : CountryCodes} (h : codes.Spelled) (id : Int) (tags : Tags) :
    Spelled (Relation.enter id tags codes).2 := by
  rw [Relation.enter]
  split
  · exact h
  · next r _ =>
      dsimp only
      split
      · next hr =>
          -- an older code stays, and only a relation with a code is entered
          refine Table.forall_update h ?_
          cases hg : codes.get? (some id) with
          | none => exact hr
          | some code => exact h _ code hg
      · exact h

/-- A relation in a table of texts has a code. -/
theorem Spelled.code?_of_holds {codes : CountryCodes} (h : codes.Spelled) {id : Int}
    (hid : codes.holds id = true) : ∃ code, codes.get? (some id) = some (some code) ∧
      codes.code? (some id) = some code := by
  obtain ⟨entry, he⟩ := holds_iff.mp hid
  obtain ⟨code, rfl⟩ := Option.isSome_iff_exists.mp (h _ _ he)
  exact ⟨code, he, by simp [code?, he]⟩

end CountryCodes
end BorderTiles
