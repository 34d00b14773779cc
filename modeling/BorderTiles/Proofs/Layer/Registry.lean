import BorderTiles.Proofs.Layer.Visits
import BorderTiles.Proofs.Number.Rounding

/-!
# Layer — the relations and their codes

What the layer knows of relations is a function of the relations it has met.

* `Relation.ofTags?_eq_some_iff`: which tags are those of a relation, and its record.  The level is
  read as a binary number and rounded after a half was added, which gives the same as exact fractions.
* `accepted calls id` are the records that were made for an id, in their order.
  `get?_relations_enterRelations`: the last one is stored; `get?_codes_enterRelations`: of the codes,
  the first one.

`enterRelations_registry` puts this together.  As the records of one id do not depend on the relations
with other ids, the order of these does not matter.
-/

namespace BorderTiles

/-- The binary number that the level of tags writes, if it is finite. -/
def Tags.readLevel? (tags : Tags) : Option Number.Binary :=
  (tags.text? "admin_level").bind fun text =>
    (Number.extendedOf? (String.ofList (Text.trim Text.isBlank text.toList))).bind
      Number.Extended.finite?

/-- Its exact value. -/
def Tags.level? (tags : Tags) : Option ℚ := tags.readLevel?.map Number.Binary.toRat

/-- The record of a relation with a level. -/
def Tags.record (tags : Tags) (id level : Int) : Relation where
  id := id
  level := level
  disputed := tags.isDisputed
  name := tags.text? "name"
  claimedBy := if tags.isDisputed then tags.text? "claimed_by" else none
  code := tags.text? Relation.codeTag

theorem Tags.rounded?_level (tags : Tags) :
    (Value.ofText? (tags.text? "admin_level")).rounded? =
      tags.readLevel?.map fun b => b.plusHalf.floor := by
  rw [readLevel?]
  cases tags.text? "admin_level" with
  | none => rfl
  | some text =>
      simp only [Value.ofText?, Value.rounded?, Value.spelled, Except.toOption, Option.bind_some,
        Option.bind_eq_bind, Option.pure_def, Option.map_eq_bind, Option.bind_assoc,
        Function.comp_def]

theorem Tags.fits_of_readLevel? {tags : Tags} {b : Number.Binary} (h : tags.readLevel? = some b) :
    b.Fits := by
  obtain ⟨text, -, hread⟩ := Option.bind_eq_some_iff.mp h
  exact Number.fits_of_extendedOf? hread

/-- A level is in range if its exact value is, and then it is the exact one. -/
theorem Number.Binary.Fits.level_iff {b : Binary} (hb : b.Fits) {level : Int} :
    (b.plusHalf.floor = level ∧ 2 ≤ level ∧ level ≤ 10) ↔
      3 / 2 ≤ b.toRat ∧ b.toRat < 21 / 2 ∧ level = ⌊b.toRat + 1 / 2⌋ := by
  have htwo : (2 : Int) ≤ b.plusHalf.floor ↔ 3 / 2 ≤ b.toRat := by
    rw [← Nat.cast_two, le_floor_plusHalf hb le_rfl (by decide)]
    push_cast
    constructor <;> intro <;> linarith
  have heleven : ((11 : Nat) : Int) ≤ b.plusHalf.floor ↔ 21 / 2 ≤ b.toRat := by
    rw [le_floor_plusHalf hb (by decide) (by decide)]
    push_cast
    constructor <;> intro <;> linarith
  constructor
  · rintro ⟨rfl, hlow, hhigh⟩
    have hbelow : b.toRat < 21 / 2 := by
      rw [← not_le, ← heleven]
      omega
    exact ⟨htwo.mp hlow, hbelow, floor_plusHalf hb (htwo.mp hlow) (by linarith)⟩
  · rintro ⟨hlow, hhigh, rfl⟩
    have hfloor := floor_plusHalf hb hlow (by linarith)
    rw [← not_le, ← heleven, hfloor] at hhigh
    rw [← htwo, hfloor] at hlow
    exact ⟨hfloor, hlow, by omega⟩

/-- **The level of tags**: the number they write, to the nearest whole one, halves going up. -/
theorem Tags.rounded_level {tags : Tags} {level : Int} :
    ((Value.ofText? (tags.text? "admin_level")).rounded? = some level ∧ 2 ≤ level ∧ level ≤ 10) ↔
      ∃ x, tags.level? = some x ∧ 3 / 2 ≤ x ∧ x < 21 / 2 ∧ level = ⌊x + 1 / 2⌋ := by
  rw [rounded?_level, level?]
  cases hread : tags.readLevel? with
  | none => simp
  | some b => simpa using (fits_of_readLevel? hread).level_iff

namespace Relation

/-- **Which tags are those of a relation**, and the record that they make. -/
theorem ofTags?_eq_some_iff {id : Int} {tags : Tags} {r : Relation} : ofTags? id tags = some r ↔
    tags.text? "type" = some "boundary" ∧ tags.text? "boundary" = some "administrative" ∧
      ∃ x, tags.level? = some x ∧ 3 / 2 ≤ x ∧ x < 21 / 2 ∧ r = tags.record id ⌊x + 1 / 2⌋ := by
  have hlevel : (∃ x, tags.level? = some x ∧ 3 / 2 ≤ x ∧ x < 21 / 2 ∧
      r = tags.record id ⌊x + 1 / 2⌋) ↔ ∃ level,
        (Value.ofText? (tags.text? "admin_level")).rounded? = some level ∧
          (minLevel ≤ level ∧ level ≤ maxLevel) ∧ r = tags.record id level := by
    constructor
    · rintro ⟨x, hx, hlow, hhigh, rfl⟩
      obtain ⟨hround, hmem⟩ := Tags.rounded_level.mpr ⟨x, hx, hlow, hhigh, rfl⟩
      exact ⟨_, hround, hmem, rfl⟩
    · rintro ⟨level, hround, hmem, rfl⟩
      obtain ⟨x, hx, hlow, hhigh, rfl⟩ := Tags.rounded_level.mp ⟨hround, hmem⟩
      exact ⟨x, hx, hlow, hhigh, rfl⟩
  rw [hlevel, ofTags?]
  by_cases htype : tags.text? "type" = some "boundary"
  · by_cases hboundary : tags.text? "boundary" = some "administrative"
    · simp only [htype, hboundary, ne_eq, not_true_eq_false, decide_false, Bool.or_self,
        Bool.false_eq_true, if_false, true_and]
      cases (Value.ofText? (tags.text? "admin_level")).rounded? with
      | none => simp
      | some level =>
          by_cases hmem : minLevel ≤ level ∧ level ≤ maxLevel
          · simp only [hmem, decide_true, Bool.and_self, if_true, Option.some.injEq, true_and,
              exists_eq_left']
            exact eq_comm
          · simp [hmem]
    · simp [hboundary]
  · simp [htype]

end Relation

namespace Layer
variable {α : Type}

/-! ### One relation -/

/-- The records of the relations with an id, in the order in which they were met. -/
def accepted (calls : List (Int × Tags)) (id : Int) : List Relation :=
  (calls.filter (·.1 = id)).filterMap fun c => Relation.ofTags? c.1 c.2

theorem accepted_cons (c : Int × Tags) (rest : List (Int × Tags)) (id : Int) :
    accepted (c :: rest) id =
      (if c.1 = id then Relation.ofTags? c.1 c.2 else none).toList ++ accepted rest id := by
  by_cases h : c.1 = id
  · rw [accepted, List.filter_cons_of_pos (by simpa using h), List.filterMap_cons, if_pos h]
    cases Relation.ofTags? c.1 c.2 <;> rfl
  · rw [accepted, List.filter_cons_of_neg (by simpa using h), if_neg h]
    rfl

theorem get?_relations_enterRelation (layer : Layer α) (id a : Int) (tags : Tags) :
    (layer.enterRelation id tags).2.relations.get? a =
      (if id = a then Relation.ofTags? id tags else none).or (layer.relations.get? a) := by
  rw [enterRelation, Relation.enter]
  cases Relation.ofTags? id tags with
  | none => simp
  | some r =>
      rw [Table.get?_put]
      by_cases h : id = a
      · simp [h]
      · simp [h, Ne.symm h]

theorem get?_codes_enterRelation (layer : Layer α) (id : Int) (a : Option Int) (tags : Tags) :
    (layer.enterRelation id tags).2.codes.get? a = (layer.codes.get? a).or
      (((if some id = a then Relation.ofTags? id tags else none).bind Relation.code).map some) := by
  rw [enterRelation, Relation.enter]
  cases Relation.ofTags? id tags with
  | none => simp
  | some r =>
      cases hcode : r.code with
      | none =>
          by_cases h : some id = a <;> simp [hcode, h]
      | some code =>
          simp only [hcode, Option.isSome_some, if_true, Table.get?_putNew]
          by_cases h : some id = a
          · subst h
            cases layer.codes.get? (some id) <;> simp [hcode]
          · simp [h, Ne.symm h]

/-! ### Many relations -/

/-- The last record of an id is stored. -/
theorem get?_relations_enterRelations (layer : Layer α) (calls : List (Int × Tags)) (id : Int) :
    (layer.enterRelations calls).relations.get? id =
      (accepted calls id).getLast?.or (layer.relations.get? id) := by
  induction calls generalizing layer with
  | nil => rfl
  | cons c rest ih =>
      rw [accepted_cons, List.getLast?_append, Option.or_assoc]
      refine (ih (layer.enterRelation c.1 c.2).2).trans (congrArg _ ?_)
      rw [get?_relations_enterRelation]
      cases (if c.1 = id then Relation.ofTags? c.1 c.2 else none) <;> rfl

/-- The first code of an id is kept. -/
theorem get?_codes_enterRelations (layer : Layer α) (calls : List (Int × Tags)) (id : Int) :
    (layer.enterRelations calls).codes.get? (some id) = (layer.codes.get? (some id)).or
      (((accepted calls id).filterMap Relation.code).head?.map some) := by
  induction calls generalizing layer with
  | nil => exact (Option.or_none).symm
  | cons c rest ih =>
      -- the code that is there, else the one of this relation, else the first one of the rest
      rw [accepted_cons, List.filterMap_append, List.head?_append, Option.map_or, ← Option.or_assoc]
      refine (ih (layer.enterRelation c.1 c.2).2).trans ?_
      rw [get?_codes_enterRelation]
      simp only [Option.some.injEq]
      congr 2
      cases (if c.1 = id then Relation.ofTags? c.1 c.2 else none) with
      | none => rfl
      | some r => cases hcode : r.code <;> simp [hcode]

/-- No code is entered without an id. -/
theorem get?_codes_none (layer : Layer α) (calls : List (Int × Tags)) :
    (layer.enterRelations calls).codes.get? none = layer.codes.get? none := by
  induction calls generalizing layer with
  | nil => rfl
  | cons c rest ih =>
      refine (ih (layer.enterRelation c.1 c.2).2).trans ?_
      rw [get?_codes_enterRelation]
      simp

/-- How a layer answers to a relation. -/
structure AnswersRelation (layer : Layer α) (id : Int) (tags : Tags) : Prop where
  accepted : ∀ r, (layer.enterRelation id tags).1 = some r ↔
    tags.text? "type" = some "boundary" ∧ tags.text? "boundary" = some "administrative" ∧
      ∃ x, tags.level? = some x ∧ 3 / 2 ≤ x ∧ x < 21 / 2 ∧ r = tags.record id ⌊x + 1 / 2⌋
  refused : (layer.enterRelation id tags).1 = none → (layer.enterRelation id tags).2 = layer

theorem answersRelation (layer : Layer α) (id : Int) (tags : Tags) : layer.AnswersRelation id tags where
  accepted r := by
    rw [enterRelation_record]
    exact Relation.ofTags?_eq_some_iff
  refused hnone := by
    rcases layer.enterRelation_cases id tags with e | ⟨r, -, e⟩
    · rw [e]
    · rw [e] at hnone
      cases hnone

/-- What a layer knows of relations, if these are all that it has met. -/
structure Registry (calls : List (Int × Tags)) (layer : Layer α) : Prop where
  relations : ∀ id, layer.relations.get? id = (accepted calls id).getLast?
  codes : ∀ id, layer.codes.get? (some id) =
    ((accepted calls id).filterMap Relation.code).head?.map some
  unnamed : layer.codes.get? none = none
  stored : ∀ id, layer.codes.holds id = true → layer.relations.contains id = true

theorem registry_new (names : Bool) (features : List (Feature α)) (calls : List (Int × Tags)) :
    Registry calls ((new names features).enterRelations calls) := by
  have hrelations : ∀ id, ((new names features).enterRelations calls).relations.get? id =
      (accepted calls id).getLast? :=
    fun id => (get?_relations_enterRelations _ calls id).trans Option.or_none
  have hcodes : ∀ id, ((new names features).enterRelations calls).codes.get? (some id) =
      ((accepted calls id).filterMap Relation.code).head?.map some :=
    fun id => (get?_codes_enterRelations _ calls id).trans Option.none_or
  refine ⟨hrelations, hcodes, get?_codes_none _ calls, fun id hid => ?_⟩
  -- a code is that of a record, so there is a last record too
  obtain ⟨code, hcode⟩ := CountryCodes.holds_iff.mp hid
  rw [hcodes] at hcode
  rw [Table.contains, hrelations]
  cases haccepted : accepted calls id with
  | nil =>
      rw [haccepted] at hcode
      cases hcode
  | cons r rest => simp

/-- Layers that know the same of relations. -/
structure SameRegistry (a b : Layer α) : Prop where
  relations : ∀ id, a.relations.get? id = b.relations.get? id
  codes : ∀ id, a.codes.get? id = b.codes.get? id

/-- **What a layer knows of relations is a function of those it has met.**  Its answer says whether the
tags are those of a relation; of each id the last record and the first code are known; and the order of
relations with different ids does not matter. -/
theorem enterRelations_registry (names : Bool) (features : List (Feature α))
    (calls : List (Int × Tags)) :
    (∀ (layer : Layer α) (id : Int) (tags : Tags), layer.AnswersRelation id tags) ∧
      Registry calls ((new names features).enterRelations calls) ∧
      ∀ shuffled, (∀ id, calls.filter (·.1 = id) = shuffled.filter (·.1 = id)) →
        SameRegistry ((new names features).enterRelations calls)
          ((new names features).enterRelations shuffled) := by
  have hcalls := registry_new names features calls
  refine ⟨answersRelation, hcalls, fun shuffled hsame => ?_⟩
  have hshuffled := registry_new names features shuffled
  have haccepted : ∀ id, accepted calls id = accepted shuffled id := fun id => by
    rw [accepted, accepted, hsame id]
  constructor
  · intro id
    rw [hcalls.relations, hshuffled.relations, haccepted]
  · rintro (_ | id)
    · rw [hcalls.unnamed, hshuffled.unnamed]
    · rw [hcalls.codes, hshuffled.codes, haccepted]

/-- A relation that is met three times, with levels and codes that change, and one beyond the last
level. -/
def history : List (Int × Tags) :=
  [(1, Relation.adminTags "2" none), (1, Relation.adminTags "2" (some "AAA")),
    (2, Relation.adminTags "10.5" (some "BBB")), (1, Relation.adminTags " 2.5" (some "CCC"))]

/-- The last record of the first relation and its first code are known, and nothing of the second, also
if the second comes first. -/
theorem enterRelations_registry_history :
    let layer : Layer Rat := (new true []).enterRelations history
    Registry history layer ∧ (layer.relations.get? 1).map Relation.level = some 3 ∧
      layer.codes.get? (some 1) = some (some "AAA") ∧ layer.relations.get? 2 = none ∧
      SameRegistry layer ((new true []).enterRelations
        ((2, Relation.adminTags "10.5" (some "BBB")) :: history.eraseIdx 2)) := by
  intro layer
  obtain ⟨-, hregistry, hsame⟩ := enterRelations_registry true ([] : List (Feature Rat)) history
  refine ⟨hregistry, by decide +kernel, by decide +kernel, by decide +kernel, hsame _ fun id => ?_⟩
  by_cases hone : 1 = id
  · subst hone
    rfl
  · simp [history, List.filter_cons, hone]

end Layer
end BorderTiles
