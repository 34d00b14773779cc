import BorderTiles.Proofs.Document.Spelled
import BorderTiles.Proofs.NaturalEarth
import BorderTiles.Proofs.Number.Range

/-!
# NaturalEarth — records with values of the wrong type

Records of states and provinces have a zoom, of whatever type.  It is read as a binary number.  Covered
records of every table have a class, of whatever type.  It is read as a text.

* `Unread`: values that no number is read from.  Records with such a zoom are skipped, and reading is as
  if they were absent (`readSource_without`).
* `Huge`: whole numbers without a binary number.  `coverage?_eq_error_iff`: they are the only zooms with
  which it is not known whether a record is covered.
* `Stops`: a huge zoom, or the class of a covered record that has no text.  `feature?_eq_error_iff`: these
  are the only values of properties with which a record has no answer.
* `readSource_cases`: so a source with valid geometries is read, unless a record stops the reading.
-/

namespace BorderTiles
namespace NaturalEarth
variable {α : Type}

/-- The table of states and provinces. -/
def states : String := "ne_10m_admin_1_states_provinces_lines"

/-- The zoom of a record, null if it has none. -/
def zoom (properties : List (String × Value)) : Value :=
  (property? properties "min_zoom").getD .null

/-- The class of a record, null if it has none. -/
def featureClass (properties : List (String × Value)) : Value :=
  (property? properties "featurecla").getD .null

/-- A whole number that no binary number is next to. -/
def Huge (v : Value) : Prop := ∃ n, v = .number (.whole n) ∧ Number.threshold ≤ n.natAbs

/-- A value that no number is read from. -/
inductive Unread : Value → Prop
  | null : Unread .null
  | list (items : List Value) : Unread (.list items)
  | object (fields : List (String × Value)) : Unread (.object fields)
  | text {t : String} : Number.binaryOf? t = none → Unread (.text t)

/-! ### One value -/

theorem Huge.toBinary?_eq {v : Value} (h : Huge v) : v.toBinary? = .error .wholeRange := by
  obtain ⟨n, rfl, hn⟩ := h
  rw [Value.toBinary?, (Number.toFloat_whole n).1 hn]
  rfl

theorem Unread.toBinary?_eq {v : Value} (h : Unread v) : v.toBinary? = .ok none := by
  cases h with
  | null | list | object => rfl
  | text h => rw [Value.toBinary?, h]

/-- A value that is not huge is read as a number, or found to be none. -/
theorem toBinary?_of_not_huge {v : Value} (h : ¬ Huge v) :
    (Unread v ∧ v.toBinary? = .ok none) ∨ ∃ x, v.toBinary? = .ok (some x) := by
  cases v with
  | null => exact .inl ⟨.null, rfl⟩
  | bool b => exact .inr ⟨_, rfl⟩
  | list items => exact .inl ⟨.list items, rfl⟩
  | object fields => exact .inl ⟨.object fields, rfl⟩
  | text t =>
      cases ht : Number.binaryOf? t with
      | none => exact .inl ⟨.text ht, by rw [Value.toBinary?, ht]⟩
      | some x => exact .inr ⟨x, by rw [Value.toBinary?, ht]⟩
  | number n =>
      cases n with
      | binary x => exact .inr ⟨x, rfl⟩
      | whole n =>
          have hn : n.natAbs < Number.threshold := by
            by_contra hle
            exact h ⟨n, rfl, not_lt.mp hle⟩
          obtain ⟨x, hx⟩ := (Number.toFloat_whole n).2 hn
          exact .inr ⟨x, by rw [Value.toBinary?, hx]; rfl⟩

/-! ### One record -/

theorem isMajor_eq (properties : List (String × Value)) :
    isMajor properties = (zoom properties).toBinary?.map fun x => x.any (· ≤ 7) := by
  rw [isMajor, ← zoom]
  cases (zoom properties).toBinary? <;> rfl

theorem coverage?_states (properties : List (String × Value)) :
    coverage? states properties =
      (isMajor properties).map fun major => if major then some ⟨4, 1, 4⟩ else none := by
  rw [states, coverage?]
  cases isMajor properties <;> rfl

/-- Whether a record is covered is known, unless it is one of states and provinces with a huge zoom. -/
theorem coverage?_eq_error_iff {table : String} {properties : List (String × Value)} {fault : Fault} :
    coverage? table properties = .error fault ↔
      table = states ∧ Huge (zoom properties) ∧ fault = .wholeRange := by
  by_cases htable : table = states
  · subst htable
    rw [coverage?_states, isMajor_eq]
    by_cases hhuge : Huge (zoom properties)
    · rw [hhuge.toBinary?_eq]
      exact ⟨fun h => ⟨rfl, hhuge, (Except.error.inj h).symm⟩, fun h => h.2.2 ▸ rfl⟩
    · refine ⟨fun h => ?_, fun h => absurd h.2.1 hhuge⟩
      obtain ⟨-, hzoom⟩ | ⟨x, hzoom⟩ := toBinary?_of_not_huge hhuge
      · rw [hzoom] at h
        cases h
      · rw [hzoom] at h
        cases h
  · refine ⟨fun h => ?_, fun h => absurd h.1 htable⟩
    revert h
    fun_cases coverage? table properties <;> intro h
    · cases h
    · cases h
    · cases h
    · cases h
    · exact absurd rfl htable
    · cases h

theorem isDisputed_eq (properties : List (String × Value)) :
    isDisputed properties = (featureClass properties).spelled.map (·.startsWith "Disputed") := by
  rw [isDisputed, ← featureClass]
  cases (featureClass properties).spelled <;> rfl

/-- Whether a border is disputed is known, unless its class has no text. -/
theorem isDisputed_eq_error_iff {properties : List (String × Value)} {fault : Fault} :
    isDisputed properties = .error fault ↔
      (featureClass properties).Long ∧ fault = .longWhole := by
  rw [isDisputed_eq]
  rcases (featureClass properties).spelled_spec with ⟨hlong, hfault⟩ | ⟨hlong, text, htext⟩
  · rw [hfault]
    exact ⟨fun h => ⟨hlong, (Except.error.inj h).symm⟩, fun h => h.2 ▸ rfl⟩
  · rw [htext]
    exact ⟨nofun, fun h => absurd h.1 hlong⟩

/-- Why a record has no answer: its zoom is huge, or it is covered and its class has no text. -/
inductive Stops (table : String) (properties : List (String × Value)) : Fault → Prop
  | huge (htable : table = states) (h : Huge (zoom properties)) : Stops table properties .wholeRange
  | long {c : Coverage} (hcovered : coverage? table properties = .ok (some c))
      (h : (featureClass properties).Long) : Stops table properties .longWhole

/-- **A record has an answer**, unless its properties stop it. -/
theorem feature?_eq_error_iff {table : String} {properties : List (String × Value)}
    {geometry : Option (Geometry α)} {fault : Fault} :
    feature? table properties geometry = .error fault ↔ Stops table properties fault := by
  rw [feature?]
  cases hcoverage : coverage? table properties with
  | error cause =>
      obtain ⟨htable, hhuge, rfl⟩ := coverage?_eq_error_iff.mp hcoverage
      constructor
      · intro h
        cases h
        exact .huge htable hhuge
      · rintro (⟨-, -⟩ | ⟨hcovered, -⟩)
        · rfl
        · cases hcoverage.symm.trans hcovered
  | ok coverage =>
      have hnot : ¬ (table = states ∧ Huge (zoom properties)) := by
        rintro ⟨htable, hhuge⟩
        cases hcoverage.symm.trans (coverage?_eq_error_iff.mpr ⟨htable, hhuge, rfl⟩)
      cases coverage with
      | none =>
          constructor
          · intro h
            cases h
          · rintro (⟨htable, hhuge⟩ | ⟨hcovered, -⟩)
            · exact absurd ⟨htable, hhuge⟩ hnot
            · cases hcoverage.symm.trans hcovered
      | some c =>
          have hfeature : (isDisputed properties >>= fun disputed =>
              pure (some (c.border disputed geometry))) = .error fault ↔
                isDisputed properties = .error fault := by
            cases isDisputed properties with
            | error cause => exact ⟨fun h => by cases h; rfl, fun h => by cases h; rfl⟩
            | ok disputed => exact ⟨fun h => (by cases h), fun h => (by cases h)⟩
          refine hfeature.trans (isDisputed_eq_error_iff.trans ?_)
          constructor
          · rintro ⟨hlong, rfl⟩
            exact .long hcoverage hlong
          · rintro (⟨htable, hhuge⟩ | ⟨-, hlong⟩)
            · exact absurd ⟨htable, hhuge⟩ hnot
            · exact ⟨hlong, rfl⟩

/-- A record with which the reading ends: it has a geometry, and its properties stop it. -/
def Record.Stops (table : String) (r : Record α) (fault : Fault) : Prop :=
  (∃ g, r.geometry = .ok (some g)) ∧ NaturalEarth.Stops table (lowered r.properties) fault

/-- A record whose geometry is not refused, but that has no zoom. -/
def Record.Unzoomed (r : Record α) : Prop :=
  (∃ geometry, r.geometry = .ok geometry) ∧ Unread (zoom (lowered r.properties))

theorem Record.feature?_eq_error_iff {table : String} {r : Record α} {fault : Fault}
    (hr : ∃ geometry, r.geometry = .ok geometry) :
    r.feature? table = .error fault ↔ r.Stops table fault := by
  obtain ⟨geometry, hgeometry⟩ := hr
  rw [feature?, Stops, hgeometry]
  cases geometry with
  | none =>
      constructor
      · intro h
        cases h
      · rintro ⟨⟨_, hg⟩, -⟩
        cases hg
  | some g =>
      exact NaturalEarth.feature?_eq_error_iff.trans (and_iff_right ⟨g, rfl⟩).symm

/-- A record without a zoom is not drawn. -/
theorem Record.feature?_of_unzoomed {r : Record α} (h : r.Unzoomed) :
    r.feature? states = .ok none := by
  obtain ⟨⟨geometry, hgeometry⟩, hzoom⟩ := h
  rw [feature?, hgeometry]
  cases geometry with
  | none => rfl
  | some g =>
      show NaturalEarth.feature? states (lowered r.properties) (some g) = .ok none
      rw [NaturalEarth.feature?, coverage?_states, isMajor_eq, hzoom.toBinary?_eq]
      rfl

/-! ### Reading -/

theorem Reading.enter_of_unzoomed (so : Reading α) {r : Record α} (h : r.Unzoomed) :
    Reading.enter states so r = .ok so := by
  rw [enter, Record.feature?_of_unzoomed h]
  rfl

/-- A table without some of its records, if it is that of states and provinces. -/
def withoutIn (dropped : Record α → Bool) (e : String × List (Record α)) :
    String × List (Record α) :=
  (e.1, if e.1 = states then e.2.filter fun r => !dropped r else e.2)

/-- A source without some of the records of states and provinces. -/
def without (dropped : Record α → Bool) (source : List (String × List (Record α))) :
    List (String × List (Record α)) :=
  source.map (withoutIn dropped)

variable {dropped : Record α → Bool} {path : String} {source : List (String × List (Record α))}

theorem Reading.enterTable_withoutIn (h : ∀ r, dropped r = true → r.Unzoomed) (so : Reading α)
    (e : String × List (Record α)) : so.enterTable (withoutIn dropped e) = so.enterTable e := by
  obtain ⟨table, records⟩ := e
  rw [withoutIn]
  dsimp only
  split
  · next htable =>
      have hstep : (fun so r => if (!dropped r) = true then Reading.enter states so r else pure so) =
          Reading.enter (α := α) states := by
        funext so r
        split
        · rfl
        · next hr =>
            rw [enter_of_unzoomed so (h r (by simpa using hr))]
            rfl
      rw [enterTable, enterTable, htable, List.foldlM_filter, hstep]
  · rfl

theorem present_without : present (without dropped source) =
    (present source).map (withoutIn dropped) := by
  rw [present, present, List.map_filterMap]
  refine List.filterMap_congr fun table _ => ?_
  rw [without, List.find?_map]
  rfl

theorem missing_without : missing (without dropped source) = missing source := by
  rw [missing, missing]
  refine List.filter_congr fun table _ => ?_
  rw [without, List.any_map]
  rfl

/-- **Records without a zoom** could as well be absent. -/
theorem readSource_without (h : ∀ r, dropped r = true → r.Unzoomed) :
    readSource path (without dropped source) = readSource path source := by
  have hstep : (fun so e => Reading.enterTable (α := α) so (withoutIn dropped e)) =
      Reading.enterTable := by
    funext so e
    exact Reading.enterTable_withoutIn h so e
  rw [readSource, readSource, present_without, missing_without, List.foldlM_map, hstep]

/-- A fault of a table is one of its records. -/
theorem Reading.fault_of_enterTable {so : Reading α} {e : String × List (Record α)} {fault : Fault}
    (h : (so.enterTable e).result = .error fault) : ∃ r ∈ e.2, r.feature? e.1 = .error fault := by
  rw [enterTable, Logged.result_bind] at h
  cases hread : e.2.foldlM (Reading.enter e.1) so with
  | ok found =>
      rw [hread] at h
      cases h
  | error fault' =>
      rw [hread] at h
      cases h
      obtain ⟨r, hr, so', hfault⟩ := exists_of_foldlM_error hread
      refine ⟨r, hr, ?_⟩
      rw [enter] at hfault
      cases hfeature : r.feature? e.1 with
      | error fault' =>
          rw [hfeature] at hfault
          cases hfault
          rfl
      | ok drawn =>
          rw [hfeature] at hfault
          cases drawn <;> cases hfault

/-- A fault of the reading is one of a record. -/
theorem fault_of_readSource {fault : Fault} (h : (readSource path source).result = .error fault) :
    ∃ table ∈ tables, ∃ r ∈ recordsOf source table, r.feature? table = .error fault := by
  rw [result_readSource, Logged.result_foldlM] at h
  obtain ⟨e, he, so, hfault⟩ := exists_of_foldlM_error h
  obtain ⟨r, hr, hfeature⟩ := Reading.fault_of_enterTable hfault
  by_contra hnone
  have hall : ∀ table ∈ tables, ∀ r ∈ recordsOf source table, r.feature? table ≠ .error fault :=
    fun table htable r hr hfault => hnone ⟨table, htable, r, hr, hfault⟩
  exact forall_present.mpr hall e he r hr hfeature

/-- **A source with valid geometries is read**, unless a record stops the reading; then it ends for the
reason that one of these records gives. -/
theorem readSource_cases (hvalid : ∀ table ∈ tables, ∀ r ∈ recordsOf source table,
      ∃ geometry, r.geometry = .ok geometry) :
    (∃ fault, (∃ table ∈ tables, ∃ r ∈ recordsOf source table, r.Stops table fault) ∧
        (readSource path source).result = .error fault) ∨
      ((∀ table ∈ tables, ∀ r ∈ recordsOf source table, ∀ fault, ¬ r.Stops table fault) ∧
        ∃ found, (readSource path source).result = .ok found ∧
          found.drawn = tables.flatMap fun table =>
            (recordsOf source table).filterMap (Record.drawn? table)) := by
  cases hread : (readSource path source).result with
  | error fault =>
      obtain ⟨table, htable, r, hr, hfault⟩ := fault_of_readSource hread
      have hstops := (Record.feature?_eq_error_iff (hvalid table htable r hr)).mp hfault
      exact .inl ⟨fault, ⟨table, htable, r, hr, hstops⟩, rfl⟩
  | ok found =>
      obtain ⟨hreadable, hdrawn, -⟩ := readSource_eq_ok.mp hread
      refine .inr ⟨fun table htable r hr fault hstops => ?_, found, rfl, hdrawn⟩
      have hfeature := Record.feature?_of_readable (hreadable table htable r hr)
      have hfault := (Record.feature?_eq_error_iff (hvalid table htable r hr)).mpr hstops
      cases hfeature.symm.trans hfault

/-- **The properties that end the reading** are huge zooms and classes without a text.  Only huge zooms
leave it open whether a record is covered.  A record without a zoom is not drawn, and could as well be
absent; a source with valid geometries is read unless one of its records has a geometry and properties
that stop it. -/
theorem readSource_of_valid (path : String) (hvalid : ∀ table ∈ tables,
      ∀ r ∈ recordsOf source table, ∃ geometry, r.geometry = .ok geometry) :
    (∀ table properties fault, coverage? table properties = .error fault ↔
        table = states ∧ Huge (zoom properties) ∧ fault = .wholeRange) ∧
      (∀ table properties fault, ∀ geometry : Option (Geometry α),
        feature? table properties geometry = .error fault ↔ Stops table properties fault) ∧
      (∀ r : Record α, r.Unzoomed → r.feature? states = .ok none) ∧
      (∀ dropped : Record α → Bool, (∀ r, dropped r = true → r.Unzoomed) →
        readSource path (without dropped source) = readSource path source) ∧
      ((∃ fault, (∃ table ∈ tables, ∃ r ∈ recordsOf source table, r.Stops table fault) ∧
          (readSource path source).result = .error fault) ∨
        ((∀ table ∈ tables, ∀ r ∈ recordsOf source table, ∀ fault, ¬ r.Stops table fault) ∧
          ∃ found, (readSource path source).result = .ok found ∧
            found.drawn = tables.flatMap fun table =>
              (recordsOf source table).filterMap (Record.drawn? table))) :=
  ⟨fun _ _ _ => coverage?_eq_error_iff, fun _ _ _ _ => feature?_eq_error_iff,
    fun _ => Record.feature?_of_unzoomed, fun _ => readSource_without, readSource_cases hvalid⟩

/-! ### Values that are too large -/

/-- A record of a line with one property. -/
def withProperty (name : String) (v : Value) : Record Rat := ⟨.ok (some (.line [])), [(name, v)]⟩

theorem property?_withProperty {name : String} (hname : lower name = name) (v : Value) :
    property? (lowered (withProperty name v).properties) name = some v := by
  have hlast := property?_lowered [] [] name v nofun
  rwa [hname] at hlast

theorem property?_withProperty_of_ne {name other : String} (hname : lower name ≠ other) (v : Value) :
    property? (lowered (withProperty name v).properties) other = none :=
  property?_lowered_eq_none_iff.mpr (List.forall_mem_singleton.mpr hname)

/-- Records of one table with one property each. -/
def sourceOf (table name : String) (values : List Value) : List (String × List (Record Rat)) :=
  [(table, values.map (withProperty name))]

theorem mem_recordsOf_sourceOf {table table' name : String} {values : List Value} {r : Record Rat} :
    r ∈ recordsOf (sourceOf table name values) table' ↔
      table' = table ∧ ∃ v ∈ values, withProperty name v = r := by
  rw [recordsOf, sourceOf, Table.lookup]
  by_cases htable : table' = table
  · subst htable
    simp
  · simp [Table.lookup, htable, Ne.symm htable]

theorem valid_sourceOf (table name : String) (values : List Value) : ∀ table' ∈ tables,
    ∀ r ∈ recordsOf (sourceOf table name values) table', ∃ geometry, r.geometry = .ok geometry := by
  intro table' _ r hr
  obtain ⟨-, v, -, rfl⟩ := mem_recordsOf_sourceOf.mp hr
  exact ⟨_, rfl⟩

/-- What stops the reading of records with one property each. -/
theorem stops_sourceOf_iff {table name : String} (htable : table ∈ tables) {values : List Value}
    {fault : Fault} : (∃ table' ∈ tables, ∃ r ∈ recordsOf (sourceOf table name values) table',
        r.Stops table' fault) ↔ ∃ v ∈ values, (withProperty name v).Stops table fault := by
  constructor
  · rintro ⟨_, -, r, hr, hstops⟩
    obtain ⟨rfl, v, hv, rfl⟩ := mem_recordsOf_sourceOf.mp hr
    exact ⟨v, hv, hstops⟩
  · rintro ⟨v, hv, hstops⟩
    exact ⟨table, htable, _, mem_recordsOf_sourceOf.mpr ⟨rfl, v, hv, rfl⟩, hstops⟩

/-- States and provinces with zooms. -/
def provinces (zooms : List Value) : List (String × List (Record Rat)) :=
  sourceOf states "min_zoom" zooms

theorem stops_provinces_iff (zooms : List Value) {fault : Fault} :
    (∃ table ∈ tables, ∃ r ∈ recordsOf (provinces zooms) table, r.Stops table fault) ↔
      (∃ v ∈ zooms, Huge v) ∧ fault = .wholeRange := by
  have hzoom : ∀ v, zoom (lowered (withProperty "min_zoom" v).properties) = v := by
    intro v
    rw [zoom, property?_withProperty (by decide), Option.getD_some]
  have hclass : ∀ v, featureClass (lowered (withProperty "min_zoom" v).properties) = .null := by
    intro v
    rw [featureClass, property?_withProperty_of_ne (by decide), Option.getD_none]
  rw [provinces, stops_sourceOf_iff (by decide)]
  constructor
  · rintro ⟨v, hv, -, ⟨-, hhuge⟩ | ⟨-, hlong⟩⟩
    · exact ⟨⟨v, hv, hzoom v ▸ hhuge⟩, rfl⟩
    · rw [hclass] at hlong
      cases hlong
  · rintro ⟨⟨v, hv, hhuge⟩, rfl⟩
    exact ⟨v, hv, ⟨_, rfl⟩, .huge rfl ((hzoom v).symm ▸ hhuge)⟩

/-- The table of countries at a middle scale. -/
def countries : String := "ne_50m_admin_0_boundary_lines_land"

/-- Borders of countries with classes. -/
def land (classes : List Value) : List (String × List (Record Rat)) :=
  sourceOf countries "featurecla" classes

theorem stops_land_iff (classes : List Value) {fault : Fault} :
    (∃ table ∈ tables, ∃ r ∈ recordsOf (land classes) table, r.Stops table fault) ↔
      (∃ v ∈ classes, v.Long) ∧ fault = .longWhole := by
  have hclass : ∀ v, featureClass (lowered (withProperty "featurecla" v).properties) = v := by
    intro v
    rw [featureClass, property?_withProperty (by decide), Option.getD_some]
  rw [land, stops_sourceOf_iff (by decide)]
  constructor
  · rintro ⟨v, hv, -, ⟨htable, -⟩ | ⟨-, hlong⟩⟩
    · exact absurd htable (by decide)
    · exact ⟨⟨v, hv, hclass v ▸ hlong⟩, rfl⟩
  · rintro ⟨⟨v, hv, hlong⟩, rfl⟩
    exact ⟨v, hv, ⟨_, rfl⟩, .long rfl ((hclass v).symm ▸ hlong)⟩

/-- The least whole number that is too large for a binary one. -/
def tooLarge : Value := .number (.whole Number.threshold)

theorem huge_tooLarge : Huge tooLarge := ⟨_, rfl, (Int.natAbs_natCast _).ge⟩

/-- The least whole number that is too long for a text. -/
def tooLong : Value := .number (.whole Value.digitLimit)

theorem long_tooLong : tooLong.Long := .whole (Int.natAbs_natCast _).ge

/-- Zooms of the wrong types are passed over; one that is too large ends the reading, and so does a list
with a number that is too long as a class. -/
theorem readSource_of_valid_provinces :
    (∀ table ∈ tables, ∀ r ∈ recordsOf (provinces [.null, .text "x", .list []]) table,
        ∃ geometry, r.geometry = .ok geometry) ∧
      (∃ found, (readSource "" (provinces [.null, .text "x", .list []])).result = .ok found) ∧
      (∀ table ∈ tables, ∀ r ∈ recordsOf (provinces [.null, tooLarge]) table,
        ∃ geometry, r.geometry = .ok geometry) ∧
      (readSource "" (provinces [.null, tooLarge])).result = .error .wholeRange ∧
      (∀ table ∈ tables, ∀ r ∈ recordsOf (land [.null, .list [tooLong]]) table,
        ∃ geometry, r.geometry = .ok geometry) ∧
      (readSource "" (land [.null, .list [tooLong]])).result = .error .longWhole := by
  have hvalid := valid_sourceOf states "min_zoom" [.null, .text "x", .list []]
  have hvalid' := valid_sourceOf states "min_zoom" [.null, tooLarge]
  have hvalid'' := valid_sourceOf countries "featurecla" [.null, .list [tooLong]]
  refine ⟨hvalid, ?_, hvalid', ?_, hvalid'', ?_⟩
  · obtain ⟨-, -, -, -, ⟨fault, hstops, -⟩ | ⟨-, found, hfound, -⟩⟩ := readSource_of_valid "" hvalid
    · obtain ⟨⟨_, hv, n, rfl, -⟩, -⟩ := (stops_provinces_iff _).mp hstops
      simp at hv
    · exact ⟨found, hfound⟩
  · obtain ⟨-, -, -, -, ⟨fault, hstops, hresult⟩ | ⟨hnone, -⟩⟩ := readSource_of_valid "" hvalid'
    · obtain ⟨-, rfl⟩ := (stops_provinces_iff _).mp hstops
      exact hresult
    · obtain ⟨table, htable, r, hr, hstops⟩ :=
        (stops_provinces_iff [.null, tooLarge]).mpr ⟨⟨tooLarge, by simp, huge_tooLarge⟩, rfl⟩
      exact absurd hstops (hnone table htable r hr _)
  · obtain ⟨-, -, -, -, ⟨fault, hstops, hresult⟩ | ⟨hnone, -⟩⟩ := readSource_of_valid "" hvalid''
    · obtain ⟨-, rfl⟩ := (stops_land_iff _).mp hstops
      exact hresult
    · have hlong : (Value.list [tooLong]).Long := .item (List.mem_singleton_self _) long_tooLong
      obtain ⟨table, htable, r, hr, hstops⟩ :=
        (stops_land_iff [.null, .list [tooLong]]).mpr ⟨⟨_, by simp, hlong⟩, rfl⟩
      exact absurd hstops (hnone table htable r hr _)

/-- One zoom that is too large, and nothing is read of the records before it and behind it, nor would
the record alone have an answer; and a covered record has none with a class that is too long. -/
theorem huge_zoom_stops :
    (∀ table ∈ tables, ∀ r ∈ recordsOf (provinces [.whole 1, tooLarge, .whole 2]) table,
      ∃ geometry, r.geometry = .ok geometry) ∧
    (readSource "" (provinces [.whole 1, tooLarge, .whole 2])).result = .error .wholeRange ∧
    coverage? states [("min_zoom", tooLarge)] = .error .wholeRange ∧
    feature? countries [("featurecla", tooLong)] (none : Option (Geometry Rat)) =
      .error .longWhole := by
  have hvalid := valid_sourceOf states "min_zoom" [.whole 1, tooLarge, .whole 2]
  refine ⟨hvalid, ?_, ?_, ?_⟩
  · rcases readSource_cases hvalid with ⟨fault, hstops, hresult⟩ | ⟨hnone, -⟩
    · obtain ⟨-, rfl⟩ := (stops_provinces_iff _).mp hstops
      exact hresult
    · obtain ⟨table, htable, r, hr, hstops⟩ :=
        (stops_provinces_iff [.whole 1, tooLarge, .whole 2]).mpr ⟨⟨tooLarge, by simp, huge_tooLarge⟩, rfl⟩
      exact absurd hstops (hnone table htable r hr _)
  · exact coverage?_eq_error_iff.mpr ⟨rfl, huge_tooLarge, rfl⟩
  · exact feature?_eq_error_iff.mpr (.long rfl long_tooLong)

end NaturalEarth
end BorderTiles
