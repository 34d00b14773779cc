import BorderTiles.NaturalEarth
import BorderTiles.Proofs.Logged
import BorderTiles.Proofs.Results
import BorderTiles.Proofs.Table

/-!
# NaturalEarth — reading as a filter

What is read of a source is an ordered selection of its records.

* `property?_lowered`: of several properties whose names differ only in case the last one counts.
* `Record.drawn?` is the border of a record that has a geometry and is covered, and
  `Record.Readable` says that the record does not end the reading.
* `Reading.enter_eq_ok`: a record adds its border to what has been read and one to the number.
  `Reading.enterTables_eq_ok`: so tables add the borders of their records, in order, and the number of
  them.
* `readSource_congr`: only the records of the supported tables matter.

`readSource_selects` puts this together.
-/

namespace BorderTiles

namespace NaturalEarth
variable {α : Type}

/-! ### Names of properties -/

theorem lowered_append (ps qs : List (String × Value)) :
    lowered (ps ++ qs) = lowered ps ++ lowered qs :=
  List.map_append

theorem property?_append (ps qs : List (String × Value)) (name : String) :
    property? (ps ++ qs) name = (property? qs name).or (property? ps name) := by
  simp only [property?, Value.field?, List.reverse_append, List.find?_append]
  cases qs.reverse.find? (·.1 == name) <;> rfl

theorem property?_eq_none_iff {ps : List (String × Value)} {name : String} :
    property? ps name = none ↔ ∀ p ∈ ps, p.1 ≠ name := by
  simp [property?, Value.field?]

theorem property?_lowered_eq_none_iff {ps : List (String × Value)} {name : String} :
    property? (lowered ps) name = none ↔ ∀ p ∈ ps, lower p.1 ≠ name := by
  rw [property?_eq_none_iff, lowered, List.forall_mem_map]

/-- **The last of the names** that differ only in case has the value. -/
theorem property?_lowered (before after : List (String × Value)) (name : String) (v : Value)
    (h : ∀ p ∈ after, lower p.1 ≠ lower name) :
    property? (lowered (before ++ (name, v) :: after)) (lower name) = some v := by
  have hlast : property? (lowered [(name, v)]) (lower name) = some v := by
    simp [lowered, property?, Value.field?]
  rw [List.append_cons, lowered_append, property?_append, property?_lowered_eq_none_iff.mpr h,
    Option.none_or, lowered_append, property?_append, hlast, Option.some_or]

/-! ### One record -/

/-- The border of a record of a table, if the record has a geometry and is covered. -/
def Record.drawn? (table : String) (r : Record α) : Option (Feature α) :=
  match r.geometry, coverage? table (lowered r.properties), isDisputed (lowered r.properties) with
  | .ok (some g), .ok (some c), .ok disputed => some (c.border disputed (some g))
  | _, _, _ => none

theorem Record.drawn?_eq_some_iff {table : String} {r : Record α} {f : Feature α} :
    r.drawn? table = some f ↔ ∃ g c disputed, r.geometry = .ok (some g) ∧
      coverage? table (lowered r.properties) = .ok (some c) ∧
        isDisputed (lowered r.properties) = .ok disputed ∧ f = c.border disputed (some g) := by
  constructor
  · intro h
    rw [drawn?] at h
    split at h
    · next g c disputed hgeometry hcoverage hdisputed =>
        cases h
        exact ⟨g, c, disputed, hgeometry, hcoverage, hdisputed, rfl⟩
    · cases h
  · rintro ⟨g, c, disputed, hgeometry, hcoverage, hdisputed, rfl⟩
    rw [drawn?, hgeometry, hcoverage, hdisputed]

/-- A record that does not end the reading: its geometry is not refused; if there is one, it is known
whether the record is covered; and if it is, whether the border is disputed. -/
def Record.Readable (table : String) (r : Record α) : Prop :=
  ∃ geometry, r.geometry = .ok geometry ∧
    (geometry.isSome → ∃ coverage, coverage? table (lowered r.properties) = .ok coverage ∧
      (coverage.isSome → ∃ disputed, isDisputed (lowered r.properties) = .ok disputed))

theorem coverage?_ok {table : String} {properties : List (String × Value)}
    (h : ∀ v, property? properties "min_zoom" = some v → ∃ zoom, v.toBinary? = .ok zoom) :
    ∃ coverage, coverage? table properties = .ok coverage := by
  have hzoom : ∃ zoom, ((property? properties "min_zoom").getD .null).toBinary? = .ok zoom := by
    cases hv : property? properties "min_zoom" with
    | none => exact ⟨none, rfl⟩
    | some v => exact h v hv
  obtain ⟨zoom, hzoom⟩ := hzoom
  fun_cases coverage? table properties
  · exact ⟨_, rfl⟩
  · exact ⟨_, rfl⟩
  · exact ⟨_, rfl⟩
  · exact ⟨_, rfl⟩
  · simp only [isMajor, hzoom]
    exact ⟨_, rfl⟩
  · exact ⟨_, rfl⟩

theorem isDisputed_ok {properties : List (String × Value)}
    (h : ∀ v, property? properties "featurecla" = some v → ∃ text, v.spelled = .ok text) :
    ∃ disputed, isDisputed properties = .ok disputed := by
  have hclass : ∃ text, ((property? properties "featurecla").getD .null).spelled = .ok text := by
    cases hv : property? properties "featurecla" with
    | none => exact ⟨_, rfl⟩
    | some v => exact h v hv
  obtain ⟨text, htext⟩ := hclass
  exact ⟨_, bind_eq_ok.mpr ⟨text, htext, rfl⟩⟩

/-- A record is readable if its geometry is valid, its zoom is not too large for a number, and its class
has a text. -/
theorem Record.Readable.of_values {table : String} {r : Record α}
    (hr : ∃ geometry, r.geometry = .ok geometry)
    (hzoom : ∀ v, property? (lowered r.properties) "min_zoom" = some v →
      ∃ zoom, v.toBinary? = .ok zoom)
    (hclass : ∀ v, property? (lowered r.properties) "featurecla" = some v →
      ∃ text, v.spelled = .ok text) : r.Readable table := by
  obtain ⟨geometry, hr⟩ := hr
  obtain ⟨coverage, hcoverage⟩ := coverage?_ok hzoom
  exact ⟨geometry, hr, fun _ => ⟨coverage, hcoverage, fun _ => isDisputed_ok hclass⟩⟩

theorem Record.feature?_of_readable {table : String} {r : Record α} (h : r.Readable table) :
    r.feature? table = .ok (r.drawn? table) := by
  obtain ⟨geometry, hgeometry, hcovered⟩ := h
  rw [Record.feature?, drawn?, hgeometry]
  cases geometry with
  | none => rfl
  | some g =>
      obtain ⟨coverage, hcoverage, hclassed⟩ := hcovered rfl
      show NaturalEarth.feature? table (lowered r.properties) (some g) = _
      rw [NaturalEarth.feature?, hcoverage]
      cases coverage with
      | none => rfl
      | some c =>
          obtain ⟨disputed, hdisputed⟩ := hclassed rfl
          rw [hdisputed]
          rfl

theorem Record.readable_of_feature? {table : String} {r : Record α} {drawn : Option (Feature α)}
    (h : r.feature? table = .ok drawn) : r.Readable table := by
  obtain ⟨geometry, hgeometry, h⟩ := bind_eq_ok.mp h
  refine ⟨geometry, hgeometry, fun hsome => ?_⟩
  cases geometry with
  | none => cases hsome
  | some g =>
      obtain ⟨coverage, hcoverage, h⟩ := bind_eq_ok.mp h
      refine ⟨coverage, hcoverage, fun hcovered => ?_⟩
      cases coverage with
      | none => cases hcovered
      | some c =>
          obtain ⟨disputed, hdisputed, -⟩ := bind_eq_ok.mp h
          exact ⟨disputed, hdisputed⟩

theorem Record.feature?_eq_ok {table : String} {r : Record α} {drawn : Option (Feature α)} :
    r.feature? table = .ok drawn ↔ r.Readable table ∧ drawn = r.drawn? table := by
  constructor
  · intro h
    have hr := readable_of_feature? h
    exact ⟨hr, Except.ok.inj (h.symm.trans (feature?_of_readable hr))⟩
  · rintro ⟨hr, rfl⟩
    exact feature?_of_readable hr

/-! ### Records and tables -/

/-- What has been read, with more features. -/
def Reading.add (so : Reading α) (features : List (Feature α)) : Reading α :=
  ⟨so.drawn ++ features, so.count + features.length⟩

theorem Reading.add_nil (so : Reading α) : so.add [] = so := by
  rw [add, List.append_nil, List.length_nil, Nat.add_zero]

theorem Reading.add_append (so : Reading α) (fs gs : List (Feature α)) :
    so.add (fs ++ gs) = (so.add fs).add gs := by
  simp only [add, List.append_assoc, List.length_append, Nat.add_assoc]

/-- Steps that each add some features, or none if they fail, add them in order. -/
theorem Reading.foldlM_eq_ok {τ : Type} {step : Reading α → τ → Except Fault (Reading α)}
    {P : τ → Prop} {added : τ → List (Feature α)}
    (h : ∀ so x found, step so x = .ok found ↔ P x ∧ found = so.add (added x))
    {xs : List τ} {so found : Reading α} :
    xs.foldlM step so = .ok found ↔ (∀ x ∈ xs, P x) ∧ found = so.add (xs.flatMap added) := by
  induction xs generalizing so with
  | nil =>
      rw [List.flatMap_nil, add_nil]
      exact ⟨fun h => ⟨nofun, (Except.ok.inj h).symm⟩, fun h => congrArg Except.ok h.2.symm⟩
  | cons x rest ih =>
      rw [List.foldlM_cons, bind_eq_ok, List.forall_mem_cons, List.flatMap_cons, add_append]
      simp only [h, ih]
      constructor
      · rintro ⟨_, ⟨hx, rfl⟩, hrest, rfl⟩
        exact ⟨⟨hx, hrest⟩, rfl⟩
      · rintro ⟨⟨hx, hrest⟩, rfl⟩
        exact ⟨_, ⟨hx, rfl⟩, hrest, rfl⟩

/-- **A record** adds its border. -/
theorem Reading.enter_eq_ok {table : String} {so found : Reading α} {r : Record α} :
    Reading.enter table so r = .ok found ↔
      r.Readable table ∧ found = so.add (r.drawn? table).toList := by
  rw [enter, bind_eq_ok]
  simp only [Record.feature?_eq_ok]
  constructor
  · rintro ⟨_, ⟨hr, rfl⟩, h⟩
    refine ⟨hr, ?_⟩
    cases hdrawn : r.drawn? table with
    | none =>
        rw [hdrawn] at h
        exact (Except.ok.inj h).symm.trans so.add_nil.symm
    | some f =>
        rw [hdrawn] at h
        exact (Except.ok.inj h).symm
  · rintro ⟨hr, rfl⟩
    refine ⟨_, ⟨hr, rfl⟩, ?_⟩
    cases r.drawn? table with
    | none => exact congrArg Except.ok so.add_nil.symm
    | some f => rfl

theorem Reading.enterTable_eq_ok {so found : Reading α} {e : String × List (Record α)} :
    (so.enterTable e).result = .ok found ↔
      (∀ r ∈ e.2, r.Readable e.1) ∧ found = so.add (e.2.filterMap (Record.drawn? e.1)) := by
  rw [List.filterMap_eq_flatMap_toList, ← foldlM_eq_ok (fun _ _ _ => enter_eq_ok), enterTable,
    Logged.result_bind_eq_ok]
  constructor
  · rintro ⟨_, hread, h⟩
    obtain ⟨-, -, h⟩ := Logged.result_bind_eq_ok.mp h
    cases h
    exact hread
  · exact fun h => ⟨found, h, Logged.result_bind_eq_ok.mpr ⟨(), rfl, rfl⟩⟩

/-- **Tables** add the borders of their records. -/
theorem Reading.enterTables_eq_ok {so found : Reading α} {present : List (String × List (Record α))} :
    (present.foldlM Reading.enterTable so).result = .ok found ↔
      (∀ e ∈ present, ∀ r ∈ e.2, r.Readable e.1) ∧
        found = so.add (present.flatMap fun e => e.2.filterMap (Record.drawn? e.1)) := by
  rw [Logged.result_foldlM, foldlM_eq_ok fun _ _ _ => enterTable_eq_ok]

theorem tableRead_of_enterTable {so : Reading α} {e : String × List (Record α)} {n : Notice α}
    (h : n ∈ (so.enterTable e).notices) : ∃ table count, n = .tableRead table count := by
  rw [Reading.enterTable] at h
  rcases Logged.mem_notices_bind h with h | ⟨found, -, h⟩
  · cases h
  · exact ⟨e.1, found.count, List.mem_singleton.mp h⟩

theorem tableRead_of_enterTables {so : Reading α} {present : List (String × List (Record α))}
    {n : Notice α} (h : n ∈ (present.foldlM Reading.enterTable so).notices) :
    ∃ table count, n = .tableRead table count := by
  induction present generalizing so with
  | nil => cases h
  | cons e rest ih =>
      rw [List.foldlM_cons] at h
      rcases Logged.mem_notices_bind h with h | ⟨_, -, h⟩
      · exact tableRead_of_enterTable h
      · exact ih h

/-! ### A source -/

/-- The records of a table of a source, none if the source lacks it. -/
def recordsOf (source : List (String × List (Record α))) (table : String) : List (Record α) :=
  (Table.lookup table source).getD []

theorem present_eq (source : List (String × List (Record α))) :
    present source = tables.filterMap fun table =>
      (Table.lookup table source).map fun records => (table, records) := by
  simp only [present, Table.find?_eq_lookup]

theorem missing_eq (source : List (String × List (Record α))) :
    missing source = tables.filter fun table => table ∉ source.map Prod.fst := by
  refine List.filter_congr fun table _ => ?_
  have hany : source.any (·.1 == table) = decide (table ∈ source.map Prod.fst) := by
    rw [Bool.eq_iff_iff, List.any_eq_true, decide_eq_true_iff, List.mem_map]
    simp only [beq_iff_eq]
  rw [hany, decide_not]

theorem forall_present {source : List (String × List (Record α))} {P : String → Record α → Prop} :
    (∀ e ∈ present source, ∀ r ∈ e.2, P e.1 r) ↔
      ∀ table ∈ tables, ∀ r ∈ recordsOf source table, P table r := by
  rw [present_eq]
  constructor
  · intro h table htable r hr
    rw [recordsOf] at hr
    cases hrecords : Table.lookup table source with
    | none =>
        rw [hrecords] at hr
        cases hr
    | some records =>
        rw [hrecords] at hr
        refine h (table, records) (List.mem_filterMap.mpr ⟨table, htable, ?_⟩) r hr
        rw [hrecords, Option.map_some]
  · intro h e he r hr
    obtain ⟨table, htable, he⟩ := List.mem_filterMap.mp he
    obtain ⟨records, hrecords, rfl⟩ := Option.map_eq_some_iff.mp he
    refine h table htable r ?_
    rw [recordsOf, hrecords]
    exact hr

theorem flatMap_present (source : List (String × List (Record α))) :
    ((present source).flatMap fun e => e.2.filterMap (Record.drawn? e.1)) =
      tables.flatMap fun table => (recordsOf source table).filterMap (Record.drawn? table) := by
  rw [present_eq]
  induction tables with
  | nil => rfl
  | cons table rest ih =>
      rw [List.filterMap_cons, List.flatMap_cons, ← ih, recordsOf]
      cases Table.lookup table source <;> rfl

variable {path : String} {source : List (String × List (Record α))}

theorem result_readSource : (readSource path source).result =
    ((present source).foldlM Reading.enterTable ⟨[], 0⟩).result := by
  rw [readSource]
  dsimp only
  split
  · rw [Logged.note_bind]
  · rfl

theorem readSource_eq_ok {found : Reading α} : (readSource path source).result = .ok found ↔
    (∀ table ∈ tables, ∀ r ∈ recordsOf source table, r.Readable table) ∧
      found.drawn = (tables.flatMap fun table =>
        (recordsOf source table).filterMap (Record.drawn? table)) ∧
      found.count = found.drawn.length := by
  rw [result_readSource, Reading.enterTables_eq_ok, forall_present, flatMap_present]
  refine and_congr_right fun _ => ?_
  obtain ⟨drawn, count⟩ := found
  simp only [Reading.add, List.nil_append, Nat.zero_add, Reading.mk.injEq]
  constructor
  · rintro ⟨rfl, rfl⟩
    exact ⟨rfl, rfl⟩
  · rintro ⟨rfl, rfl⟩
    exact ⟨rfl, rfl⟩

/-- **Only the supported tables matter**, in whatever order they are. -/
theorem readSource_congr {other : List (String × List (Record α))}
    (h : ∀ table ∈ tables, Table.lookup table other = Table.lookup table source) :
    readSource path other = readSource path source := by
  have hpresent : present other = present source := by
    rw [present_eq, present_eq]
    refine List.filterMap_congr fun table htable => ?_
    rw [h table htable]
  have hmissing : missing other = missing source := by
    rw [missing_eq, missing_eq]
    refine List.filter_congr fun table htable => ?_
    simp only [← Table.lookup_eq_none_iff, h table htable]
  rw [readSource, readSource, hpresent, hmissing]

theorem readSource_of_perm {other : List (String × List (Record α))}
    (hn : (source.map Prod.fst).Nodup)
    (h : (source.filter fun e => tables.contains e.1).Perm (other.filter fun e => tables.contains e.1)) :
    readSource path other = readSource path source := by
  have hn' : ((source.filter fun e => tables.contains e.1).map Prod.fst).Nodup :=
    (List.filter_sublist.map Prod.fst).nodup hn
  refine readSource_congr fun table htable => ?_
  have hsupported : tables.contains table := List.contains_iff_mem.mpr htable
  rw [← Table.lookup_filter hsupported other, ← Table.lookup_perm h hn', Table.lookup_filter hsupported]

/-- The first report is that of the tables that a source lacks; it is there however the reading ends. -/
theorem notices_readSource (path : String) (source : List (String × List (Record α))) :
    let absent := tables.filter fun table => table ∉ source.map Prod.fst
    ∃ reports, (readSource path source).notices =
      (if absent = [] then [] else [.tablesMissing path absent]) ++ reports ∧
        ∀ n ∈ reports, ∃ table count, n = .tableRead table count := by
  refine ⟨((present source).foldlM Reading.enterTable ⟨[], 0⟩).notices, ?_,
    fun _ => tableRead_of_enterTables⟩
  rw [← missing_eq, readSource]
  cases missing source with
  | nil => rfl
  | cons table more => rfl

/-- What is read of a source is a selection of its records. -/
structure Selection (path : String) (source : List (String × List (Record α))) : Prop where
  /-- The reading comes to an end if every record of a supported table is readable.  The features are the
  borders of the records that have one, table after table; they are counted. -/
  result : ∀ found, (readSource path source).result = .ok found ↔
    (∀ table ∈ tables, ∀ r ∈ recordsOf source table, r.Readable table) ∧
      found.drawn = (tables.flatMap fun table =>
        (recordsOf source table).filterMap (Record.drawn? table)) ∧
      found.count = found.drawn.length
  /-- A record is readable if its geometry is valid, its zoom is not too large for a number, and its class
  has a text. -/
  readable : ∀ table, ∀ r : Record α, (∃ geometry, r.geometry = .ok geometry) →
    (∀ v, property? (lowered r.properties) "min_zoom" = some v → ∃ zoom, v.toBinary? = .ok zoom) →
    (∀ v, property? (lowered r.properties) "featurecla" = some v → ∃ text, v.spelled = .ok text) →
      r.Readable table
  /-- A record has a border if it has a geometry and is covered. -/
  drawn : ∀ table, ∀ r : Record α, ∀ f, r.drawn? table = some f ↔ ∃ g c disputed,
    r.geometry = .ok (some g) ∧ coverage? table (lowered r.properties) = .ok (some c) ∧
      isDisputed (lowered r.properties) = .ok disputed ∧ f = c.border disputed (some g)
  /-- Of several properties whose names differ only in case the last one counts. -/
  last : ∀ before after name v, (∀ p ∈ after, lower p.1 ≠ lower name) →
    property? (lowered (before ++ (name, v) :: after)) (lower name) = some v
  unset : ∀ properties name, property? (lowered properties) name = none ↔
    ∀ p ∈ properties, lower p.1 ≠ name
  /-- Other tables do not matter, nor does the order of the tables. -/
  supported : ∀ other, (source.map Prod.fst).Nodup →
    (source.filter fun e => tables.contains e.1).Perm (other.filter fun e => tables.contains e.1) →
      readSource path other = readSource path source
  /-- The supported tables that are absent are reported, however the reading ends. -/
  missing : let absent := tables.filter fun table => table ∉ source.map Prod.fst
    ∃ reports, (readSource path source).notices =
      (if absent = [] then [] else [.tablesMissing path absent]) ++ reports ∧
        ∀ n ∈ reports, ∃ table count, n = .tableRead table count

/-- **Reading a source selects records**, in the order of the supported tables. -/
theorem readSource_selects (path : String) (source : List (String × List (Record α))) :
    Selection path source where
  result _ := readSource_eq_ok
  readable _ _ := Record.Readable.of_values
  drawn _ _ _ := Record.drawn?_eq_some_iff
  last := property?_lowered
  unset _ _ := property?_lowered_eq_none_iff
  supported _ := readSource_of_perm
  missing := notices_readSource path source

example :
    let line : Except Fault (Option (Geometry Rat)) := .ok (some (.line []))
    let source : List (String × List (Record Rat)) :=
      [("ne_10m_admin_1_states_provinces_lines",
          [⟨line, [("min_zoom", .number (.binary 8)), ("MIN_ZOOM", .number (.binary 7))]⟩,
            ⟨line, [("MIN_ZOOM", .number (.binary 7)), ("min_zoom", .number (.binary 8))]⟩]),
        ("ne_10m_roads", [⟨line, []⟩]),
        ("ne_50m_admin_0_boundary_lines_land",
          [⟨.ok none, []⟩, ⟨line, [("FeatureCla", .text "Disputed")]⟩])]
    (readSource "" source).result.map
        (fun found => (found.drawn.map fun f => (f.minZoom, f.maxZoom), found.count)) =
      .ok ([(1, 3), (1, 4)], 2) := by
  decide +kernel

end NaturalEarth
end BorderTiles
