import BorderTiles.Proofs.Segments
import BorderTiles.Proofs.Tile.Content
import BorderTiles.Proofs.Tile.Pyramid

/-!
# Tile — tiles that show nothing

A tile is written for whatever there is of features in its box, but only lines between different places
are drawn.  Where a line just touches the box, or a source gives points or areas, there is a tile without
a line.

* `Line.Extended`: the line is between different places.  `Line.Placed`: no coordinate of it is NaN.
* `Kernel.KeepsTraces`: placed lines are joined without losing, adding or doubling a segment between
  places.  `merge_eq_nil_iff`: so nothing is joined exactly if no line is extended.
* `exists_mem_foldl_enterLines`: the classes of features have the lines of the features.
* `content_eq_nil_iff`: a tile of placed lines shows nothing exactly if none of them is extended.
* `Stands` says what there is in a tile and when it is shown, `Pyramid.Accounts` which tiles are written
  and counted, and which of them are empty.

`assigned_accounts` puts this together.
-/

namespace BorderTiles
variable {α ρ : Type}

/-! ### Lines between places -/

section
variable [Scalar α]

/-- Where points are.  Points at the same place are not told apart. -/
def Point.Site (α : Type) [Scalar α] : Type := Quot fun p q : Point α => p.same q = true

/-- Where a point is. -/
def Point.site (p : Point α) : Site α := Quot.mk _ p

/-- The segments of lines from place to place, each as often as it occurs. -/
def tracesOf (lines : List (Line α)) : Multiset (Sym2 (Point.Site α)) :=
  (segmentsOf lines).map (Sym2.map Point.site)

/-- A line between different places: there are two points of it that do not repeat each other. -/
def Line.Extended (l : Line α) : Prop := 2 ≤ (dropRepeats Point.same l).length

instance (l : Line α) : Decidable l.Extended := inferInstanceAs (Decidable (_ ≤ _))

/-- A line whose points are somewhere.  A point with a coordinate that is NaN does not repeat itself. -/
def Line.Placed (l : Line α) : Prop := ∀ p ∈ l, p.same p = true

instance (l : Line α) : Decidable l.Placed := inferInstanceAs (Decidable (∀ p ∈ l, p.same p = true))

theorem tracesOf_eq_zero_iff {lines : List (Line α)} :
    tracesOf lines = 0 ↔ ∀ l ∈ lines, l.length < 2 := by
  rw [tracesOf, Multiset.map_eq_zero, segmentsOf_eq_zero_iff]

/-- Placed lines are joined without losing, adding or doubling a segment between different places, each
to one of two points at least, and no tolerance lets go of both ends of a line. -/
structure Kernel.KeepsTraces (k : Kernel α ρ) : Prop where
  joins : ∀ lines : List (Line α), lines ≠ [] → (∀ l ∈ lines, l ≠ [] ∧ l.Placed) →
    ∃ joined, k.Joins lines joined ∧
      tracesOf joined = tracesOf (lines.map (dropRepeats Point.same)) ∧ ∀ l ∈ joined, 2 ≤ l.length
  two_le_simplify : ∀ tolerance l, 2 ≤ l.length → 2 ≤ (k.simplify tolerance l).length

namespace Kernel.KeepsTraces
variable {k : Kernel α ρ} (hk : k.KeepsTraces) {lines : List (Line α)}
include hk

/-- **Merged lines** have the traces of the placed lines they are merged from, of which empty ones leave
none. -/
theorem merge_spec (hplaced : ∀ l ∈ lines, l.Placed) :
    tracesOf (k.merge lines) =
        tracesOf ((lines.filter (!·.isEmpty)).map (dropRepeats Point.same)) ∧
      ∀ l ∈ k.merge lines, 2 ≤ l.length := by
  have hfull : ∀ l ∈ lines.filter (!·.isEmpty), l ≠ [] ∧ l.Placed := by
    intro l hl
    obtain ⟨hmem, hne⟩ := List.mem_filter.mp hl
    exact ⟨by simpa using hne, hplaced l hmem⟩
  rw [← k.merge_filter]
  refine merge_of_exists_joins
    (P := fun joined => tracesOf joined = tracesOf ((lines.filter _).map _))
    (fun l hl => (hfull l hl).1) (fun hnil => ?_) fun hne => hk.joins _ hne hfull
  rw [hnil]
  rfl

/-- **Nothing is joined** exactly if no line is extended. -/
theorem merge_eq_nil_iff (hplaced : ∀ l ∈ lines, l.Placed) :
    k.merge lines = [] ↔ ∀ l ∈ lines, ¬ l.Extended := by
  obtain ⟨htraces, htwo⟩ := hk.merge_spec hplaced
  have hnil : k.merge lines = [] ↔ tracesOf (k.merge lines) = 0 := by
    rw [tracesOf_eq_zero_iff, List.eq_nil_iff_forall_not_mem]
    exact forall₂_congr fun l hl => iff_of_false id (Nat.not_lt.mpr (htwo l hl))
  have hempty : ∀ l : Line α, l.Extended → l ≠ [] := by
    rintro _ hl rfl
    exact absurd hl (Nat.not_succ_le_zero 1)
  rw [hnil, htraces, tracesOf_eq_zero_iff, List.forall_mem_map]
  constructor
  · intro h l hl hextended
    have hmem : l ∈ lines.filter (!·.isEmpty) :=
      List.mem_filter.mpr ⟨hl, by simpa using hempty l hextended⟩
    exact Nat.not_le.mpr (h l hmem) hextended
  · exact fun h l hl => Nat.not_le.mp (h l (List.mem_filter.mp hl).1)

end Kernel.KeepsTraces

end

namespace Tile

/-! ### Lines of classes -/

/-- A feature enters its lines among those of the classes, and no others. -/
theorem exists_mem_enter {f : Feature α} {new : List (Line α)} {found : List (Class α)}
    {P : Line α → Prop} : (∃ c ∈ enter f new found, ∃ l ∈ c.lines, P l) ↔
      (∃ c ∈ found, ∃ l ∈ c.lines, P l) ∨ ∃ l ∈ new, P l := by
  induction found with
  | nil => simp [enter]
  | cons c rest ih =>
      rw [enter]
      split
      · simp only [List.exists_mem_cons_iff, List.mem_append, or_and_right, exists_or]
        rw [or_right_comm]
      · rw [List.exists_mem_cons_iff, ih, List.exists_mem_cons_iff, or_assoc]

/-- **The classes of features have the lines of the features.** -/
theorem exists_mem_foldl_enterLines {features : List (Feature α)} {found : List (Class α)}
    {P : Line α → Prop} : (∃ c ∈ features.foldl enterLines found, ∃ l ∈ c.lines, P l) ↔
      (∃ c ∈ found, ∃ l ∈ c.lines, P l) ∨ ∃ f ∈ features, ∃ l ∈ featureLines f, P l := by
  induction features generalizing found with
  | nil => simp
  | cons f rest ih =>
      rw [List.foldl_cons, ih, enterLines, exists_mem_enter, List.exists_mem_cons_iff, or_assoc]

/-! ### What a tile shows -/

variable [Mercator α] {k : Kernel α ρ} {features fs : List (Feature α)} {zoom : Int}

/-- Features with something to draw: an extended line. -/
def Drawable (fs : List (Feature α)) : Prop := ∃ f ∈ fs, ∃ l ∈ featureLines f, l.Extended

instance (fs : List (Feature α)) : Decidable (Drawable fs) :=
  inferInstanceAs (Decidable (∃ f ∈ fs, ∃ l ∈ featureLines f, l.Extended))

/-- Features whose lines are somewhere. -/
def Placed (fs : List (Feature α)) : Prop := ∀ f ∈ fs, ∀ l ∈ featureLines f, l.Placed

instance (fs : List (Feature α)) : Decidable (Placed fs) :=
  inferInstanceAs (Decidable (∀ f ∈ fs, ∀ l ∈ featureLines f, l.Placed))

theorem drawClass_eq_nil_iff (hk : k.KeepsTraces) (tolerance : α) {c : Class α}
    (hplaced : ∀ l ∈ c.lines, l.Placed) :
    drawClass (.ofKernel k) tolerance c = [] ↔ ∀ l ∈ c.lines, ¬ l.Extended := by
  rw [drawClass, List.filterMap_eq_nil_iff, ← hk.merge_eq_nil_iff hplaced,
    List.eq_nil_iff_forall_not_mem]
  refine forall₂_congr fun l hl => ?_
  have hlong : ¬ (k.simplify tolerance l).length < 2 :=
    Nat.not_lt.mpr (hk.two_le_simplify tolerance l ((hk.merge_spec hplaced).2 l hl))
  simp [LineWork.ofKernel, hlong]

/-- **A tile shows nothing** exactly if its features have nothing to draw. -/
theorem content_eq_nil_iff (hk : k.KeepsTraces) (hplaced : Placed fs) {lines : List (Drawn α)}
    (h : content (.ofKernel k) fs zoom = .ok lines) : lines = [] ↔ ¬ Drawable fs := by
  obtain ⟨-, size, -, rfl⟩ := content_eq_ok_iff.mp h
  have hclasses : ∀ {P : Line α → Prop}, (∃ c ∈ fs.foldl enterLines [], ∃ l ∈ c.lines, P l) ↔
      ∃ f ∈ fs, ∃ l ∈ featureLines f, P l := by
    intro P
    rw [exists_mem_foldl_enterLines]
    simp
  have hall : ∀ c ∈ fs.foldl enterLines [], ∀ l ∈ c.lines, l.Placed := by
    intro c hc l hl
    by_contra hnot
    obtain ⟨f, hf, m, hm, hmnot⟩ := (hclasses (P := fun l => ¬ l.Placed)).mp ⟨c, hc, l, hl, hnot⟩
    exact hmnot (hplaced f hf m hm)
  rw [List.flatMap_eq_nil_iff, Drawable, ← hclasses]
  simp only [not_exists, not_and]
  exact forall₂_congr fun c hc => drawClass_eq_nil_iff hk _ (hall c hc)

/-- A tile is shown if the zoom has pixels and every feature a geometry and no compound attribute. -/
theorem content_ok_iff : (∃ lines, content (.ofKernel k) fs zoom = .ok lines) ↔
    (∃ size : α, Mercator.degreesPerPixel (.whole zoom) = .ok size) ∧
      ∀ f ∈ fs, Plain f.attrs ∧ f.geometry.isSome := by
  simp only [content_eq_ok_iff, exists_and_left, exists_comm (α := List (Drawn α)), exists_eq', and_true]
  exact and_comm

/-! ### Tiles that features are assigned to -/

/-- What there is of one of the features in a tile: its geometry inside the box, which is not empty. -/
def IsPart (k : Kernel α ρ) (features : List (Feature α)) (zoom : Int) (tile : Int × Int)
    (part : Feature α) : Prop :=
  ∃ f ∈ features, ∃ g box, f.geometry = some g ∧
    Mercator.tileBox tile.1 tile.2 (.whole zoom) f.buffer = .ok box ∧
    part = { f with geometry := some (k.clip g box) } ∧ (k.clip g box).isEmpty = false

/-- What there is in a tile, and when it is shown. -/
structure Stands (k : Kernel α ρ) (features : List (Feature α)) (zoom : Int) (tile : Int × Int)
    (fs : List (Feature α)) : Prop where
  /-- There is something of a feature in the tile. -/
  ne_nil : fs ≠ []
  parts : ∀ part ∈ fs, IsPart k features zoom tile part
  /-- It is shown if the zoom has pixels and no attribute is compound. -/
  shown : (∃ lines, content (.ofKernel k) fs zoom = .ok lines) ↔
    (∃ size : α, Mercator.degreesPerPixel (.whole zoom) = .ok size) ∧ ∀ f ∈ fs, Plain f.attrs
  /-- If the lines are placed, one is shown exactly if there is one to draw. -/
  drawn : Placed fs → ∀ lines, content (.ofKernel k) fs zoom = .ok lines → (lines ≠ [] ↔ Drawable fs)

theorem isPart_of_copyIn? {tile : Int × Int} {f part : Feature α} (hf : f ∈ features)
    (h : copyIn? k zoom tile f = some part) : IsPart k features zoom tile part := by
  obtain ⟨g, _, _, _, box, hsought, -, -, -, hbox, hcut⟩ := copyIn?_eq_some_iff.mp h
  obtain ⟨⟨-, hclip⟩, hpart⟩ := Option.ite_none_right_eq_some.mp hcut
  exact ⟨f, hf, g, box, hsought.geometry, hbox, (Option.some.inj hpart).symm, hclip⟩

theorem IsPart.geometry {tile : Int × Int} {part : Feature α}
    (h : IsPart k features zoom tile part) : part.geometry.isSome := by
  obtain ⟨f, -, g, box, -, -, rfl, -⟩ := h
  rfl

/-- **Every tile that features are assigned to stands**, whether or not it has a line. -/
theorem stands_of_assign (hk : k.KeepsTraces) {sheet : Sheet α}
    (hsheet : assign k features zoom = .ok sheet) {tile : Int × Int}
    (hfs : sheet.get? tile = some fs) : Stands k features zoom tile fs := by
  have hlist : fs = features.filterMap (copyIn? k zoom tile) := by
    rw [← listOf_of_assign hsheet, Table.listOf, hfs]
    rfl
  have hparts : ∀ part ∈ fs, IsPart k features zoom tile part := by
    intro part hpart
    rw [hlist] at hpart
    obtain ⟨f, hf, hcopy⟩ := List.mem_filterMap.mp hpart
    exact isPart_of_copyIn? hf hcopy
  exact {
    ne_nil := filled_of_assign hsheet tile fs hfs
    parts := hparts
    shown := content_ok_iff.trans <| and_congr_right fun _ => forall₂_congr fun part hpart =>
      and_iff_left (hparts part hpart).geometry
    drawn := fun hplaced _ hlines =>
      (content_eq_nil_iff hk hplaced hlines).not.trans not_not }

/-! ### Tiles that are written -/

variable {zooms : List Int} {js : List (Job α)} {p : Pyramid α}

theorem jobs_ok_iff : (∃ js, jobs k features zooms = .ok js) ↔
    ∀ zoom ∈ zooms, ∃ sheet, assign k features zoom = .ok sheet := by
  induction zooms with
  | nil => exact ⟨fun _ => nofun, fun _ => ⟨[], rfl⟩⟩
  | cons zoom rest ih =>
      rw [List.forall_mem_cons, ← ih]
      simp only [jobs_cons_eq_ok]
      constructor
      · rintro ⟨_, sheet, later, hsheet, hlater, -⟩
        exact ⟨⟨sheet, hsheet⟩, later, hlater⟩
      · rintro ⟨⟨sheet, hsheet⟩, later, hlater⟩
        exact ⟨_, sheet, later, hsheet, hlater, rfl⟩

/-- There are as many jobs as there are tiles on the sheets of the zooms. -/
theorem length_of_jobs (h : jobs k features zooms = .ok js) :
    ∃ sheets, zooms.mapM (assign k features) = .ok sheets ∧
      js.length = (sheets.map Table.size).sum := by
  induction zooms generalizing js with
  | nil =>
      cases h
      exact ⟨[], rfl, rfl⟩
  | cons zoom rest ih =>
      obtain ⟨sheet, later, hsheet, hlater, rfl⟩ := jobs_cons_eq_ok.mp h
      obtain ⟨sheets, hsheets, hlength⟩ := ih hlater
      refine ⟨sheet :: sheets, mapM_eq_ok.mpr (.cons hsheet (mapM_eq_ok.mp hsheets)), ?_⟩
      rw [List.length_append, hlength, List.map_cons, List.sum_cons, Sheet.jobs, List.length_map,
        Table.size]

/-- Tiles are written if features can be assigned to tiles at each zoom, and each tile can be shown. -/
theorem write_ok_iff : (∃ p, (Pyramid.write k features zooms).result = .ok p) ↔
    ∀ zoom ∈ zooms, ∃ sheet, assign k features zoom = .ok sheet ∧
      ∀ tile fs, sheet.get? tile = some fs → ∃ lines, content (.ofKernel k) fs zoom = .ok lines := by
  simp only [Pyramid.write, write_eq_ok]
  constructor
  · rintro ⟨p, js, hjs, hp⟩ zoom hzoom
    obtain ⟨sheet, hsheet⟩ := jobs_ok_iff.mp ⟨js, hjs⟩ zoom hzoom
    exact ⟨sheet, hsheet, fun tile fs hfs => perform_ok.mp ⟨p, hp⟩ ⟨(zoom, tile), fs⟩
      ((mem_jobs hjs).mpr ⟨hzoom, sheet, hsheet, hfs⟩)⟩
  · intro h
    obtain ⟨js, hjs⟩ := jobs_ok_iff.mpr fun zoom hzoom => (h zoom hzoom).imp fun _ hsheet => hsheet.1
    have hshown : ∀ job ∈ js, ∃ lines, job.content k = .ok lines := by
      intro job hjob
      obtain ⟨hzoom, sheet, hsheet, hfs⟩ := (mem_jobs hjs).mp hjob
      obtain ⟨sheet', hsheet', hcontent⟩ := h _ hzoom
      cases hsheet.symm.trans hsheet'
      exact hcontent _ _ hfs
    obtain ⟨p, hp⟩ := perform_ok.mpr hshown
    exact ⟨p, js, hjs, hp⟩

/-- Which tiles are written and counted, and which of them are empty. -/
structure Pyramid.Accounts (k : Kernel α ρ) (features : List (Feature α)) (zooms : List Int)
    (p : Pyramid α) : Prop where
  /-- All tiles that features are assigned to are counted. -/
  counted : ∃ sheets, zooms.mapM (assign k features) = .ok sheets ∧
    p.written = (sheets.map Table.size).sum
  /-- All tiles that features are assigned to are written, with what they show. -/
  tiles : ∀ place lines, p.tiles.get? place = some lines ↔ place.1 ∈ zooms ∧ ∃ sheet fs,
    assign k features place.1 = .ok sheet ∧ sheet.get? place.2 = some fs ∧
      content (.ofKernel k) fs place.1 = .ok lines
  /-- Those of placed lines are empty exactly if there is nothing to draw. -/
  empty : ∀ place sheet fs, place.1 ∈ zooms → assign k features place.1 = .ok sheet →
    sheet.get? place.2 = some fs → Placed fs → (p.tiles.get? place = some [] ↔ ¬ Drawable fs)

theorem accounts_of_write (hk : k.KeepsTraces)
    (h : (Pyramid.write k features zooms).result = .ok p) : p.Accounts k features zooms := by
  obtain ⟨js, hjs, hp⟩ := write_eq_ok.mp h
  have hagree : Agree js := agree_of_jobs hjs
  have htiles : ∀ place lines, p.tiles.get? place = some lines ↔ place.1 ∈ zooms ∧ ∃ sheet fs,
      assign k features place.1 = .ok sheet ∧ sheet.get? place.2 = some fs ∧
        content (.ofKernel k) fs place.1 = .ok lines := by
    intro place lines
    rw [get?_of_agree hagree hp]
    constructor
    · rintro ⟨job, hjob, rfl, hlines⟩
      obtain ⟨hzoom, sheet, hsheet, hfs⟩ := (mem_jobs hjs).mp hjob
      exact ⟨hzoom, sheet, job.features, hsheet, hfs, hlines⟩
    · rintro ⟨hzoom, sheet, fs, hsheet, hfs, hlines⟩
      exact ⟨⟨place, fs⟩, (mem_jobs hjs).mpr ⟨hzoom, sheet, hsheet, hfs⟩, rfl, hlines⟩
  refine ⟨?_, htiles, fun place sheet fs hzoom hsheet hfs hplaced => ?_⟩
  · obtain ⟨sheets, hsheets, hlength⟩ := length_of_jobs hjs
    refine ⟨sheets, hsheets, ?_⟩
    rw [(written_of_perform hagree hp).1, hlength]
    exact Nat.zero_add _
  · -- every tile could be shown
    obtain ⟨sheet', hsheet', hshown⟩ := write_ok_iff.mp ⟨p, h⟩ _ hzoom
    cases hsheet.symm.trans hsheet'
    obtain ⟨lines, hlines⟩ := hshown _ _ hfs
    rw [(htiles place lines).mpr ⟨hzoom, sheet, fs, hsheet, hfs, hlines⟩, Option.some_inj]
    exact content_eq_nil_iff hk hplaced hlines

/-- **Every tile that features are assigned to is written and counted, and it is empty exactly if there
is no extended line in it.**  There is something of a feature in each, but that can be a point.  Of tiles
with a line that has a NaN coordinate it is not said which are empty. -/
theorem assigned_accounts (hk : k.KeepsTraces) (features : List (Feature α)) :
    (∀ zoom sheet, assign k features zoom = .ok sheet → ∀ tile fs, sheet.get? tile = some fs →
      Stands k features zoom tile fs) ∧
    (∀ zooms, (∃ p, (Pyramid.write k features zooms).result = .ok p) ↔
      ∀ zoom ∈ zooms, ∃ sheet, assign k features zoom = .ok sheet ∧
        ∀ tile fs, sheet.get? tile = some fs → ∃ lines, content (.ofKernel k) fs zoom = .ok lines) ∧
    ∀ zooms p, (Pyramid.write k features zooms).result = .ok p → p.Accounts k features zooms :=
  ⟨fun _ _ hsheet _ _ hfs => stands_of_assign hk hsheet hfs, fun _ => write_ok_iff,
    fun _ _ hp => accounts_of_write hk hp⟩

/-! ### A line that ends at the edge of a tile -/

/-- Plane geometry on lines along parallels, which are joined without repeated points. -/
def joining : Kernel Rat (Box Rat) where
  __ := parallels
  join lines := parallels.join ((lines.map (dropRepeats Point.same)).filter (2 ≤ ·.length))

theorem joining_keepsTraces : joining.KeepsTraces where
  joins lines _ _ := by
    have htwo : ∀ l ∈ (lines.map (dropRepeats Point.same)).filter (2 ≤ ·.length), 2 ≤ l.length :=
      fun l hl => of_decide_eq_true (List.mem_filter.mp hl).2
    refine ⟨_, .many rfl, ?_, Line.two_le_joinAll htwo⟩
    rw [tracesOf, tracesOf, Line.segmentsOf_joinAll htwo, segmentsOf_filter]
  two_le_simplify _ _ h := h

/-- A border along a parallel, up to the meridian between two tiles. -/
def touching : Feature Rat where
  __ := equator
  geometry := some (.line [⟨-10, 10, none⟩, ⟨0, 10, none⟩])
  buffer := .whole 0

/-- At zoom 1 it is written in two tiles, but drawn in one. -/
theorem write_touching : ∃ p, (Pyramid.write joining [touching] [1]).result = .ok p ∧ p.written = 2 ∧
    (p.tiles.get? (1, 0, 0)).map (List.map Drawn.line) =
      some [[⟨-10, 10, none⟩, ⟨0, 10, none⟩]] ∧
    p.tiles.get? (1, 1, 0) = some [] := by
  have hcounted : (Pyramid.write joining [touching] [1]).result.toOption.map
      (fun p => (p.written, (p.tiles.get? (1, 1, 0)).map List.length)) = some (2, some 0) := by
    decide +kernel
  have hdrawn : (Pyramid.write joining [touching] [1]).result.toOption.bind
      (fun p => (p.tiles.get? (1, 0, 0)).map (List.map Drawn.line)) =
        some [[⟨-10, 10, none⟩, ⟨0, 10, none⟩]] := by
    decide +kernel
  obtain ⟨p, hp, hcounts⟩ := Option.map_eq_some_iff.mp hcounted
  obtain ⟨hwritten, htouched⟩ := Prod.mk.inj hcounts
  rw [hp, Option.bind_some] at hdrawn
  obtain ⟨lines, hlines, hlength⟩ := Option.map_eq_some_iff.mp htouched
  obtain rfl := List.length_eq_zero_iff.mp hlength
  exact ⟨p, toOption_eq_some_iff.mp hp, hwritten, hdrawn, hlines⟩

/-- Of the two tiles of the border that ends at the edge of one, the one it touches is empty. -/
theorem assigned_accounts_touching : ∃ p : Pyramid Rat, p.Accounts joining [touching] [1] ∧
    p.written = 2 ∧ (p.tiles.get? (1, 0, 0)).map (List.map Drawn.line) =
      some [[⟨-10, 10, none⟩, ⟨0, 10, none⟩]] ∧ p.tiles.get? (1, 1, 0) = some [] := by
  obtain ⟨p, hp, hwritten, hdrawn, hempty⟩ := write_touching
  obtain ⟨-, -, haccounts⟩ := assigned_accounts joining_keepsTraces [touching]
  exact ⟨p, haccounts [1] p hp, hwritten, hdrawn, hempty⟩

/-- **The tile that a border just touches is empty.**  What there is of the border in it is the point
where it ends; the tile is written all the same, and counted. -/
theorem touched_empty : joining.KeepsTraces ∧
    joining.ExactOn id (.line [⟨-10, 10, none⟩, ⟨0, 10, none⟩]) ∧
    ∃ p sheet fs, (Pyramid.write joining [touching] [1]).result = .ok p ∧ p.written = 2 ∧
      p.tiles.get? (1, 1, 0) = some [] ∧ assign joining [touching] 1 = .ok sheet ∧
      sheet.get? (1, 0) = some fs ∧
      fs.map (fun f => f.geometry.map Geometry.points) = [some [⟨0, 10, none⟩]] ∧
      content (.ofKernel joining) fs 1 = .ok [] := by
  have hexact : parallels.ExactOn id (.line [⟨-10, 10, none⟩, ⟨0, 10, none⟩]) :=
    parallels_exactOn (by decide +kernel)
  refine ⟨joining_keepsTraces, ⟨hexact.bounds, hexact.meets, hexact.clip⟩, ?_⟩
  obtain ⟨p, hp, hwritten, -, hempty⟩ := write_touching
  obtain ⟨-, sheet, fs, hsheet, hfs, hcontent⟩ :=
    ((accounts_of_write joining_keepsTraces hp).tiles _ _).mp hempty
  have hpoint : (assign joining [touching] 1).toOption.bind (fun sheet => (sheet.get? (1, 0)).map
      (List.map fun f => f.geometry.map Geometry.points)) = some [some [⟨0, 10, none⟩]] := by
    decide +kernel
  rw [toOption_eq_some_iff.mpr hsheet, Option.bind_some, hfs] at hpoint
  exact ⟨p, sheet, fs, hp, hwritten, hempty, hsheet, hfs, Option.some.inj hpoint, hcontent⟩

end Tile
end BorderTiles
