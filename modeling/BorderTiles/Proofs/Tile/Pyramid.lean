import BorderTiles.Proofs.Bordering
import BorderTiles.Proofs.Tile.Cover
import BorderTiles.Tile.Pyramid
import Mathlib.Data.List.Nodup

/-!
# Tile — the tiles that are written

* `Place.path_injective`: different tiles have different files.
* `jobs` are the tiles to write at several zooms, and `write_eq_ok` says that they are written one
  after the other.  At different zooms they have different places (`nodup_places`).
* `Agree`: jobs at one place have the same features, as all jobs of features have (`agree_of_jobs`).
  `written_of_perform`: jobs that agree leave at each place what its job shows, and each is counted.
  At different places nothing in this depends on their order (`perform_perm`).

`write_wellDefined` puts this together.
-/

namespace BorderTiles.Tile
variable {α ρ : Type}

/-! ### Files -/

/-- The decimal text of a whole number has a sign only in front. -/
theorem toList_toString (n : Int) : (toString n).toList =
    if 0 ≤ n then Nat.toDigits 10 n.toNat else '-' :: Nat.toDigits 10 (-n).toNat := by
  rw [Int.toString_eq_repr, Int.repr_eq_if, apply_ite String.toList, String.toList_append,
    Nat.toList_repr, Nat.toList_repr]
  rfl

theorem notMem_toDigits {c : Char} (hc : c.isDigit = false) (m : Nat) : c ∉ Nat.toDigits 10 m := by
  intro h
  rw [Nat.isDigit_of_mem_toDigits (by decide) (by decide) h] at hc
  cases hc

theorem slash_notMem_toString (n : Int) : '/' ∉ (toString n).toList := by
  rw [toList_toString]
  split
  · exact notMem_toDigits (by decide) _
  · rw [List.mem_cons, not_or]
    exact ⟨by decide, notMem_toDigits (by decide) _⟩

/-- A whole number can be read off its text. -/
theorem toString_injective {m n : Int} (h : (toString m).toList = (toString n).toList) : m = n := by
  have hvalue : ∀ {a b : Nat}, Nat.toDigits 10 a = Nat.toDigits 10 b → a = b := by
    intro a b h
    rw [← Nat.ofDigitChars_ten_toDigits (n := a), h, Nat.ofDigitChars_ten_toDigits]
  have hsign : ∀ {a b : Nat}, '-' :: Nat.toDigits 10 a ≠ Nat.toDigits 10 b := fun {a b} h =>
    notMem_toDigits (by decide) b (h ▸ List.mem_cons_self)
  rw [toList_toString, toList_toString] at h
  split at h <;> split at h
  · have := hvalue h
    omega
  · exact absurd h.symm hsign
  · exact absurd h hsign
  · have := hvalue (List.cons.inj h).2
    omega

/-- Texts without a slash, one before a slash each, are told apart by what they lead. -/
theorem cut_at_slash {a b r s : List Char} (ha : '/' ∉ a) (hb : '/' ∉ b)
    (h : a ++ '/' :: r = b ++ '/' :: s) : a = b ∧ r = s := by
  induction a generalizing b with
  | nil =>
      cases b with
      | nil => exact ⟨rfl, (List.cons.inj h).2⟩
      | cons c b => exact absurd ((List.cons.inj h).1 ▸ List.mem_cons_self) hb
  | cons c a ih =>
      cases b with
      | nil => exact absurd ((List.cons.inj h).1 ▸ List.mem_cons_self) ha
      | cons d b =>
          obtain ⟨rfl, htail⟩ := List.cons.inj h
          obtain ⟨rfl, rfl⟩ := ih (fun hc => ha (List.mem_cons_of_mem _ hc))
            (fun hc => hb (List.mem_cons_of_mem _ hc)) htail
          exact ⟨rfl, rfl⟩

theorem Place.toList_path (output : String) (p : Place) : (path output p).toList =
    output.toList ++ '/' :: ((toString p.1).toList ++ '/' :: ((toString p.2.1).toList ++
      '/' :: ((toString p.2.2).toList ++ ".geojson".toList))) := by
  have hslash : "/".toList = ['/'] := by decide
  simp only [path, directory, String.toList_append, hslash, List.append_assoc, List.cons_append,
    List.nil_append]

/-- **Different tiles have different files.** -/
theorem Place.path_injective (output : String) : Function.Injective (path output) := by
  intro p q h
  have htext := congrArg String.toList h
  rw [toList_path, toList_path, List.append_cancel_left_eq, List.cons.injEq] at htext
  obtain ⟨hzoom, htext⟩ := cut_at_slash (slash_notMem_toString _) (slash_notMem_toString _) htext.2
  obtain ⟨hcolumn, htext⟩ := cut_at_slash (slash_notMem_toString _) (slash_notMem_toString _) htext
  rw [List.append_cancel_right_eq] at htext
  exact Prod.ext (toString_injective hzoom)
    (Prod.ext (toString_injective hcolumn) (toString_injective htext))

/-! ### Jobs -/

theorem mem_sheet_jobs {sheet : Sheet α} {zoom : Int} {job : Job α} :
    job ∈ sheet.jobs zoom ↔ job.place.1 = zoom ∧ sheet.get? job.place.2 = some job.features := by
  rw [Sheet.jobs, List.mem_map]
  constructor
  · rintro ⟨e, he, rfl⟩
    exact ⟨rfl, Table.mem_entries_iff.mp he⟩
  · rintro ⟨rfl, h⟩
    exact ⟨_, Table.mem_entries_iff.mpr h, rfl⟩

variable [Mercator α] {k : Kernel α ρ} {features : List (Feature α)} {zooms : List Int}
  {js : List (Job α)} {p q : Pyramid α}

/-- The jobs of the tiles of features at several zooms. -/
def jobs (k : Kernel α ρ) (features : List (Feature α)) : List Int → Except Fault (List (Job α))
  | [] => .ok []
  | zoom :: rest => do
    let sheet ← assign k features zoom
    let later ← jobs k features rest
    return sheet.jobs zoom ++ later

theorem jobs_cons_eq_ok {zoom : Int} : jobs k features (zoom :: zooms) = .ok js ↔
    ∃ sheet later, assign k features zoom = .ok sheet ∧ jobs k features zooms = .ok later ∧
      js = sheet.jobs zoom ++ later := by
  rw [jobs, bind_eq_ok]
  constructor
  · rintro ⟨sheet, hsheet, h⟩
    obtain ⟨later, hlater, h⟩ := bind_eq_ok.mp h
    cases h
    exact ⟨sheet, later, hsheet, hlater, rfl⟩
  · rintro ⟨sheet, later, hsheet, hlater, rfl⟩
    exact ⟨sheet, hsheet, bind_eq_ok.mpr ⟨later, hlater, rfl⟩⟩

/-- **The jobs**: one for each zoom and each tile that features are assigned to, with those features. -/
theorem mem_jobs (h : jobs k features zooms = .ok js) {job : Job α} :
    job ∈ js ↔ job.place.1 ∈ zooms ∧ ∃ sheet, assign k features job.place.1 = .ok sheet ∧
      sheet.get? job.place.2 = some job.features := by
  induction zooms generalizing js with
  | nil =>
      cases h
      simp
  | cons zoom rest ih =>
      obtain ⟨sheet, later, hsheet, hlater, rfl⟩ := jobs_cons_eq_ok.mp h
      rw [List.mem_append, mem_sheet_jobs, ih hlater, List.mem_cons]
      constructor
      · rintro (⟨hzoom, hget⟩ | ⟨hzoom, hassigned⟩)
        · exact ⟨.inl hzoom, sheet, hzoom ▸ hsheet, hget⟩
        · exact ⟨.inr hzoom, hassigned⟩
      · rintro ⟨hzoom | hzoom, sheet', hsheet', hget⟩
        · rw [hzoom, hsheet] at hsheet'
          cases hsheet'
          exact .inl ⟨hzoom, hget⟩
        · exact .inr ⟨hzoom, sheet', hsheet', hget⟩

/-- The places of the jobs. -/
theorem mem_places (h : jobs k features zooms = .ok js) {place : Place} :
    place ∈ js.map Job.place ↔ place.1 ∈ zooms ∧ ∃ sheet, assign k features place.1 = .ok sheet ∧
      place.2 ∈ sheet.keys := by
  rw [List.mem_map]
  constructor
  · rintro ⟨job, hjob, rfl⟩
    obtain ⟨hzoom, sheet, hsheet, hfeatures⟩ := (mem_jobs h).mp hjob
    exact ⟨hzoom, sheet, hsheet, Table.mem_keys_iff.mpr ⟨_, hfeatures⟩⟩
  · rintro ⟨hzoom, sheet, hsheet, htile⟩
    obtain ⟨fs, hfs⟩ := Table.mem_keys_iff.mp htile
    exact ⟨⟨place, fs⟩, (mem_jobs h).mpr ⟨hzoom, sheet, hsheet, hfs⟩, rfl⟩

/-- Jobs of different zooms, and of different tiles of a zoom, are at different places. -/
theorem nodup_places (hn : zooms.Nodup) (h : jobs k features zooms = .ok js) :
    (js.map Job.place).Nodup := by
  induction zooms generalizing js with
  | nil =>
      cases h
      exact List.nodup_nil
  | cons zoom rest ih =>
      obtain ⟨hzoom, hrest⟩ := List.nodup_cons.mp hn
      obtain ⟨sheet, later, -, hlater, rfl⟩ := jobs_cons_eq_ok.mp h
      have hsheet : ((sheet.jobs zoom).map Job.place) = sheet.keys.map (zoom, ·) := by
        rw [Sheet.jobs, Table.keys, List.map_map, List.map_map]
        rfl
      rw [List.map_append, List.nodup_append, hsheet]
      refine ⟨sheet.nodup.map (Prod.mk_right_injective zoom), ih hrest hlater, ?_⟩
      rintro _ ha _ hb rfl
      obtain ⟨tile, -, rfl⟩ := List.mem_map.mp ha
      obtain ⟨job, hjob, hplace⟩ := List.mem_map.mp hb
      have hjobzoom : job.place.1 ∈ rest := ((mem_jobs hlater).mp hjob).1
      rw [hplace] at hjobzoom
      exact hzoom hjobzoom

/-- Where there are jobs for zooms, there are the same for the zooms in another order. -/
theorem jobs_perm {order : List Int} (h : zooms.Perm order) (hjs : jobs k features zooms = .ok js) :
    ∃ js', jobs k features order = .ok js' ∧ js.Perm js' := by
  induction h generalizing js with
  | nil => exact ⟨js, hjs, .refl _⟩
  | cons zoom _ ih =>
      obtain ⟨sheet, later, hsheet, hlater, rfl⟩ := jobs_cons_eq_ok.mp hjs
      obtain ⟨later', hlater', hperm⟩ := ih hlater
      exact ⟨_, jobs_cons_eq_ok.mpr ⟨sheet, later', hsheet, hlater', rfl⟩, hperm.append_left _⟩
  | swap a b zooms =>
      -- the tiles of one zoom do not depend on those of another
      obtain ⟨sheet, later, hsheet, hlater, rfl⟩ := jobs_cons_eq_ok.mp hjs
      obtain ⟨sheet', later', hsheet', hlater', rfl⟩ := jobs_cons_eq_ok.mp hlater
      refine ⟨sheet'.jobs a ++ (sheet.jobs b ++ later'), jobs_cons_eq_ok.mpr
        ⟨sheet', _, hsheet', jobs_cons_eq_ok.mpr ⟨sheet, later', hsheet, hlater', rfl⟩, rfl⟩, ?_⟩
      exact List.perm_append_comm_assoc _ _ _
  | trans _ _ ih₁ ih₂ =>
      obtain ⟨js₂, hjs₂, h₁⟩ := ih₁ hjs
      obtain ⟨js₃, hjs₃, h₂⟩ := ih₂ hjs₂
      exact ⟨js₃, hjs₃, h₁.trans h₂⟩

/-! ### Performing jobs -/

theorem perform_eq_ok {job : Job α} : p.perform k job = .ok q ↔
    ∃ lines, job.content k = .ok lines ∧ q = ⟨p.tiles.put job.place lines, p.written + 1⟩ := by
  rw [Pyramid.perform, bind_eq_ok]
  exact exists_congr fun lines => and_congr_right fun _ =>
    ⟨fun h => by cases h; rfl, fun h => h ▸ rfl⟩

theorem perform_cons_eq_ok {job : Job α} : (job :: js).foldlM (Pyramid.perform k) p = .ok q ↔
    ∃ lines, job.content k = .ok lines ∧
      js.foldlM (Pyramid.perform k) ⟨p.tiles.put job.place lines, p.written + 1⟩ = .ok q := by
  rw [List.foldlM_cons, bind_eq_ok]
  constructor
  · rintro ⟨_, hp, h⟩
    obtain ⟨lines, hlines, rfl⟩ := perform_eq_ok.mp hp
    exact ⟨lines, hlines, h⟩
  · rintro ⟨lines, hlines, h⟩
    exact ⟨_, perform_eq_ok.mpr ⟨lines, hlines, rfl⟩, h⟩

/-- Jobs are performed if each of them shows something. -/
theorem perform_ok : (∃ q, js.foldlM (Pyramid.perform k) p = .ok q) ↔
    ∀ job ∈ js, ∃ lines, job.content k = .ok lines := by
  induction js generalizing p with
  | nil => exact ⟨fun _ => nofun, fun _ => ⟨p, rfl⟩⟩
  | cons job rest ih =>
      simp only [perform_cons_eq_ok, List.forall_mem_cons]
      constructor
      · rintro ⟨q, lines, hlines, hq⟩
        exact ⟨⟨lines, hlines⟩, ih.mp ⟨q, hq⟩⟩
      · rintro ⟨⟨lines, hlines⟩, hrest⟩
        obtain ⟨q, hq⟩ := ih.mpr hrest
        exact ⟨q, lines, hlines, hq⟩

/-- Jobs at one place have the same features. -/
def Agree (js : List (Job α)) : Prop :=
  ∀ i ∈ js, ∀ j ∈ js, i.place = j.place → i.features = j.features

omit [Mercator α] in
theorem agree_of_nodup (hn : (js.map Job.place).Nodup) : Agree js :=
  fun _ hi _ hj hplace => congrArg Job.features (List.inj_on_of_nodup_map hn hi hj hplace)

/-- The jobs of features agree, also where a zoom is given twice. -/
theorem agree_of_jobs (h : jobs k features zooms = .ok js) : Agree js := by
  intro i hi j hj hplace
  obtain ⟨-, sheet, hsheet, hfeatures⟩ := (mem_jobs h).mp hi
  obtain ⟨-, sheet', hsheet', hfeatures'⟩ := (mem_jobs h).mp hj
  rw [← hplace] at hsheet' hfeatures'
  cases hsheet.symm.trans hsheet'
  exact Option.some.inj (hfeatures.symm.trans hfeatures')

/-- **What jobs that agree leave**: each the content of its own tile, and one more tile written. -/
theorem written_of_perform (ha : Agree js) (h : js.foldlM (Pyramid.perform k) p = .ok q) :
    q.written = p.written + js.length ∧ ∀ place lines, q.tiles.get? place = some lines ↔
      (∃ job ∈ js, job.place = place ∧ job.content k = .ok lines) ∨
        (place ∉ js.map Job.place ∧ p.tiles.get? place = some lines) := by
  induction js generalizing p with
  | nil =>
      cases h
      simp
  | cons job rest ih =>
      obtain ⟨ls, hls, h⟩ := perform_cons_eq_ok.mp h
      obtain ⟨hwritten, htiles⟩ := ih (fun i hi j hj => ha i (.tail _ hi) j (.tail _ hj)) h
      refine ⟨by rw [hwritten, List.length_cons, Nat.add_assoc, Nat.add_comm 1], fun place lines => ?_⟩
      rw [htiles, Table.get?_put]
      by_cases hplace : place = job.place
      · subst hplace
        -- a later job at this place shows the same
        have hlater : ∀ j ∈ rest, j.place = job.place → j.content k = .ok ls := by
          intro j hj he
          rw [Job.content, ha j (.tail _ hj) job (.head _) he, he]
          exact hls
        by_cases hagain : job.place ∈ rest.map Job.place
        · obtain ⟨j, hj, he⟩ := List.mem_map.mp hagain
          have hsame : (∃ j ∈ rest, j.place = job.place ∧ j.content k = .ok lines) ↔ ls = lines := by
            constructor
            · rintro ⟨i, hi, he', hlines⟩
              exact Except.ok.inj ((hlater i hi he').symm.trans hlines)
            · rintro rfl
              exact ⟨j, hj, he, hlater j hj he⟩
          simp [hls, hagain, hsame]
        · have hnone : ¬ ∃ j ∈ rest, j.place = job.place ∧ j.content k = .ok lines := by
            rintro ⟨j, hj, he, -⟩
            exact hagain (List.mem_map.mpr ⟨j, hj, he⟩)
          simp [hls, hagain, hnone]
      · simp [hplace, Ne.symm hplace]

/-- From no tile on, the tiles are those of the jobs. -/
theorem get?_of_agree (ha : Agree js) (h : js.foldlM (Pyramid.perform k) .empty = .ok p)
    {place : Place} {lines : List (Drawn α)} :
    p.tiles.get? place = some lines ↔ ∃ job ∈ js, job.place = place ∧ job.content k = .ok lines := by
  rw [(written_of_perform ha h).2]
  exact or_iff_left fun ⟨_, hempty⟩ => nomatch hempty

theorem get?_performed (hn : (js.map Job.place).Nodup)
    (h : js.foldlM (Pyramid.perform k) .empty = .ok p) {place : Place} {lines : List (Drawn α)} :
    p.tiles.get? place = some lines ↔ ∃ job ∈ js, job.place = place ∧ job.content k = .ok lines :=
  get?_of_agree (agree_of_nodup hn) h

theorem mem_keys_performed (hn : (js.map Job.place).Nodup)
    (h : js.foldlM (Pyramid.perform k) .empty = .ok p) {place : Place} :
    place ∈ p.tiles.keys ↔ place ∈ js.map Job.place := by
  simp only [Table.mem_keys_iff, get?_performed hn h, List.mem_map]
  constructor
  · rintro ⟨lines, job, hjob, hplace, -⟩
    exact ⟨job, hjob, hplace⟩
  · rintro ⟨job, hjob, hplace⟩
    -- all jobs have been performed
    obtain ⟨lines, hlines⟩ := perform_ok.mp ⟨p, h⟩ job hjob
    exact ⟨lines, job, hjob, hplace, hlines⟩

/-- As many tiles are counted as there are. -/
theorem written_eq_size (hn : (js.map Job.place).Nodup)
    (h : js.foldlM (Pyramid.perform k) .empty = .ok p) : p.written = p.tiles.size := by
  have hperm : p.tiles.keys.Perm (js.map Job.place) :=
    (List.perm_ext_iff_of_nodup p.tiles.nodup hn).mpr fun _ => mem_keys_performed hn h
  calc p.written = 0 + js.length := (written_of_perform (agree_of_nodup hn) h).1
    _ = (js.map Job.place).length := by rw [Nat.zero_add, List.length_map]
    _ = p.tiles.keys.length := hperm.length_eq.symm
    _ = p.tiles.size := List.length_map Prod.fst

/-- Pyramids with the same tiles. -/
structure Pyramid.Same (p q : Pyramid α) : Prop where
  tiles : ∀ place, p.tiles.get? place = q.tiles.get? place
  written : p.written = q.written

/-- **Jobs at different places can be performed in any order.** -/
theorem perform_perm {order : List (Job α)} (hn : (js.map Job.place).Nodup)
    (h : js.foldlM (Pyramid.perform k) .empty = .ok p) (horder : js.Perm order) :
    ∃ q, order.foldlM (Pyramid.perform k) .empty = .ok q ∧ p.Same q := by
  obtain ⟨q, hq⟩ : ∃ q, order.foldlM (Pyramid.perform k) .empty = .ok q :=
    perform_ok.mpr fun job hjob => perform_ok.mp ⟨p, h⟩ job (horder.mem_iff.mpr hjob)
  have hnorder : (order.map Job.place).Nodup := (horder.map _).nodup_iff.mp hn
  refine ⟨q, hq, fun place => ?_, ?_⟩
  · ext lines
    simp only [get?_performed hn h, get?_performed hnorder hq, horder.mem_iff]
  · rw [(written_of_perform (agree_of_nodup hn) h).1,
      (written_of_perform (agree_of_nodup hnorder) hq).1, horder.length_eq]

/-! ### Writing -/

theorem writeZoom_eq_ok {zoom : Int} : (p.writeZoom k features zoom).result = .ok q ↔
    ∃ sheet, assign k features zoom = .ok sheet ∧
      (sheet.jobs zoom).foldlM (Pyramid.perform k) p = .ok q := by
  rw [Pyramid.writeZoom, Logged.result_bind_eq_ok]
  refine exists_congr fun sheet => and_congr_right fun _ => ?_
  rw [Logged.result_bind_eq_ok]
  constructor
  · rintro ⟨_, hq, h⟩
    obtain ⟨-, -, h⟩ := Logged.result_bind_eq_ok.mp h
    cases h
    exact hq
  · exact fun h => ⟨q, h, Logged.result_bind_eq_ok.mpr ⟨(), rfl, rfl⟩⟩

/-- **Writing is performing the jobs** of all zooms, one after the other. -/
theorem write_eq_ok : (zooms.foldlM (Pyramid.writeZoom k features) p).result = .ok q ↔
    ∃ js, jobs k features zooms = .ok js ∧ js.foldlM (Pyramid.perform k) p = .ok q := by
  induction zooms generalizing p with
  | nil => exact ⟨fun h => ⟨[], rfl, h⟩, by rintro ⟨js, hjs, h⟩; cases hjs; exact h⟩
  | cons zoom rest ih =>
      rw [List.foldlM_cons, Logged.result_bind_eq_ok]
      simp only [writeZoom_eq_ok, ih, jobs_cons_eq_ok]
      constructor
      · rintro ⟨_, ⟨sheet, hsheet, hp⟩, later, hlater, hq⟩
        refine ⟨_, ⟨sheet, later, hsheet, hlater, rfl⟩, ?_⟩
        rw [List.foldlM_append]
        exact bind_eq_ok.mpr ⟨_, hp, hq⟩
      · rintro ⟨_, ⟨sheet, later, hsheet, hlater, rfl⟩, h⟩
        rw [List.foldlM_append] at h
        obtain ⟨_, hp, hq⟩ := bind_eq_ok.mp h
        exact ⟨_, ⟨sheet, hsheet, hp⟩, later, hlater, hq⟩

/-- The tiles of features at several zooms, each once in its own file. -/
structure Pyramid.WellDefined (k : Kernel α ρ) (features : List (Feature α)) (zooms : List Int)
    (p : Pyramid α) : Prop where
  /-- There is a tile for each zoom and each place that features are assigned to. -/
  keys : ∀ place, place ∈ p.tiles.keys ↔ place.1 ∈ zooms ∧ ∃ sheet,
    assign k features place.1 = .ok sheet ∧ place.2 ∈ sheet.keys
  /-- A tile shows the features assigned to it. -/
  content : ∀ place lines, p.tiles.get? place = some lines ↔ place.1 ∈ zooms ∧ ∃ sheet fs,
    assign k features place.1 = .ok sheet ∧ sheet.get? place.2 = some fs ∧
      Tile.content (.ofKernel k) fs place.1 = .ok lines
  files : ∀ output, (p.tiles.keys.map (Place.path output)).Nodup
  written : p.written = p.tiles.size
  /-- The jobs write to different files, and do so in any order. -/
  jobs : ∃ js, jobs k features zooms = .ok js ∧
    (∀ output, (js.map fun job => Place.path output job.place).Nodup) ∧
    ∀ order, js.Perm order → ∃ q, order.foldlM (Pyramid.perform k) .empty = .ok q ∧ p.Same q
  zooms : ∀ order, zooms.Perm order → ∃ q, (Pyramid.write k features order).result = .ok q ∧ p.Same q

/-- **The tile set is well defined**: tiles of several different zooms, once they are written, are each
written once, with what they show, and in any order. -/
theorem write_wellDefined (hn : zooms.Nodup) (h : (Pyramid.write k features zooms).result = .ok p) :
    p.WellDefined k features zooms := by
  obtain ⟨js, hjs, hp⟩ := write_eq_ok.mp h
  have hplaces : (js.map Job.place).Nodup := nodup_places hn hjs
  exact {
    keys := fun place => (mem_keys_performed hplaces hp).trans (mem_places hjs)
    content := by
      intro place lines
      rw [get?_performed hplaces hp]
      constructor
      · rintro ⟨job, hjob, rfl, hlines⟩
        obtain ⟨hzoom, sheet, hsheet, hfeatures⟩ := (mem_jobs hjs).mp hjob
        exact ⟨hzoom, sheet, job.features, hsheet, hfeatures, hlines⟩
      · rintro ⟨hzoom, sheet, fs, hsheet, hfs, hlines⟩
        exact ⟨⟨place, fs⟩, (mem_jobs hjs).mpr ⟨hzoom, sheet, hsheet, hfs⟩, rfl, hlines⟩
    files := fun output => p.tiles.nodup.map (Place.path_injective output)
    written := written_eq_size hplaces hp
    jobs := by
      refine ⟨js, hjs, fun output => ?_, fun order horder => perform_perm hplaces hp horder⟩
      have hpaths := hplaces.map (Place.path_injective output)
      rwa [List.map_map] at hpaths
    zooms := by
      intro order horder
      obtain ⟨js', hjs', hperm⟩ := jobs_perm horder hjs
      obtain ⟨q, hq, hsame⟩ := perform_perm hplaces hp hperm
      exact ⟨q, write_eq_ok.mpr ⟨js', hjs', hq⟩, hsame⟩ }

/-- The equator at the zooms 2 and 0: it is in four tiles at the one and in the only tile at the other. -/
theorem write_wellDefined_equator : ∃ p : Pyramid Rat,
    p.WellDefined parallels [bare, equator] [2, 0] ∧ p.written = 5 := by
  have hfive : (Pyramid.write parallels [bare, equator] [2, 0]).result.toOption.map (·.written) =
      some 5 := by decide +kernel
  cases h : (Pyramid.write parallels [bare, equator] [2, 0]).result with
  | error fault =>
      rw [h] at hfive
      cases hfive
  | ok p =>
      rw [h] at hfive
      exact ⟨p, write_wellDefined (by decide) h, Option.some.inj hfive⟩

end BorderTiles.Tile
