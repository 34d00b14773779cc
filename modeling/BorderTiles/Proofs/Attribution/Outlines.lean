import BorderTiles.Proofs.Layer.Steps
import Mathlib.Data.List.Count
import Mathlib.Logic.Function.Iterate

/-!
# Attribution — every region by itself

The areas of the regions are made while a drain takes their lines from the pools, one region after the
other.  An area comes of the lines of its region alone, and a region that has none is reported.

* `outlineRegion_cases`: a region either has an area or is reported, in the words of
  `Notice.text_of_unmade?`.
* `keys_outlineEach`, `notices_outlineEach`: the regions that close have areas, the others a report each.
* An `Outlining` is the loop that asks the drain.  `iterate_step_eq`: whatever comes of the single
  regions, the loop visits each of them once, leaves none of their lines and does not touch the groups.

`outlineRegions_isolated` says this of any pools.
-/

namespace BorderTiles
variable {α ρ : Type}

/-! ### Lines added one after another -/

namespace Pools

/-- A line, the regions it is added under, and its group. -/
abbrev Addition (α : Type) := Line α × List Int × Option Group

/-- The pools with lines added, one after another. -/
def addEach (p : Pools α) (additions : List (Addition α)) : Pools α :=
  additions.foldl (fun p a => p.add a.1 a.2.1 a.2.2) p

/-- The lines added under a region, in their order, once for each mention. -/
def linesAdded (id : Int) (additions : List (Addition α)) : List (Line α) :=
  additions.flatMap fun a => List.replicate (a.2.1.count id) a.1

theorem listOf_addEach (additions : List (Addition α)) (p : Pools α) (id : Int) :
    (p.addEach additions).regions.listOf id = p.regions.listOf id ++ linesAdded id additions := by
  induction additions generalizing p with
  | nil => exact (List.append_nil _).symm
  | cons a rest ih =>
      calc (p.addEach (a :: rest)).regions.listOf id
          = (p.add a.1 a.2.1 a.2.2).regions.listOf id ++ linesAdded id rest := ih _
        _ = p.regions.listOf id ++ linesAdded id (a :: rest) := by
            rw [listOf_add, List.append_assoc]
            rfl

theorem filled_addEach (additions : List (Addition α)) {p : Pools α}
    (h : p.regions.Filled ∧ p.groups.Filled) :
    (p.addEach additions).regions.Filled ∧ (p.addEach additions).groups.Filled := by
  induction additions generalizing p with
  | nil => exact h
  | cons a rest ih => exact ih (filled_add h a.1 a.2.1 a.2.2)

/-- From empty pools on, a region has the lines added under it, if there are any. -/
theorem get?_addEach_eq_some {additions : List (Addition α)} {id : Int} {lines : List (Line α)} :
    (empty.addEach additions).regions.get? id = some lines ↔
      linesAdded id additions ≠ [] ∧ linesAdded id additions = lines := by
  have hfilled : (empty.addEach additions).regions.Filled :=
    (filled_addEach additions (p := empty) ⟨Table.filled_empty, Table.filled_empty⟩).1
  have hlist : (empty.addEach additions).regions.listOf id = linesAdded id additions :=
    listOf_addEach additions empty id
  rw [hfilled.get?_eq, hlist]
  split <;> simp_all

end Pools

/-! ### Reports -/

/-- The region of which a report says that it has no area. -/
def Notice.unmade? : Notice α → Option Int
  | .outlineRefused id _ | .outlineOpen id => some id
  | _ => none

/-- Such a report is a warning, with these words at its start. -/
theorem Notice.text_of_unmade? {n : Notice Float} {id : Int} (h : n.unmade? = some id) :
    n.level = .warning ∧ ∃ rest, n.text = "Unable to " ++ rest := by
  cases n with
  | outlineRefused id cause =>
      have hwords : "Unable to build boundary polygon for OSM relation " =
        "Unable to " ++ "build boundary polygon for OSM relation " := by simp
      refine ⟨rfl, "build boundary polygon for OSM relation " ++ (toString id ++ (": " ++
        cause.message)), ?_⟩
      show "Unable to build boundary polygon for OSM relation " ++ toString id ++ ": " ++
        cause.message = _
      rw [hwords]
      simp only [String.append_assoc]
  | outlineOpen id =>
      have hwords : "Unable to form closed polygon for OSM relation " =
        "Unable to " ++ "form closed polygon for OSM relation " := by simp
      refine ⟨rfl, "form closed polygon for OSM relation " ++ (toString id ++
        " (likely missing edges)"), ?_⟩
      show "Unable to form closed polygon for OSM relation " ++ toString id ++
        " (likely missing edges)" = _
      rw [hwords]
      simp only [String.append_assoc]
  | _ => cases h

namespace Attribution

/-! ### One region -/

/-- Whether lines have an area. -/
def closes (k : Kernel α ρ) (lines : List (Line α)) : Bool :=
  match k.outline lines with
  | .ok (some _) => true
  | _ => false

/-- The report on a region whose lines have no area. -/
def refusal? (k : Kernel α ρ) (id : Int) (lines : List (Line α)) : Option (Notice α) :=
  match k.outline lines with
  | .ok (some _) => none
  | .ok none => some (.outlineOpen id)
  | .error cause => some (.outlineRefused id cause)

/-- **What comes of a region**: an area, or the report that there is none. -/
theorem outlineRegion_cases (k : Kernel α ρ) (id : Int) (lines : List (Line α)) :
    (∃ area, outlineRegion k id lines = .ok area ∧ closes k lines = true ∧
      refusal? k id lines = none) ∨
    ∃ notice, outlineRegion k id lines = .error notice ∧ closes k lines = false ∧
      refusal? k id lines = some notice ∧ notice.unmade? = some id ∧ notice.level = .warning := by
  rw [outlineRegion, closes, refusal?]
  cases k.outline lines with
  | error cause => exact .inr ⟨_, rfl, rfl, rfl, rfl, rfl⟩
  | ok area =>
      cases area with
      | none => exact .inr ⟨_, rfl, rfl, rfl, rfl, rfl⟩
      | some area => exact .inl ⟨area, rfl, rfl, rfl⟩

/-! ### All regions -/

/-- The reports are those on the regions without an area, in the order of the regions. -/
theorem notices_outlineEach (k : Kernel α ρ) (known : Table Int ρ)
    (lines : List (Int × List (Line α))) :
    (outlineEach k known lines).2 = lines.filterMap fun e => refusal? k e.1 e.2 := by
  induction lines generalizing known with
  | nil => rfl
  | cons e rest ih =>
      obtain ⟨id, ls⟩ := e
      rcases outlineRegion_cases k id ls with ⟨area, hr, -, hnone⟩ | ⟨notice, hr, -, hsome, -⟩
      · simp only [outlineEach, hr, ih, List.filterMap_cons, hnone]
      · simp only [outlineEach, hr, ih, List.filterMap_cons, hsome]

/-- The regions that close come to the areas known before, in their order. -/
theorem keys_outlineEach (k : Kernel α ρ) {known : Table Int ρ} {lines : List (Int × List (Line α))}
    (hn : (lines.map Prod.fst).Nodup) (hnew : ∀ id ∈ lines.map Prod.fst, id ∉ known.keys) :
    (outlineEach k known lines).1.keys =
      known.keys ++ (lines.filter fun e => closes k e.2).map Prod.fst := by
  induction lines generalizing known with
  | nil => exact (List.append_nil _).symm
  | cons e rest ih =>
      obtain ⟨id, ls⟩ := e
      obtain ⟨hid, hrest⟩ := List.nodup_cons.mp hn
      obtain ⟨hidNew, hrestNew⟩ := List.forall_mem_cons.mp hnew
      rcases outlineRegion_cases k id ls with ⟨area, hr, hcloses, -⟩ | ⟨notice, hr, hopen, -⟩
      · have hput : (known.put id area).keys = known.keys ++ [id] := by
          rw [Table.put, Table.keys_update, if_neg hidNew]
        have hnew' : ∀ a ∈ rest.map Prod.fst, a ∉ (known.put id area).keys := by
          intro a ha hmem
          rw [hput, List.mem_append, List.mem_singleton] at hmem
          rcases hmem with hmem | rfl
          · exact hrestNew a ha hmem
          · exact hid ha
        simp only [outlineEach, hr, List.filter_cons, hcloses, if_true, List.map_cons]
        rw [ih hrest hnew', hput, List.append_assoc]
        rfl
      · simp only [outlineEach, hr, List.filter_cons, hopen, Bool.false_eq_true, if_false]
        exact ih hrest hrestNew

/-- The reports name the regions that do not close. -/
theorem unmade_refusals (k : Kernel α ρ) (lines : List (Int × List (Line α))) :
    (lines.filterMap fun e => refusal? k e.1 e.2).filterMap Notice.unmade? =
      (lines.filter fun e => !closes k e.2).map Prod.fst := by
  induction lines with
  | nil => rfl
  | cons e rest ih =>
      obtain ⟨id, ls⟩ := e
      rcases outlineRegion_cases k id ls with
        ⟨area, -, hcloses, hnone⟩ | ⟨notice, -, hopen, hsome, hid, -⟩
      · simp only [List.filterMap_cons, hnone, ih, List.filter_cons, hcloses, Bool.not_true,
          Bool.false_eq_true, if_false]
      · simp only [List.filterMap_cons, hsome, hid, ih, List.filter_cons, hopen, Bool.not_false,
          if_true, List.map_cons]

theorem warnings_refusals (k : Kernel α ρ) (lines : List (Int × List (Line α))) :
    (lines.filterMap fun e => refusal? k e.1 e.2).filter (·.level = .warning) =
      lines.filterMap fun e => refusal? k e.1 e.2 := by
  refine List.filter_eq_self.mpr fun notice hmem => decide_eq_true ?_
  obtain ⟨⟨id, ls⟩, -, hrefusal⟩ := List.mem_filterMap.mp hmem
  rcases outlineRegion_cases k id ls with ⟨area, -, -, hnone⟩ | ⟨n, -, -, hsome, -, hlevel⟩
  · cases hnone.symm.trans hrefusal
  · cases hsome.symm.trans hrefusal
    exact hlevel

/-- The regions that do not close are the others. -/
theorem mem_open_iff (lines : Table Int (List (Line α))) (k : Kernel α ρ) {id : Int} :
    id ∈ (lines.entries.filter fun e => !closes k e.2).map Prod.fst ↔
      id ∈ lines.keys ∧ id ∉ (lines.entries.filter fun e => closes k e.2).map Prod.fst := by
  simp only [List.mem_map, List.mem_filter, Table.keys, Prod.exists, exists_and_right, exists_eq_right]
  constructor
  · rintro ⟨ls, hmem, hopen⟩
    refine ⟨⟨ls, hmem⟩, ?_⟩
    rintro ⟨ls', hmem', hcloses⟩
    -- a region has one list of lines
    cases (Table.mem_entries_iff.mp hmem).symm.trans (Table.mem_entries_iff.mp hmem')
    rw [hcloses] at hopen
    cases hopen
  · rintro ⟨⟨ls, hmem⟩, hne⟩
    refine ⟨ls, hmem, ?_⟩
    cases hcloses : closes k ls with
    | true => exact absurd ⟨ls, hmem, hcloses⟩ hne
    | false => rfl

/-! ### The loop -/

/-- The loop over the regions: the pools, the drain that takes their lines, the regions visited, and the
areas and reports so far. -/
structure Outlining (α ρ : Type) where
  pools : Pools α
  drain : Drain
  visited : List Int
  areas : Table Int ρ
  notices : List (Notice α)

/-- The first region, and then the others. -/
theorem outlineEach_cons (k : Kernel α ρ) (known : Table Int ρ) (e : Int × List (Line α))
    (rest : List (Int × List (Line α))) :
    outlineEach k known (e :: rest) =
      ((outlineEach k (outlineEach k known [e]).1 rest).1,
        (outlineEach k known [e]).2 ++ (outlineEach k (outlineEach k known [e]).1 rest).2) := by
  obtain ⟨id, ls⟩ := e
  cases hr : outlineRegion k id ls <;> simp only [outlineEach, hr] <;> rfl

namespace Outlining
variable {k : Kernel α ρ} {o : Outlining α ρ}

/-- The loop before the first region. -/
def start (p : Pools α) : Outlining α ρ :=
  ⟨p, .going, [], ∅, [.outliningRegions p.regions.size]⟩

/-- The drain is asked for the lines of a region, and what comes of them is entered. -/
def step (k : Kernel α ρ) (o : Outlining α ρ) : Outlining α ρ :=
  match o.drain.next o.pools.regions with
  | (none, drain, regions) => { o with drain, pools := ⟨regions, o.pools.groups⟩ }
  | (some (id, lines), drain, regions) =>
    let taken := { o with
      drain
      pools := ⟨regions, o.pools.groups⟩
      visited := o.visited ++ [id] }
    match outlineRegion k id lines with
    | .ok area => { taken with areas := o.areas.put id area }
    | .error notice => { taken with notices := o.notices ++ [notice] }

/-- The drain has nothing to take: it ends, and nothing else happens. -/
theorem step_of_empty (h : o.pools.regions.entries = []) : o.step k = { o with drain := .ended } := by
  simp only [step, Drain.next_of_empty _ h]

/-- **One region**: it is visited, its lines leave the pool, and its area or the report on it is all that
comes of it. -/
theorem step_of_region (hd : o.drain = .going) {id : Int} {lines : List (Line α)}
    {rest : List (Int × List (Line α))} (h : o.pools.regions.entries = (id, lines) :: rest) :
    o.step k = {
      pools := ⟨o.pools.regions.erase id, o.pools.groups⟩
      drain := .going
      visited := o.visited ++ [id]
      areas := (outlineEach k o.areas [(id, lines)]).1
      notices := o.notices ++ (outlineEach k o.areas [(id, lines)]).2 } := by
  have hnext := Drain.next_of_entries h
  cases hr : outlineRegion k id lines with
  | ok area => simp only [step, hd, hnext, hr, outlineEach, List.append_nil]
  | error notice => simp only [step, hd, hnext, hr, outlineEach]

/-- A loop whose drain has ended on empty pools stays as it is. -/
theorem iterate_step_of_empty (h : o.pools.regions.entries = []) (hd : o.drain = .ended) (n : Nat) :
    (step k)^[n] o = o := by
  refine Function.iterate_fixed ?_ n
  rw [step_of_empty h, ← hd]

/-- **The whole loop**, once the drain has been asked often enough: every region has been visited, its
lines are gone, and the groups are as they were. -/
theorem iterate_step_eq {n : Nat} (hd : o.drain = .going) (hn : o.pools.regions.size < n) :
    (step k)^[n] o = {
      pools := ⟨∅, o.pools.groups⟩
      drain := .ended
      visited := o.visited ++ o.pools.regions.keys
      areas := (outlineEach k o.areas o.pools.regions.entries).1
      notices := o.notices ++ (outlineEach k o.areas o.pools.regions.entries).2 } := by
  induction n generalizing o with
  | zero => exact absurd hn (Nat.not_lt_zero _)
  | succ n ih =>
      rw [Function.iterate_succ_apply]
      cases he : o.pools.regions.entries with
      | nil =>
          have hempty : o.pools.regions = ∅ := Table.ext he
          have hkeys : o.pools.regions.keys = [] := congrArg (List.map Prod.fst) he
          rw [step_of_empty he, hkeys, ← hempty]
          refine (iterate_step_of_empty (o := { o with drain := .ended }) he rfl n).trans ?_
          simp only [outlineEach, List.append_nil]
      | cons e rest =>
          obtain ⟨id, lines⟩ := e
          have hrest : (o.pools.regions.erase id).entries = rest :=
            Table.entries_erase_of_entries he
          have hkeys : o.pools.regions.keys = id :: (o.pools.regions.erase id).keys := by
            rw [Table.keys, Table.keys, he, hrest]
            rfl
          have hsize : (o.pools.regions.erase id).size < n := by
            rw [Table.size, hrest]
            rw [Table.size, he, List.length_cons] at hn
            exact Nat.lt_of_succ_lt_succ hn
          rw [step_of_region hd he]
          refine (ih rfl hsize).trans ?_
          rw [outlineEach_cons k o.areas (id, lines) rest, hkeys]
          simp only [hrest, List.append_assoc, List.singleton_append]

end Outlining

variable [Mercator α]

/-- What comes of the regions of pools, of each by itself. -/
structure Isolated (k : Kernel α ρ) (p : Pools α) (areas : Table Int ρ) (notices : List (Notice α)) :
    Prop where
  /-- A region has the area of its own lines, if they have one. -/
  area : ∀ id area, areas.get? id = some area ↔
    ∃ lines, p.regions.get? id = some lines ∧ k.outline lines = .ok (some area)
  keys : areas.keys = (p.regions.entries.filter fun e => closes k e.2).map Prod.fst
  /-- If the pools have been filled line by line, these are the lines added under the region. -/
  added : ∀ additions, p = Pools.empty.addEach additions → ∀ id area, areas.get? id = some area ↔
    Pools.linesAdded id additions ≠ [] ∧
      k.outline (Pools.linesAdded id additions) = .ok (some area)
  /-- The lines of other regions are of no account. -/
  own : ∀ (q : Pools α) id, q.regions.get? id = p.regions.get? id →
    (outlineRegions k q.regions).1.get? id = areas.get? id
  reports : notices = .outliningRegions p.regions.size ::
    (p.regions.entries.filterMap fun e => refusal? k e.1 e.2) ++ [.regionsOutlined areas.size]
  /-- There is one warning for each region without an area, and none for any other. -/
  warned : ∀ id, ((notices.filter (·.level = .warning)).filterMap Notice.unmade?).count id =
    if id ∈ p.regions.keys ∧ id ∉ areas.keys then 1 else 0
  /-- The loop visits every region once, empties their pool and leaves the groups. -/
  loop : ∃ o : Outlining α ρ,
    (∀ n, p.regions.size < n → (Outlining.step k)^[n] (Outlining.start p) = o) ∧
    o.visited = p.regions.keys ∧ o.visited.Nodup ∧
    o.pools = ⟨∅, p.groups⟩ ∧ o.drain = .ended ∧
    o.areas = areas ∧ o.notices ++ [.regionsOutlined areas.size] = notices
  /-- The end of the input goes on from there. -/
  finish : ∀ layer : Layer α, layer.pools = p → layer.finished = false →
    (layer.finish k).layer.pools.regions = ∅ ∧
      (layer.finish k).result = (attributeGroups k areas layer.codes p.groups).result

/-- **One region has no say in what comes of another**, whether it has an area or not; and the warning
of one without an area says so. -/
theorem outlineRegions_isolated (k : Kernel α ρ) (p : Pools α) :
    Isolated k p (outlineRegions k p.regions).1 (outlineRegions k p.regions).2 ∧
      ∀ (n : Notice Float) (id : Int), n.unmade? = some id →
        n.level = .warning ∧ ∃ rest, n.text = "Unable to " ++ rest := by
  have hkeys : (outlineRegions k p.regions).1.keys =
      (p.regions.entries.filter fun e => closes k e.2).map Prod.fst :=
    keys_outlineEach k p.regions.nodup fun _ _ => List.not_mem_nil
  have hnotices : (outlineRegions k p.regions).2 = .outliningRegions p.regions.size ::
      (p.regions.entries.filterMap fun e => refusal? k e.1 e.2) ++
        [.regionsOutlined (outlineRegions k p.regions).1.size] := by
    rw [← notices_outlineEach k ∅]
    rfl
  refine ⟨?_, fun _ _ => Notice.text_of_unmade?⟩
  exact {
    area := fun _ _ => get?_outlineRegions
    keys := hkeys
    added := by
      rintro additions rfl id area
      simp only [get?_outlineRegions, Pools.get?_addEach_eq_some]
      constructor
      · rintro ⟨lines, ⟨hne, rfl⟩, harea⟩
        exact ⟨hne, harea⟩
      · rintro ⟨hne, harea⟩
        exact ⟨_, ⟨hne, rfl⟩, harea⟩
    own := by
      intro q id h
      refine Option.ext fun area => ?_
      rw [get?_outlineRegions, get?_outlineRegions, h]
    reports := hnotices
    warned := by
      intro id
      have hwarnings : (outlineRegions k p.regions).2.filter (·.level = .warning) =
          p.regions.entries.filterMap fun e => refusal? k e.1 e.2 := by
        rw [hnotices, List.filter_append, List.filter_cons_of_neg (by simp [Notice.level]),
          warnings_refusals, List.filter_cons_of_neg (by simp [Notice.level]), List.filter_nil,
          List.append_nil]
      have hunmade : ((p.regions.entries.filter fun e => !closes k e.2).map Prod.fst).Nodup :=
        p.regions.nodup.sublist (List.filter_sublist.map _)
      rw [hwarnings, unmade_refusals, hunmade.count, hkeys]
      exact if_congr (mem_open_iff p.regions k) rfl rfl
    loop := by
      refine ⟨_, fun n hn => Outlining.iterate_step_eq rfl hn, List.nil_append _, ?_, rfl, rfl, rfl, ?_⟩
      · exact p.regions.nodup
      · rfl
    finish := by
      rintro layer rfl hf
      obtain ⟨hresult, hlayer⟩ := Layer.finish_of_not_finished (k := k) hf
      exact ⟨by rw [hlayer], hresult⟩ }

end Attribution
end BorderTiles
