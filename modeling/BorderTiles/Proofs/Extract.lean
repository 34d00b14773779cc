import BorderTiles.Extract
import BorderTiles.Proofs.Fractions
import BorderTiles.Proofs.Layer.Visits

/-!
# Extract — reading in file order

The ways of an extract reach the layer in batches.  `Extract.way?` is what is read of a way: its
positions and one record for each of its memberships in accepted relations.  `enter_reads` says that
reading an extract is meeting its relations and then these ways, each in file order, whatever the size
of a batch.

* `members_eq`: what the first pass gives.
* `meetAll_eq`: a batch without a fault is met way by way.
* `Batch.Covers` is what holds between two ways of the second pass: the ways in the batches and those
  that wait are those of the paths seen so far.  A flush keeps it (`Covers.flush`), and a path adds its
  own way (`Covers.enter`).
-/

namespace BorderTiles.Extract
variable {α : Type}

/-- Whether a relation is an administrative boundary. -/
def Membership.accepted (r : Membership) : Bool := (Relation.ofTags? r.id r.tags).isSome

/-- The accepted relations that a way is a member of, each as often as it is. -/
def membershipsIn (relations : List Membership) (way : Int) : List Int :=
  (relations.filter (·.accepted)).flatMap fun r => List.replicate (r.members.count (.way way)) r.id

/-- The accepted relations of the extract that a way is a member of. -/
def memberships (e : Extract α) (way : Int) : List Int := membershipsIn e.relations way

/-- Whether a way with two nodes or more belongs to an accepted relation. -/
def referenced (e : Extract α) (p : Path) : Bool := e.memberships p.id ≠ [] ∧ 2 ≤ p.nodes.length

/-- The layer after the relations. -/
def related (e : Extract α) (layer : Layer α) : Layer α :=
  layer.enterRelations (e.relations.map fun r => (r.id, r.tags))

/-- The positions of a way are the places of its nodes, all of which have one. -/
theorem positions?_eq_some {e : Extract α} {p : Path} {positions : List (List α)} :
    e.positions? p = some positions ↔ List.Forall₂ (fun n position =>
      ∃ lon lat, e.place n = some (lon, lat) ∧ position = [lon, lat]) p.nodes positions := by
  rw [positions?]
  induction p.nodes generalizing positions with
  | nil =>
      rw [List.mapM_nil, List.forall₂_nil_left_iff]
      exact ⟨fun h => by cases h; rfl, fun h => h ▸ rfl⟩
  | cons n rest ih =>
      rw [List.mapM_cons, List.forall₂_cons_left_iff]
      cases hn : e.place n with
      | none => exact ⟨nofun, by rintro ⟨_, _, ⟨_, _, h, -⟩, -⟩; cases h⟩
      | some place =>
          obtain ⟨lon, lat⟩ := place
          rw [Option.map_some, Option.bind_eq_bind, Option.bind_some, Option.bind_eq_bind,
            Option.bind_eq_some_iff]
          constructor
          · rintro ⟨tail, htail, h⟩
            cases h
            exact ⟨[lon, lat], tail, ⟨lon, lat, rfl, rfl⟩, ih.mp htail, rfl⟩
          · rintro ⟨_, tail, ⟨_, _, h, rfl⟩, htail, rfl⟩
            cases h
            exact ⟨tail, ih.mpr htail, rfl⟩

/-- What is read of a way by a layer that has met the relations. -/
def way? [Mercator α] (e : Extract α) (related : Layer α) (p : Path) : Option (Way α) :=
  if e.referenced p then
    (e.positions? p).map fun positions =>
      ⟨p.id, p.tags, positions, related.relationsOf (e.memberships p.id)⟩
  else none

/-- What is read of the ways by a layer, in file order. -/
def met [Mercator α] (e : Extract α) (layer : Layer α) : List (Way α) :=
  e.ways.filterMap (e.way? (e.related layer))

/-! ### The first pass -/

/-- The members that are ways are told apart by their ids. -/
theorem count_ways (members : List Member) (way : Int) :
    (members.filterMap Member.way?).count way = members.count (.way way) := by
  induction members with
  | nil => rfl
  | cons m rest ih =>
      cases m <;> simp [Member.way?, List.filterMap_cons, List.count_cons, ih]

/-- One relation: it is met, and its ways become members if it is accepted. -/
theorem members_enter (m : Members α) (r : Membership) :
    (m.enter r).layer = (m.layer.enterRelation r.id r.tags).2 ∧
      (m.enter r).ofWay =
        if r.accepted then
          (r.members.filterMap Member.way?).foldl (fun t way => t.append way r.id) m.ofWay
        else m.ofWay := by
  rw [Membership.accepted, ← m.layer.enterRelation_record, Members.enter]
  cases m.layer.enterRelation r.id r.tags with
  | mk record layer => cases record <;> exact ⟨rfl, rfl⟩

/-- **The first pass**: the relations are met, and every way has its memberships. -/
theorem members_eq (m : Members α) (relations : List Membership) :
    (relations.foldl Members.enter m).layer =
        m.layer.enterRelations (relations.map fun r => (r.id, r.tags)) ∧
      (∀ way, (relations.foldl Members.enter m).ofWay.listOf way =
        m.ofWay.listOf way ++ membershipsIn relations way) ∧
      (m.ofWay.Filled → (relations.foldl Members.enter m).ofWay.Filled) := by
  induction relations generalizing m with
  | nil => exact ⟨rfl, fun way => (List.append_nil _).symm, id⟩
  | cons r rest ih =>
      obtain ⟨hlayer, hmembers, hfilled⟩ := ih (m.enter r)
      obtain ⟨hl, hw⟩ := members_enter m r
      refine ⟨hlayer.trans (congrArg (Layer.enterRelations · _) hl), fun way => ?_,
        fun h => hfilled ?_⟩
      · rw [List.foldl_cons, hmembers, hw, membershipsIn, membershipsIn, List.filter_cons]
        split
        · rw [Table.listOf_appendEach, count_ways, List.flatMap_cons, List.append_assoc]
        · rfl
      · rw [hw]
        split
        · exact h.appendEach _ r.id
        · exact h

/-- The first pass over an extract. -/
theorem members_of_extract (e : Extract α) (layer : Layer α) :
    (e.relations.foldl Members.enter ⟨layer, ∅, 0⟩).layer = e.related layer ∧
      ∀ way, (e.relations.foldl Members.enter ⟨layer, ∅, 0⟩).ofWay.get? way =
        if e.memberships way = [] then none else some (e.memberships way) := by
  obtain ⟨hlayer, hmembers, hfilled⟩ := members_eq ⟨layer, ∅, 0⟩ e.relations
  refine ⟨hlayer, fun way => ?_⟩
  rw [(hfilled Table.filled_empty).get?_eq, hmembers, Table.listOf_empty, List.nil_append]
  rfl

/-- Every membership has a record once the relations are known. -/
theorem records_of_memberships (e : Extract α) (layer : Layer α) (way : Int) :
    List.Forall₂ (fun id r => (e.related layer).relations.get? id = some r) (e.memberships way)
      ((e.related layer).relationsOf (e.memberships way)) := by
  refine Layer.forall₂_relationsOf fun id hmem => ?_
  obtain ⟨r, hr, hid⟩ := List.mem_flatMap.mp hmem
  obtain ⟨hrelation, haccepted⟩ := List.mem_filter.mp hr
  obtain rfl := List.eq_of_mem_replicate hid
  exact Layer.stored_enterRelations
    (.inr ⟨r.tags, List.mem_map.mpr ⟨r, hrelation, rfl⟩, haccepted⟩)

/-- The ways met so far are those of the batches. -/
theorem Batch.processed_eq (b : Batch α) : b.processed = b.batches.flatten.length := by
  have hfold : ∀ (batches : List (List (Way α))) (n : Nat),
      batches.foldl (fun n ways => n + ways.length) n = n + batches.flatten.length := by
    intro batches
    induction batches with
    | nil => exact fun n => rfl
    | cons ways rest ih =>
        intro n
        rw [List.foldl_cons, ih, List.flatten_cons, List.length_append, Nat.add_assoc]
  rw [processed, hfold, Nat.zero_add]

/-! ### The second pass -/

variable [Mercator α]

/-- Whatever a layer has met, it meets a way whose nodes have places without a fault. -/
def Quiet (e : Extract α) : Prop :=
  ∀ (now : Layer α) (p : Path) (positions : List (List α)) (relations : List Relation),
    e.positions? p = some positions →
    ∃ answer, (now.enterWay ⟨p.id, p.tags, positions, relations⟩).result = .ok answer

/-- A batch of ways without a fault is met way by way. -/
theorem meetAll_eq {ways : List (Way α)}
    (h : ∀ w ∈ ways, ∀ now : Layer α, ∃ answer, (now.enterWay w).result = .ok answer)
    (layer : Layer α) : (Batch.meetAll layer ways).layer = layer.enterEach ways ∧
      (Batch.meetAll layer ways).result = .ok () := by
  induction ways generalizing layer with
  | nil => exact ⟨rfl, rfl⟩
  | cons w rest ih =>
      obtain ⟨hw, hrest⟩ := List.forall_mem_cons.mp h
      obtain ⟨answer, hanswer⟩ := hw layer
      simp only [Batch.meetAll, hanswer]
      exact ih hrest (layer.enterWay w).layer

/-- What holds between two ways of the second pass, after some paths have been seen. -/
structure Batch.Covers (e : Extract α) (related : Layer α) (seen : List Path) (b : Batch α) :
    Prop where
  layer : b.layer = related.enterEach b.batches.flatten
  ways : b.batches.flatten ++ b.waiting = seen.filterMap (e.way? related)
  counted : b.batches.flatten.length + b.waiting.length + b.skipped =
    (seen.filter e.referenced).length
  nonempty : [] ∉ b.batches
  noFault : b.fault = none

namespace Batch.Covers
variable {e : Extract α} {related : Layer α} {seen : List Path} {b : Batch α}

/-- The ways that wait are met without a fault. -/
theorem quiet (h : b.Covers e related seen) (he : e.Quiet) :
    ∀ w ∈ b.waiting, ∀ now : Layer α, ∃ answer, (now.enterWay w).result = .ok answer := by
  intro w hw now
  have hmem : w ∈ seen.filterMap (e.way? related) := h.ways ▸ List.mem_append_right _ hw
  obtain ⟨p, -, hp⟩ := List.mem_filterMap.mp hmem
  rw [way?] at hp
  split at hp
  · obtain ⟨positions, hpositions, rfl⟩ := Option.map_eq_some_iff.mp hp
    exact he now p positions _ hpositions
  · cases hp

/-- **A flush** moves the waiting ways into a batch of their own. -/
theorem flush (h : b.Covers e related seen) (he : e.Quiet) : b.flush.Covers e related seen := by
  cases hw : b.waiting.isEmpty with
  | true => simpa only [Batch.flush, hw, if_true] using h
  | false =>
      obtain ⟨hlayer, hresult⟩ := meetAll_eq (h.quiet he) b.layer
      simp only [Batch.flush, hw, Bool.false_eq_true, if_false]
      have hflat : (b.batches ++ [b.waiting]).flatten = b.batches.flatten ++ b.waiting := by simp
      exact {
        layer := by rw [hlayer, h.layer, hflat, Layer.enterEach_append]
        ways := by rw [hflat, List.append_nil, h.ways]
        counted := by rw [hflat, List.length_append, ← h.counted]; rfl
        nonempty := by
          simp only [List.mem_append, List.mem_singleton, not_or]
          exact ⟨h.nonempty, fun hnil => by rw [← hnil] at hw; cases hw⟩
        noFault := by rw [h.noFault, hresult] }

/-- A path that belongs to no accepted relation adds nothing. -/
theorem of_not_referenced (h : b.Covers e related seen) {p : Path} (hp : e.referenced p = false) :
    b.Covers e related (seen ++ [p]) where
  layer := h.layer
  ways := by simp [h.ways, way?, hp]
  counted := by rw [h.counted]; simp [hp]
  nonempty := h.nonempty
  noFault := h.noFault

/-- A path with a node that has no place is skipped. -/
theorem skip (h : b.Covers e related seen) {p : Path} (hp : e.referenced p = true)
    (hplace : e.positions? p = none) (notices : List (Notice α)) :
    { b with skipped := b.skipped + 1, notices }.Covers e related (seen ++ [p]) where
  layer := h.layer
  ways := by simp [h.ways, way?, hp, hplace]
  counted := by simp [← h.counted, hp]; omega
  nonempty := h.nonempty
  noFault := h.noFault

/-- Any other path adds its way to those that wait. -/
theorem collect (h : b.Covers e related seen) {p : Path} {w : Way α} (hp : e.referenced p = true)
    (hw : e.way? related p = some w) :
    { b with waiting := b.waiting ++ [w] }.Covers e related (seen ++ [p]) where
  layer := h.layer
  ways := by simp [← h.ways, hw]
  counted := by simp [← h.counted, hp]; omega
  nonempty := h.nonempty
  noFault := h.noFault

/-- **A path** adds its own way, if it has one, whatever the size of a batch. -/
theorem enter (h : b.Covers e related seen) (he : e.Quiet) {ofWay : Table Int (List Int)}
    (hmembers : ∀ way, ofWay.get? way =
      if e.memberships way = [] then none else some (e.memberships way))
    (size : Int) (p : Path) : (b.enter e ofWay size p).Covers e related (seen ++ [p]) := by
  rw [Batch.enter, hmembers]
  by_cases hnone : e.memberships p.id = []
  · rw [if_pos hnone]
    exact h.of_not_referenced (by simp [referenced, hnone])
  · simp only [if_neg hnone]
    by_cases hfew : p.nodes.length < 2
    · rw [if_pos hfew]
      exact h.of_not_referenced (by simp [referenced, hfew])
    · have hp : e.referenced p = true := by simp [referenced, hnone, Nat.le_of_not_lt hfew]
      rw [if_neg hfew]
      cases hplace : e.positions? p with
      | none => exact h.skip hp hplace _
      | some positions =>
          -- ways that have been met do not change what is stored of the relations
          have hrelations : b.layer.relations = related.relations := by
            rw [h.layer]
            exact (related.enterEach_frame _).2.1
          have hw : e.way? related p = some ⟨p.id, p.tags, positions,
              b.layer.relationsOf (e.memberships p.id)⟩ := by
            simp only [way?, hp, hplace, if_true, Option.map_some, Layer.relationsOf, hrelations]
          have hcollected := h.collect hp hw
          dsimp only
          split
          · exact hcollected.flush he
          · exact hcollected

/-- **The second pass** meets the ways of all paths. -/
theorem run (h : b.Covers e related seen) (he : e.Quiet) {ofWay : Table Int (List Int)}
    (hmembers : ∀ way, ofWay.get? way =
      if e.memberships way = [] then none else some (e.memberships way))
    (size : Int) (paths : List Path) :
    (paths.foldl (Batch.enter e ofWay size) b).Covers e related (seen ++ paths) := by
  induction paths generalizing b seen with
  | nil => rwa [List.append_nil]
  | cons p rest ih =>
      rw [List.append_cons]
      exact ih (h.enter he hmembers size p)

end Batch.Covers

theorem Batch.waiting_flush (b : Batch α) : b.flush.waiting = [] := by
  cases hw : b.waiting.isEmpty with
  | true => simpa only [Batch.flush, hw, if_true] using List.isEmpty_iff.mp hw
  | false => simp only [Batch.flush, hw, Bool.false_eq_true, if_false]

/-! ### Both passes -/

/-- An extract has been read as its relations and then its ways, each in file order. -/
structure Reads (e : Extract α) (start : Layer α) (entered : Entered α) : Prop where
  layer : entered.layer = (e.related start).enterEach (e.met start)
  /-- Each of the ways is in one batch. -/
  batches : entered.batches.flatten = e.met start
  nonempty : [] ∉ entered.batches
  result : entered.result = .ok (e.met start).length
  /-- The ways that are met and those that are skipped are the ways of the accepted relations. -/
  counted : ∃ notices skipped,
    entered.notices = notices ++ [.waysProcessed (e.met start).length skipped] ∧
      (e.met start).length + skipped = (e.ways.filter e.referenced).length

/-- Reading comes to its end with every way in a batch. -/
theorem reads_enter {e : Extract α} (he : e.Quiet) (start : Layer α) (size : Int) :
    e.Reads start (e.enter start size) := by
  obtain ⟨hlayer, hmembers⟩ := e.members_of_extract start
  have hbefore : Batch.Covers e (e.related start) []
      ⟨(e.relations.foldl Members.enter ⟨start, ∅, 0⟩).layer, [], [], 0, [], none⟩ :=
    { layer := hlayer
      ways := rfl
      counted := rfl
      nonempty := List.not_mem_nil
      noFault := rfl }
  -- the last batch need not be full
  have hlast := (hbefore.run he hmembers size e.ways).flush he
  obtain ⟨hmet, hall, hcounted, hnonempty, hfault⟩ := hlast
  rw [Batch.waiting_flush, List.append_nil] at hall
  rw [Batch.waiting_flush, hall] at hcounted
  rw [hall] at hmet
  simp only [enter, hfault, Batch.processed_eq, hall]
  exact {
    layer := hmet
    batches := hall
    nonempty := hnonempty
    result := rfl
    counted := ⟨_, _, rfl, hcounted⟩ }

/-- **An extract is read in file order**, whatever the size of a batch.  The records of a way are those
that its memberships have after all relations. -/
theorem enter_reads {e : Extract α} (he : e.Quiet) (start : Layer α) (size : Int) :
    e.Reads start (e.enter start size) ∧
      (∀ p ∈ e.ways, ∀ w, e.way? (e.related start) p = some w →
        List.Forall₂ (fun id r => (e.related start).relations.get? id = some r)
          (e.memberships p.id) w.relations) ∧
      ∀ other, (e.enter start other).layer = (e.enter start size).layer ∧
        (e.enter start other).result = (e.enter start size).result ∧
        (e.enter start other).batches.flatten = (e.enter start size).batches.flatten := by
  have hreads := reads_enter he start size
  refine ⟨hreads, ?_, fun other => ?_⟩
  · intro p _ w hw
    rw [way?] at hw
    split at hw
    · obtain ⟨positions, -, rfl⟩ := Option.map_eq_some_iff.mp hw
      exact e.records_of_memberships start p.id
    · cases hw
  · have hother := reads_enter he start other
    exact ⟨hother.layer.trans hreads.layer.symm, hother.result.trans hreads.result.symm,
      hother.batches.trans hreads.batches.symm⟩

/-- If latitudes have a latitude again, a way whose nodes have places gives no fault. -/
theorem quiet_of_reversible (hα : Mercator.Reversible α) (e : Extract α) : e.Quiet := by
  intro now p positions relations hpositions
  refine now.enterWay_ok fun position hmem => ?_
  obtain ⟨n, -, lon, lat, -, rfl⟩ := exists_left_of_mem (positions?_eq_some.mp hpositions) hmem
  exact ⟨lon, lat, rfl, hα lat⟩

/-- Two countries, one of them given twice, and a relation that is no border.  A node and a way have the
same id. -/
def atlas : Extract Rat where
  place n := if n < 5 then some (n, 2 * n) else none
  relations :=
    [⟨1, [.way 10, .way 11, .node 10, .way 10], Relation.adminTags "2" (some "AAA")⟩,
      ⟨2, [.way 10, .way 12, .relation 14], Relation.adminTags "2" none⟩,
      ⟨1, [.way 13, .node 14], Relation.adminTags "4" none⟩, ⟨3, [.way 11, .way 14], ∅⟩]
  ways :=
    [⟨10, [1, 2, 3], ∅⟩, ⟨11, [2, 9], ∅⟩, ⟨12, [4], ∅⟩, ⟨14, [1, 3], ∅⟩, ⟨10, [2, 4], ∅⟩,
      ⟨13, [0, 1, 0], ∅⟩]

/-- In batches of two and of one: three ways of the four that belong to a border are met. -/
theorem enter_reads_atlas :
    let start : Layer Rat := .new true []
    atlas.Reads start (atlas.enter start 2) ∧
      (atlas.enter start 0).layer = (atlas.enter start 2).layer ∧
      (atlas.enter start 2).batches.map List.length = [2, 1] ∧
      (atlas.enter start 0).batches.map List.length = [1, 1, 1] ∧
      (atlas.met start).map (fun w => (w.id, w.relations.map Relation.level)) =
        [(10, [4, 4, 2]), (10, [4, 4, 2]), (13, [4])] ∧
      (atlas.ways.filter atlas.referenced).length = 4 := by
  intro start
  obtain ⟨hreads, -, hsame⟩ := enter_reads (quiet_of_reversible reversible_rat atlas) start 2
  refine ⟨hreads, (hsame 0).1, ?_, ?_, ?_, ?_⟩ <;> decide +kernel

end BorderTiles.Extract
