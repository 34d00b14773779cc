import BorderTiles.Layer
import BorderTiles.Proofs.Attribution
import BorderTiles.Proofs.Pools
import BorderTiles.Proofs.Summary

/-!
# Layer — what a step does

Each operation of the layer, said once.

* A way is *accepted* (`Way.accepted?`) if it has a summary and a line.  `enterWay_layer`: an
  accepted way is drawn or waits (`Layer.taking`), any other leaves the layer as it is;
  `enterWay_deferred` and `enterWay_immediate` say which of both.
* `enterRelation_cases`: a relation is noted or leaves the layer as it is.
* `finish_of_finished`, `finish_of_not_finished`: a finish that is not the first changes nothing, the
  first one adds the features of `Layer.attribution`, which are those of the first joined lines of the
  groups (`finish_features`).  `pools_of_finish`: one that comes to its end leaves no line waiting.
-/

namespace BorderTiles

/-- The summary and the line of a way, if it has both. -/
def Way.accepted? {α : Type} [Mercator α] (codes : CountryCodes) (w : Way α) :
    Option (Summary × Line α) :=
  match Summary.of? w.tags w.relations codes, Line.ofDegrees w.positions with
  | some s, .ok line => some (s, line)
  | _, _ => none

theorem Way.accepted?_eq_some_iff {α : Type} [Mercator α] {codes : CountryCodes} {w : Way α}
    {s : Summary} {line : Line α} : w.accepted? codes = some (s, line) ↔
      Summary.of? w.tags w.relations codes = some s ∧ Line.ofDegrees w.positions = .ok line := by
  rw [accepted?]
  split <;> simp_all

/-- The line of a way that is part of a border: it has a relation, and its positions make a line. -/
def Way.line? {α : Type} [Mercator α] (w : Way α) : Option (Line α) :=
  if w.relations.isEmpty then none else (Line.ofDegrees w.positions).toOption

/-- The line of a way that is part of a border is that of its positions. -/
theorem Way.ofDegrees_of_line? {α : Type} [Mercator α] {w : Way α} {line : Line α}
    (h : w.line? = some line) : Line.ofDegrees w.positions = .ok line := by
  rw [line?] at h
  split at h
  · cases h
  · cases hd : Line.ofDegrees w.positions with
    | error fault => rw [hd] at h; cases h
    | ok l => rw [hd] at h; cases h; rfl

/-- The line of a way that is part of a border is the one that is accepted. -/
theorem Way.map_accepted? {α : Type} [Mercator α] (codes : CountryCodes) (w : Way α) :
    (w.accepted? codes).map Prod.snd = w.line? := by
  rw [accepted?, line?]
  cases hs : Summary.of? w.tags w.relations codes with
  | none => simp [Summary.of?_eq_none_iff.mp hs]
  | some s =>
      have hne : w.relations ≠ [] := fun h => by
        rw [Summary.of?_eq_none_iff.mpr h] at hs
        cases hs
      cases Line.ofDegrees w.positions <;> simp [hne, Except.toOption]

namespace Layer
variable {α ρ : Type}

/-! ### Relations -/

/-- **What a relation does to the layer**: it is noted, or nothing changes. -/
theorem enterRelation_cases (layer : Layer α) (id : Int) (tags : Tags) :
    layer.enterRelation id tags = (none, layer) ∨
      ∃ r, Relation.ofTags? id tags = some r ∧
        layer.enterRelation id tags = (some r, { layer with
          codes := (Relation.enter id tags layer.codes).2
          relations := layer.relations.put id r }) := by
  cases h : Relation.ofTags? id tags with
  | none => exact .inl (by simp [enterRelation, Relation.enter, h])
  | some r => exact .inr ⟨r, rfl, by simp [enterRelation, Relation.enter, h]⟩

/-- The answer for a relation is the record of its tags. -/
theorem enterRelation_record (layer : Layer α) (id : Int) (tags : Tags) :
    (layer.enterRelation id tags).1 = Relation.ofTags? id tags := by
  unfold enterRelation Relation.enter
  cases Relation.ofTags? id tags <;> rfl

/-- A relation changes the stored relations and their codes only. -/
theorem enterRelation_frame (layer : Layer α) (id : Int) (tags : Tags) :
    (layer.enterRelation id tags).2.countryNames = layer.countryNames ∧
      (layer.enterRelation id tags).2.pools = layer.pools ∧
      (layer.enterRelation id tags).2.finished = layer.finished ∧
      (layer.enterRelation id tags).2.features = layer.features := by
  rcases layer.enterRelation_cases id tags with e | ⟨r, -, e⟩ <;>
    rw [e] <;> exact ⟨rfl, rfl, rfl, rfl⟩

/-- A relation adds a text to the codes, if anything. -/
theorem spelled_enterRelation {layer : Layer α} (h : layer.codes.Spelled) (id : Int) (tags : Tags) :
    (layer.enterRelation id tags).2.codes.Spelled := by
  rcases layer.enterRelation_cases id tags with e | ⟨r, -, e⟩
  · rw [e]
    exact h
  · rw [e]
    exact h.enter id tags

variable [Mercator α]

/-! ### Ways -/

/-- The feature that the line of a way is drawn as at once: none if it waits or cannot be drawn. -/
def drawnAtOnce (names : Bool) (id : Int) (s : Summary) (line : Line α) : List (Feature α) :=
  match s.group? names, line.toDegrees with
  | none, .ok degrees => [.border degrees (s.border id)]
  | _, _ => []

/-- The layer once the line of a way is drawn or waits. -/
def taking (layer : Layer α) (id : Int) (s : Summary) (line : Line α) : Layer α :=
  { layer with
    pools := layer.pools.add line s.outlined.toList (s.group? layer.countryNames)
    features := layer.features ++ drawnAtOnce layer.countryNames id s line }

theorem enterLine_layer (layer : Layer α) (id : Int) (s : Summary) (line : Line α) :
    (layer.enterLine id s line).layer = layer.taking id s line := by
  cases hg : s.group? layer.countryNames with
  | some g => simp [enterLine, taking, drawnAtOnce, decision, hg]
  | none =>
      cases hd : line.toDegrees with
      | error fault => simp [enterLine, taking, drawnAtOnce, decision, hg, hd]
      | ok degrees => simp [enterLine, taking, drawnAtOnce, decision, hg, hd]

/-- What is answered for the line of a way. -/
theorem enterLine_result (layer : Layer α) (id : Int) (s : Summary) (line : Line α) :
    (layer.enterLine id s line).result =
      match s.group? layer.countryNames with
      | some g => .ok (some (.deferred g))
      | none => line.toDegrees.map fun _ => some .immediate := by
  cases hg : s.group? layer.countryNames with
  | some g => simp [enterLine, decision, hg]
  | none =>
      cases hd : line.toDegrees with
      | error fault => simp [enterLine, decision, hg, hd, Except.map]
      | ok degrees => simp [enterLine, decision, hg, hd, Except.map]

theorem enterWay_of_accepted {layer : Layer α} {w : Way α} {s : Summary} {line : Line α}
    (h : w.accepted? layer.codes = some (s, line)) :
    layer.enterWay w = layer.enterLine w.id s line := by
  obtain ⟨hs, hl⟩ := Way.accepted?_eq_some_iff.mp h
  simp only [enterWay, hs, hl]

/-- A way that is not accepted leaves the layer as it is, and nothing is decided of it. -/
theorem enterWay_of_not_accepted {layer : Layer α} {w : Way α}
    (h : w.accepted? layer.codes = none) :
    (layer.enterWay w).layer = layer ∧ ∀ d, (layer.enterWay w).result ≠ .ok (some d) := by
  unfold enterWay
  cases hs : Summary.of? w.tags w.relations layer.codes with
  | none => simp
  | some s =>
      cases hl : Line.ofDegrees w.positions with
      | ok line => simp [Way.accepted?, hs, hl] at h
      | error fault =>
          dsimp only
          split <;> simp

/-- **When the line of a way waits in a group.** -/
theorem enterWay_deferred {layer : Layer α} {w : Way α} {g : Group} :
    (layer.enterWay w).result = .ok (some (.deferred g)) ↔
      ∃ s line, w.accepted? layer.codes = some (s, line) ∧
        s.group? layer.countryNames = some g := by
  cases ha : w.accepted? layer.codes with
  | none =>
      have hno := (enterWay_of_not_accepted ha).2
      exact ⟨fun h => absurd h (hno _), by rintro ⟨s, line, h, -⟩; cases h⟩
  | some e =>
      obtain ⟨s, line⟩ := e
      simp only [enterWay_of_accepted ha, enterLine_result]
      constructor
      · intro h
        split at h
        · next g' hg =>
            cases h
            exact ⟨s, line, rfl, hg⟩
        · cases hd : line.toDegrees <;> simp [hd, Except.map] at h
      · rintro ⟨s', line', h, hg⟩
        cases h
        rw [hg]

/-- **When the line of a way is drawn at once.** -/
theorem enterWay_immediate {layer : Layer α} {w : Way α} :
    (layer.enterWay w).result = .ok (some .immediate) ↔
      ∃ s line degrees, w.accepted? layer.codes = some (s, line) ∧
        s.group? layer.countryNames = none ∧ line.toDegrees = .ok degrees := by
  cases ha : w.accepted? layer.codes with
  | none =>
      have hno := (enterWay_of_not_accepted ha).2
      exact ⟨fun h => absurd h (hno _), by rintro ⟨s, line, degrees, h, -⟩; cases h⟩
  | some e =>
      obtain ⟨s, line⟩ := e
      simp only [enterWay_of_accepted ha, enterLine_result]
      constructor
      · intro h
        split at h
        · cases h
        · next hg =>
            cases hd : line.toDegrees with
            | error fault => simp [hd, Except.map] at h
            | ok degrees => exact ⟨s, line, degrees, rfl, hg, hd⟩
      · rintro ⟨s', line', degrees, h, hg, hd⟩
        cases h
        rw [hg]
        simp only [hd]
        rfl

/-- **What a way does to the layer.** -/
theorem enterWay_layer (layer : Layer α) (w : Way α) :
    (layer.enterWay w).layer =
      match w.accepted? layer.codes with
      | some (s, line) => layer.taking w.id s line
      | none => layer := by
  cases h : w.accepted? layer.codes with
  | none => exact (enterWay_of_not_accepted h).1
  | some e => rw [enterWay_of_accepted h, enterLine_layer]

/-- A way changes the waiting lines and the features only. -/
theorem enterWay_frame (layer : Layer α) (w : Way α) :
    (layer.enterWay w).layer.countryNames = layer.countryNames ∧
      (layer.enterWay w).layer.relations = layer.relations ∧
      (layer.enterWay w).layer.codes = layer.codes ∧
      (layer.enterWay w).layer.finished = layer.finished := by
  rw [enterWay_layer]
  split <;> exact ⟨rfl, rfl, rfl, rfl⟩

/-- What is answered for a way depends on the relations' codes and on whether names are wanted. -/
theorem enterWay_result_congr {a b : Layer α} (hn : a.countryNames = b.countryNames)
    (hc : a.codes = b.codes) (w : Way α) : (a.enterWay w).result = (b.enterWay w).result := by
  unfold enterWay
  rw [hc]
  split
  · rfl
  · split
    · rw [enterLine_result, enterLine_result, hn]
    · split <;> rfl

/-! ### The end of the input -/

/-- The areas of the countries whose lines close, at the end of the input. -/
def outlines (k : Kernel α ρ) (layer : Layer α) : Table Int ρ :=
  (Attribution.outlineRegions k layer.pools.regions).1

/-- What comes of the waiting lines at the end of the input. -/
def attribution (k : Kernel α ρ) (layer : Layer α) : Attribution α :=
  attributeGroups k (layer.outlines k) layer.codes layer.pools.groups

/-- A finish that is not the first changes nothing. -/
theorem finish_of_finished {k : Kernel α ρ} {layer : Layer α} (h : layer.finished = true) :
    layer.finish k = ⟨layer, [], .error .alreadyFinished⟩ := by
  simp [finish, h]

/-- **What the first finish does to the layer.** -/
theorem finish_of_not_finished {k : Kernel α ρ} {layer : Layer α} (h : layer.finished = false) :
    (layer.finish k).result = (layer.attribution k).result ∧
      (layer.finish k).layer = { layer with
        finished := true
        pools := ⟨∅, .ofList (layer.attribution k).left⟩
        features := layer.features ++ (layer.attribution k).features } := by
  simp only [finish, h, attribution, outlines]
  exact ⟨rfl, rfl⟩

/-- A finish changes the waiting lines, the features and the mark of having finished only. -/
theorem finish_frame (k : Kernel α ρ) (layer : Layer α) :
    (layer.finish k).layer.countryNames = layer.countryNames ∧
      (layer.finish k).layer.relations = layer.relations ∧
      (layer.finish k).layer.codes = layer.codes := by
  cases hf : layer.finished with
  | true => rw [finish_of_finished hf]; exact ⟨rfl, rfl, rfl⟩
  | false => rw [(finish_of_not_finished hf).2]; exact ⟨rfl, rfl, rfl⟩

/-- A finish that comes to its end leaves no line waiting. -/
theorem pools_of_finish {k : Kernel α ρ} {layer : Layer α} {count : Nat}
    (h : (layer.finish k).result = .ok count) : (layer.finish k).layer.pools = .empty := by
  cases hf : layer.finished with
  | true => rw [finish_of_finished hf] at h; cases h
  | false =>
      obtain ⟨hr, hl⟩ := finish_of_not_finished (k := k) hf
      have hleft : (layer.attribution k).left = [] := Attribution.left_of_ofGroups (hr.symm.trans h)
      simp only [hl, hleft]
      rfl

/-- **What the first finish draws**: the first joined lines of the groups; all of them if it comes to
its end. -/
theorem finish_features (k : Kernel α ρ) {layer : Layer α} (hf : layer.finished = false) :
    ∃ done emitted, (layer.finish k).layer.features = layer.features ++ emitted ∧
      done <+: Attribution.joined k 0 layer.pools.groups.entries ∧
      List.Forall₂ (fun j f => (Attribution.Joined.draw k (layer.outlines k) layer.codes j).result
        = .ok f) done emitted ∧
      ∀ count, (layer.finish k).result = .ok count →
        done = Attribution.joined k 0 layer.pools.groups.entries ∧
          count = layer.pools.groups.size := by
  obtain ⟨hresult, hlayer⟩ := finish_of_not_finished (k := k) hf
  obtain ⟨done, hfirst, hdrawn, hall⟩ := Attribution.ofGroups_features k (layer.outlines k)
    layer.codes 0 layer.pools.groups.entries
  refine ⟨done, (layer.attribution k).features, by rw [hlayer], hfirst, hdrawn, ?_⟩
  intro count h
  obtain ⟨hdone, hcount⟩ := hall count (hresult.symm.trans h)
  exact ⟨hdone, hcount.trans (Nat.zero_add _)⟩

end Layer
end BorderTiles
