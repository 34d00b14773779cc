import BorderTiles.Layer
import BorderTiles.Proofs.Summary

/-!
# Way — what the memberships of a way are summed up to

A summary is made from a list of relations, but little of the list matters.

* `lowestLevel?_congr`: the level is the lowest one, wherever it stands.
* `firstDisputed_eq_of_eraseDups`: the first texts depend on the disputed relations alone, each of them
  where it stands first.
* `of?_congr`: the rest of a summary depends on its level, on whether a relation is disputed, and on the
  relations up to level 2.
* `Inserted p xs ys`: `ys` is `xs` with elements that satisfy `p` put in anywhere.  Where `p` excludes
  what a filter keeps, the filter does not see them (`Inserted.filter_eq`).

`of?_memberships` draws the consequences for lists with the same relations, and for lists with more.
-/

namespace BorderTiles

/-- Sets with the same members are the same. -/
theorem IdSet.ext_mem {s t : IdSet} (h : ∀ n, n ∈ s ↔ n ∈ t) : s = t := by
  have hlist : s.toList = t.toList :=
    ((List.perm_ext_iff_of_nodup s.nodup_toList t.nodup_toList).mpr h).eq_of_pairwise
      (fun _ _ _ _ hlt hgt => absurd hgt (Int.lt_asymm hlt)) s.increasing t.increasing
  cases s
  cases t
  cases hlist
  rfl

section
variable {τ σ : Type}

/-- What is found first does not depend on elements in which nothing is found. -/
theorem findSome?_filter_of_none {f : τ → Option σ} {p : τ → Bool} (h : ∀ x, p x = false → f x = none)
    (xs : List τ) : (xs.filter p).findSome? f = xs.findSome? f := by
  induction xs with
  | nil => rfl
  | cons x xs ih =>
      cases hx : p x with
      | true => rw [List.filter_cons_of_pos hx, List.findSome?_cons, List.findSome?_cons, ih]
      | false =>
          rw [List.filter_cons_of_neg (ne_true_of_eq_false hx), ih, List.findSome?_cons, h x hx]

/-- What is found first is found first without the repetitions. -/
theorem findSome?_eraseDups [DecidableEq τ] (f : τ → Option σ) (xs : List τ) :
    xs.eraseDups.findSome? f = xs.findSome? f := by
  match xs with
  | [] => rfl
  | x :: xs =>
      rw [List.eraseDups_cons, List.findSome?_cons, List.findSome?_cons,
        findSome?_eraseDups f (xs.filter _)]
      cases hx : f x with
      | some y => rfl
      | none =>
          -- nothing is found in a repetition of `x` either
          refine findSome?_filter_of_none (fun y hy => ?_) xs
          rw [Bool.not_eq_false', beq_iff_eq] at hy
          rw [hy, hx]
termination_by xs.length
decreasing_by exact Nat.lt_succ_of_le (List.length_filter_le _ _)

/-- A list with elements that satisfy `p` put in anywhere. -/
inductive Inserted (p : τ → Prop) : List τ → List τ → Prop where
  | nil : Inserted p [] []
  | keep {xs ys : List τ} (x : τ) (h : Inserted p xs ys) : Inserted p (x :: xs) (x :: ys)
  | insert {xs ys : List τ} {y : τ} (hy : p y) (h : Inserted p xs ys) : Inserted p xs (y :: ys)

namespace Inserted
variable {p : τ → Prop} {xs ys : List τ}

theorem sublist (h : Inserted p xs ys) : xs.Sublist ys := by
  induction h with
  | nil => exact .slnil
  | keep x _ ih => exact ih.cons_cons x
  | insert _ _ ih => exact ih.cons _

theorem mem_or (h : Inserted p xs ys) {y : τ} (hy : y ∈ ys) : y ∈ xs ∨ p y := by
  induction h with
  | nil => cases hy
  | keep x _ ih =>
      rcases List.mem_cons.mp hy with rfl | hy
      · exact .inl List.mem_cons_self
      · exact (ih hy).imp_left (List.mem_cons_of_mem x)
  | insert hp _ ih =>
      rcases List.mem_cons.mp hy with rfl | hy
      · exact .inr hp
      · exact ih hy

theorem mem_iff (h : Inserted p xs ys) {y : τ} (hy : ¬p y) : y ∈ ys ↔ y ∈ xs :=
  ⟨fun hys => (h.mem_or hys).resolve_right hy, fun hxs => h.sublist.mem hxs⟩

/-- A filter that keeps none of what is put in does not see it. -/
theorem filter_eq (h : Inserted p xs ys) {q : τ → Bool} (hq : ∀ y, p y → q y = false) :
    ys.filter q = xs.filter q := by
  induction h with
  | nil => rfl
  | keep x _ ih => rw [List.filter_cons, List.filter_cons, ih]
  | insert hp _ ih => rw [List.filter_cons, hq _ hp, if_neg Bool.false_ne_true, ih]

end Inserted

/-- Whether an element satisfies `q` depends on the elements that satisfy `q` alone. -/
theorem any_congr_of_mem {q : τ → Bool} {xs ys : List τ} (h : ∀ x, q x = true → (x ∈ ys ↔ x ∈ xs)) :
    ys.any q = xs.any q := by
  rw [Bool.eq_iff_iff, List.any_eq_true, List.any_eq_true]
  exact exists_congr fun x => and_congr_left (h x)

end

/-- A relation that tells nothing new beside others: not disputed, above the countries and above the
lowest level of the others. -/
structure Relation.Idle (relations : List Relation) (r : Relation) : Prop where
  calm : r.disputed = false
  aboveCountries : 2 < r.level
  aboveLowest : ∃ a ∈ relations, a.level < r.level

namespace Summary
variable {tags : Tags} {codes : CountryCodes} {s : Summary} {relations others : List Relation}

/-! ### The level -/

theorem lowestLevel?_congr (h : ∀ r, r ∈ others ↔ r ∈ relations) :
    lowestLevel? others = lowestLevel? relations := by
  ext level
  simp only [lowestLevel?_eq_some_iff, h]

/-- Idle relations do not lower the level. -/
theorem lowestLevel?_of_inserted {level : Int} (hl : lowestLevel? relations = some level)
    (h : Inserted (Relation.Idle relations) relations others) : lowestLevel? others = some level := by
  obtain ⟨⟨r, hr, hlevel⟩, hlowest⟩ := lowestLevel?_eq_some_iff.mp hl
  refine lowestLevel?_eq_some_iff.mpr ⟨⟨r, h.sublist.mem hr, hlevel⟩, fun a ha => ?_⟩
  rcases h.mem_or ha with ha | ⟨-, -, b, hb, hlt⟩
  · exact hlowest a ha
  · exact Int.le_trans (hlowest b hb) (Int.le_of_lt hlt)

/-! ### The first texts -/

theorem firstDisputed_eq_of_eraseDups {field : Relation → Option String}
    (h : (others.filter (·.disputed)).eraseDups = (relations.filter (·.disputed)).eraseDups) :
    firstDisputed field others = firstDisputed field relations := by
  rw [firstDisputed, firstDisputed, ← findSome?_eraseDups, h, findSome?_eraseDups]

/-! ### The rest -/

/-- A set of relations up to level 2 depends on the relations up to level 2 alone. -/
theorem ofList_filter_congr (hlow : ∀ r : Relation, r.level ≤ 2 → (r ∈ others ↔ r ∈ relations))
    {q : Relation → Bool} (hq : ∀ r, q r = true → r.level ≤ 2) :
    IdSet.ofList ((others.filter q).map (·.id)) = .ofList ((relations.filter q).map (·.id)) := by
  refine IdSet.ext_mem fun n => ?_
  simp only [IdSet.mem_ofList, List.mem_map, List.mem_filter]
  exact exists_congr fun r => and_congr_left fun _ => and_congr_left fun hr => hlow r (hq r hr)

/-- **What a summary depends on**: of two lists with the same lowest level, the same relations up to
level 2 and a disputed relation in both or in none, the summaries agree but for the texts of the
disputed relations, and agree on these if they come first in both. -/
theorem of?_congr (hlevel : lowestLevel? others = lowestLevel? relations)
    (hdisputed : others.any (·.disputed) = relations.any (·.disputed))
    (hlow : ∀ r : Relation, r.level ≤ 2 → (r ∈ others ↔ r ∈ relations))
    (h : of? tags relations codes = some s) :
    ∃ s', of? tags others codes = some s' ∧
      s' = { s with claimedBy := s'.claimedBy, disputedName := s'.disputedName } ∧
      ((∀ field, firstDisputed field others = firstDisputed field relations) → s' = s) := by
  obtain ⟨level, hl, rfl⟩ := Option.map_eq_some_iff.mp h
  have hcountries := ofList_filter_congr hlow (q := fun r => r.level == 2 && codes.holds r.id)
    fun r hr => by rw [Bool.and_eq_true, beq_iff_eq] at hr; omega
  have houtlined := ofList_filter_congr hlow (q := fun r => decide (r.level ≤ 2))
    fun r hr => of_decide_eq_true hr
  have hregions (xs ys : List Relation) (hxy : IdSet.ofList (xs.map (·.id)) = .ofList (ys.map (·.id))) :
      IdSet.ofList ((if level = 2 then xs else []).map (·.id))
        = .ofList ((if level = 2 then ys else []).map (·.id)) := by
    split
    · exact hxy
    · rfl
  refine ⟨_, Option.map_eq_some_iff.mpr ⟨level, hlevel.trans hl, rfl⟩, ?_, fun hfirst => ?_⟩
  · simp only [hdisputed, hregions _ _ hcountries, houtlined]
  · simp only [hdisputed, hregions _ _ hcountries, houtlined, hfirst]

/-! ### Memberships -/

/-- **Repetition, order and idle memberships do not matter**.  A way with a relation has a summary.
With the same relations in any order, and any of them repeated, it has the same summary but for the
texts of the disputed relations, and has these too if the disputed relations come first in the same
order.  With idle relations put in anywhere the summary is the same, and so is what is done with the
line. -/
theorem of?_memberships (tags : Tags) (codes : CountryCodes) (h : relations ≠ []) :
    ∃ s, of? tags relations codes = some s ∧
      (∀ others : List Relation, (∀ r, r ∈ others ↔ r ∈ relations) →
        ∃ s', of? tags others codes = some s' ∧
          s' = { s with claimedBy := s'.claimedBy, disputedName := s'.disputedName } ∧
          ((others.filter (·.disputed)).eraseDups = (relations.filter (·.disputed)).eraseDups →
            s' = s)) ∧
      ∀ more : List Relation, Inserted (Relation.Idle relations) relations more →
        of? tags more codes = some s ∧
          ∀ names, (of? tags more codes).map (Layer.decision · names)
            = (of? tags relations codes).map (Layer.decision · names) := by
  obtain ⟨s, hs⟩ := Option.ne_none_iff_exists'.mp (mt of?_eq_none_iff.mp h)
  refine ⟨s, hs, fun others hmem => ?_, fun more hmore => ?_⟩
  · obtain ⟨s', hs', hrest, hsame⟩ := of?_congr (lowestLevel?_congr hmem)
      (any_congr_of_mem fun r _ => hmem r) (fun r _ => hmem r) hs
    exact ⟨s', hs', hrest, fun horder => hsame fun _ => firstDisputed_eq_of_eraseDups horder⟩
  · obtain ⟨level, hl, -⟩ := Option.map_eq_some_iff.mp hs
    obtain ⟨s', hs', -, hsame⟩ := of?_congr ((lowestLevel?_of_inserted hl hmore).trans hl.symm)
      (any_congr_of_mem fun r hr => hmore.mem_iff fun hi => by simp [hi.calm] at hr)
      (fun r hr => hmore.mem_iff fun hi => absurd hi.aboveCountries (Int.not_lt.mpr hr)) hs
    have hdisputed : more.filter (·.disputed) = relations.filter (·.disputed) :=
      hmore.filter_eq fun r hr => hr.calm
    cases hsame fun field => by rw [firstDisputed, hdisputed, firstDisputed]
    exact ⟨hs', fun names => by rw [hs', hs]⟩

/-- A disputed relation of level 2 with a name. -/
def contested (id : Int) (name : String) : Relation := ⟨id, 2, true, some name, none, none⟩

/-- A county, which is idle beside a country. -/
def county : Relation := ⟨3, 6, false, some "County", none, none⟩

theorem of?_memberships_of_contested :
    [contested 1 "East", contested 2 "West"] ≠ [] ∧
      ∃ s, of? ∅ [contested 1 "East", contested 2 "West"] ∅ = some s ∧
        of? ∅ [contested 2 "West", contested 1 "East", contested 2 "West"] ∅
          = some { s with disputedName := some "West" } ∧
        of? ∅ [contested 1 "East", contested 1 "East", contested 2 "West", contested 1 "East"] ∅ = some s ∧
        of? ∅ [county, contested 1 "East", contested 2 "West", county] ∅ = some s := by
  have hne : [contested 1 "East", contested 2 "West"] ≠ [] := List.cons_ne_nil _ _
  obtain ⟨s, hs, hset, hmore⟩ := of?_memberships ∅ ∅ hne
  have hidle : Relation.Idle [contested 1 "East", contested 2 "West"] county :=
    ⟨rfl, by decide, contested 1 "East", List.mem_cons_self, by decide⟩
  refine ⟨hne, s, hs, ?_, ?_, ?_⟩
  · -- the name is that of the relation that stands first
    obtain ⟨s', hs', hrest, -⟩ := hset [contested 2 "West", contested 1 "East", contested 2 "West"]
      fun r => by grind
    have hclaimed : s'.claimedBy = s.claimedBy := by
      cases hs
      cases hs'
      rfl
    have hname : s'.disputedName = some "West" := by
      cases hs'
      rfl
    rw [hs', hrest, hclaimed, hname]
  · obtain ⟨s', hs', -, hsame⟩ :=
      hset [contested 1 "East", contested 1 "East", contested 2 "West", contested 1 "East"]
        fun r => by grind
    rw [hs', hsame (by decide)]
  · exact (hmore _ (.insert hidle (.keep _ (.keep _ (.insert hidle .nil))))).1

end Summary
end BorderTiles
