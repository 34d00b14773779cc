import BorderTiles.Attribution
import BorderTiles.Proofs.Bordering
import BorderTiles.Proofs.Table
import Mathlib.Data.List.Forall2

/-!
# Attribution — what is drawn of the groups

The groups are drawn line by line, in order, up to the first fault, against the areas of the countries.

* `get?_outlineRegions`: the country of an id has an area if it has lines and these close.
* `Group.border` is what a joined line of a group says of its border.  `joined` lists the joined lines
  of all groups, each with its group and the number of the group; `Joined.draw_eq_ok` says when one is
  drawn, and `Joined.draw_ok` that a `Line.Drawable` one is.
* `ofGroups_features`: the features are those of the first joined lines, of all of them unless a fault
  came up.  `ofGroups_ok_of_drawn`: no fault comes up if every joined line is drawn.
* `split_joined`: what stands for the joined lines, one by one, falls into one list for each group.
-/

namespace BorderTiles
variable {α ρ : Type}

/-- The border along a joined line of the group with a number, between two countries. -/
def Group.border (g : Group) (codes : CountryCodes) (number : Nat) (sides : Bordering) :
    Feature.Border where
  level := g.level
  disputed := g.disputed
  maritime := g.maritime
  minZoom := g.minZoom
  claimedBy := g.claimedBy
  disputedName := if g.disputed then g.disputedName else none
  leftCode := codes.code? sides.left
  rightCode := codes.code? sides.right
  id := some number

namespace Attribution

/-! ### The areas of the countries -/

theorem outlineRegion_eq_ok {k : Kernel α ρ} {id : Int} {lines : List (Line α)} {area : ρ} :
    outlineRegion k id lines = .ok area ↔ k.outline lines = .ok (some area) := by
  rw [outlineRegion]
  split <;> simp_all

/-- One region has no say in the area of another, and one that fails leaves what was there. -/
theorem get?_outlineEach {k : Kernel α ρ} {lines : List (Int × List (Line α))}
    (hn : (lines.map Prod.fst).Nodup) (known : Table Int ρ) (id : Int) :
    (outlineEach k known lines).1.get? id =
      ((Table.lookup id lines).bind fun ls => (outlineRegion k id ls).toOption).or
        (known.get? id) := by
  induction lines generalizing known with
  | nil => rfl
  | cons e rest ih =>
      obtain ⟨a, ls⟩ := e
      obtain ⟨ha, hrest⟩ := List.nodup_cons.mp hn
      have habsent : Table.lookup a rest = none := Table.lookup_eq_none_iff.mpr ha
      cases hr : outlineRegion k a ls with
      | ok area =>
          simp only [outlineEach, hr]
          rw [ih hrest, Table.get?_put]
          by_cases h : id = a
          · subst h
            simp [Table.lookup, habsent, hr, Except.toOption]
          · simp [Table.lookup, h, Ne.symm h]
      | error notice =>
          simp only [outlineEach, hr]
          rw [ih hrest]
          by_cases h : id = a
          · subst h
            simp [Table.lookup, habsent, hr, Except.toOption]
          · simp [Table.lookup, Ne.symm h]

/-- **The area of a country**: that of its own lines, if they close. -/
theorem get?_outlineRegions {k : Kernel α ρ} {lines : Table Int (List (Line α))} {id : Int}
    {area : ρ} : (outlineRegions k lines).1.get? id = some area ↔
      ∃ ls, lines.get? id = some ls ∧ k.outline ls = .ok (some area) := by
  have hempty : (∅ : Table Int ρ).get? id = none := rfl
  show (outlineEach k ∅ lines.entries).1.get? id = some area ↔ _
  rw [get?_outlineEach lines.nodup, hempty, Option.or_none, Option.bind_eq_some_iff]
  refine exists_congr fun ls => and_congr_right fun _ => ?_
  rw [← outlineRegion_eq_ok]
  cases outlineRegion k id ls <;> simp [Except.toOption]

/-! ### The lines of one group -/

/-- The features of lines are those of the first ones, of all of them unless a fault came up. -/
theorem ofLines_features (draw : Line α → Logged α (Feature α)) (lines : List (Line α)) :
    ∃ done, done <+: lines ∧
      List.Forall₂ (fun line f => (draw line).result = .ok f) done (ofLines draw lines).1 ∧
      ((ofLines draw lines).2.result = .ok () → done = lines) := by
  induction lines with
  | nil => exact ⟨[], List.nil_prefix, .nil, fun _ => rfl⟩
  | cons line rest ih =>
      obtain ⟨done, hfirst, hdrawn, hall⟩ := ih
      cases hd : (draw line).result with
      | error fault =>
          simp only [ofLines, hd]
          exact ⟨[], List.nil_prefix, .nil, nofun⟩
      | ok f =>
          simp only [ofLines, hd]
          refine ⟨line :: done, List.cons_prefix_cons.mpr ⟨rfl, hfirst⟩, .cons hd hdrawn, ?_⟩
          exact fun h => congrArg _ (hall h)

theorem ofLines_ok_of_drawn {draw : Line α → Logged α (Feature α)} {lines : List (Line α)}
    (h : ∀ line ∈ lines, ∃ f, (draw line).result = .ok f) :
    (ofLines draw lines).2.result = .ok () := by
  induction lines with
  | nil => rfl
  | cons line rest ih =>
      obtain ⟨f, hf⟩ := h line List.mem_cons_self
      simp only [ofLines, hf]
      exact ih fun l hl => h l (List.mem_cons_of_mem _ hl)

/-! ### All groups -/

/-- A joined line, with its group and the number of the group. -/
structure Joined (α : Type) where
  number : Nat
  group : Group
  line : Line α

/-- The joined lines of groups, of which `number` have been treated before. -/
def joined (k : Kernel α ρ) (number : Nat) : List (Group × List (Line α)) → List (Joined α)
  | [] => []
  | (g, lines) :: rest => (k.merge lines).map (⟨number + 1, g, ·⟩) ++ joined k (number + 1) rest

/-- A joined line comes from the lines of its group. -/
theorem mem_joined {k : Kernel α ρ} {number : Nat} {groups : List (Group × List (Line α))}
    {j : Joined α} (h : j ∈ joined k number groups) :
    ∃ lines, (j.group, lines) ∈ groups ∧ j.line ∈ k.merge lines := by
  induction groups generalizing number with
  | nil => cases h
  | cons e rest ih =>
      rcases List.mem_append.mp h with h | h
      · obtain ⟨line, hline, rfl⟩ := List.mem_map.mp h
        exact ⟨e.2, List.mem_cons_self, hline⟩
      · obtain ⟨lines, hmem, hline⟩ := ih h
        exact ⟨lines, List.mem_cons_of_mem _ hmem, hline⟩

/-- What stands for the joined lines falls into one list for each group, under the number of the
group. -/
theorem split_joined {τ : Type} {R : Joined α → τ → Prop} {k : Kernel α ρ} {number : Nat}
    {groups : List (Group × List (Line α))} {xs : List τ}
    (h : List.Forall₂ R (joined k number groups) xs) :
    ∃ parts : List (List τ), xs = parts.flatten ∧
      List.Forall₂ (fun e part => List.Forall₂ (fun line => R ⟨e.2, e.1.1, line⟩)
        (k.merge e.1.2) part) (groups.zipIdx (number + 1)) parts := by
  induction groups generalizing number xs with
  | nil =>
      cases h
      exact ⟨[], rfl, .nil⟩
  | cons e rest ih =>
      obtain ⟨g, lines⟩ := e
      obtain ⟨here, behind, rfl, hhere, hbehind⟩ := exists_append_of_forall₂ h
      obtain ⟨parts, rfl, hparts⟩ := ih hbehind
      exact ⟨here :: parts, rfl, .cons (List.forall₂_map_left_iff.mp hhere) hparts⟩

variable [Mercator α] {k : Kernel α ρ} {regions : Table Int ρ} {codes : CountryCodes}

/-- The feature of a joined line. -/
def Joined.draw (k : Kernel α ρ) (regions : Table Int ρ) (codes : CountryCodes) (j : Joined α) :
    Logged α (Feature α) :=
  attributed k regions codes j.number j.group j.line

/-- **When a joined line is drawn**: its sides are found, and it lies on the map. -/
theorem Joined.draw_eq_ok {j : Joined α} {f : Feature α} :
    (j.draw k regions codes).result = .ok f ↔
      ∃ sides degrees,
        (Bordering.ofLine k.inside regions j.group.regions.toList j.line).result = .ok sides ∧
        j.line.toDegrees = .ok degrees ∧
        f = .border degrees (j.group.border codes j.number sides) := by
  rw [draw, attributed]
  rw [Logged.result_bind_eq_ok]
  constructor
  · rintro ⟨sides, hsides, h⟩
    obtain ⟨degrees, hdegrees, h⟩ := Logged.result_bind_eq_ok.mp h
    cases h
    exact ⟨sides, degrees, hsides, hdegrees, rfl⟩
  · rintro ⟨sides, degrees, hsides, hdegrees, rfl⟩
    exact ⟨sides, hsides, Logged.result_bind_eq_ok.mpr ⟨degrees, hdegrees, rfl⟩⟩

/-- A joined line that can be drawn is drawn. -/
theorem Joined.draw_ok {j : Joined α} (h : j.line.Drawable) (regions : Table Int ρ)
    (codes : CountryCodes) : ∃ f, (j.draw k regions codes).result = .ok f := by
  obtain ⟨degrees, hdegrees⟩ := h.degrees
  obtain ⟨sides, hsides⟩ := Bordering.ofLine_ok h k.inside regions j.group.regions.toList
  exact ⟨_, draw_eq_ok.mpr ⟨sides, degrees, hsides, hdegrees, rfl⟩⟩

/-- **The features of the groups** are those of the first joined lines, in their order; if no fault
came up, those of all of them, and the groups have been counted. -/
theorem ofGroups_features (k : Kernel α ρ) (regions : Table Int ρ) (codes : CountryCodes)
    (number : Nat) (groups : List (Group × List (Line α))) :
    ∃ done, done <+: joined k number groups ∧
      List.Forall₂ (fun j f => (Joined.draw k regions codes j).result = .ok f)
        done (ofGroups k regions codes number groups).features ∧
      ∀ count, (ofGroups k regions codes number groups).result = .ok count →
        done = joined k number groups ∧ count = number + groups.length := by
  induction groups generalizing number with
  | nil => exact ⟨[], List.nil_prefix, .nil, fun count h => ⟨rfl, by cases h; rfl⟩⟩
  | cons e rest ih =>
      obtain ⟨g, lines⟩ := e
      obtain ⟨here, hfirst, hdrawn, hall⟩ :=
        ofLines_features (attributed k regions codes (number + 1) g) (k.merge lines)
      have hhere : List.Forall₂ (fun j f => (Joined.draw k regions codes j).result = .ok f)
          (here.map (⟨number + 1, g, ·⟩))
          (ofLines (attributed k regions codes (number + 1) g) (k.merge lines)).1 :=
        List.forall₂_map_left_iff.mpr hdrawn
      cases hresult : (ofLines (attributed k regions codes (number + 1) g)
          (k.merge lines)).2.result with
      | error fault =>
          -- what the group has given so far is kept, the groups behind it are not reached
          simp only [ofGroups, hresult, joined]
          refine ⟨here.map (⟨number + 1, g, ·⟩), ?_, hhere, nofun⟩
          exact (hfirst.map _).trans (List.prefix_append _ _)
      | ok u =>
          obtain ⟨done, hrest, hdone, hcount⟩ := ih (number + 1)
          obtain rfl := hall hresult
          simp only [ofGroups, hresult, joined]
          refine ⟨_ ++ done, (List.prefix_append_right_inj _).mpr hrest,
            List.rel_append hhere hdone, ?_⟩
          intro count h
          obtain ⟨rfl, hc⟩ := hcount count h
          exact ⟨rfl, by rw [hc, List.length_cons, Nat.add_assoc, Nat.add_comm 1]⟩

theorem ofGroups_ok_of_drawn {number : Nat} {groups : List (Group × List (Line α))}
    (h : ∀ j ∈ joined k number groups, ∃ f, (j.draw k regions codes).result = .ok f) :
    ∃ count, (ofGroups k regions codes number groups).result = .ok count := by
  induction groups generalizing number with
  | nil => exact ⟨number, rfl⟩
  | cons e rest ih =>
      obtain ⟨g, lines⟩ := e
      have hhere : (ofLines (attributed k regions codes (number + 1) g)
          (k.merge lines)).2.result = .ok () :=
        ofLines_ok_of_drawn fun line hline =>
          h _ (List.mem_append_left _ (List.mem_map_of_mem hline))
      simp only [ofGroups, hhere]
      exact ih fun j hj => h j (List.mem_append_right _ hj)

/-- If no fault came up, every group has been reached. -/
theorem left_of_ofGroups {number count : Nat} {groups : List (Group × List (Line α))}
    (h : (ofGroups k regions codes number groups).result = .ok count) :
    (ofGroups k regions codes number groups).left = [] := by
  induction groups generalizing number with
  | nil => rfl
  | cons e rest ih =>
      obtain ⟨g, lines⟩ := e
      simp only [ofGroups] at h ⊢
      split at h
      · cases h
      · next hok => simpa only [hok] using ih h

end Attribution
end BorderTiles
