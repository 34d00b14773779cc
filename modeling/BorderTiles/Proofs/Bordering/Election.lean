import BorderTiles.Proofs.Bordering
import BorderTiles.Proofs.Fractions
import Mathlib.Data.List.Count
import Mathlib.Data.List.Sort

/-!
# Bordering — the sides as an election

The votes at the samples decide as an election does.  `Elected eligible count` holds of the eligible
one with most votes, the lowest id on a tie, and of nobody if no eligible one has a vote; there is one
outcome only (`Elected.unique`), and it depends on the supported ones alone (`Elected.congr`).

* `winner?_elected`: a list of votes elects its winner.
* `count_votes`: a candidate has a vote for every sample that speaks for it.
* `outcome_decided`: the right goes to the one elected by the right points, the left to the one of the
  others elected by the samples where only the left point speaks for it (`Decided`).
* `ofLine_of_found`, `ofLine_of_nobody`: this is what is found beside a line; where there are candidates
  and none of them is elected, it is reported.

`ofLine_decides` says all of this of a line, and that nothing depends on the order of the ids or on ids
that no test point speaks for.
-/

namespace BorderTiles
namespace Bordering

/-! ### Elections -/

/-- `a` has more votes than `b`, or as many and no higher id. -/
def Leads (count : Int → Nat) (a b : Int) : Prop :=
  count b < count a ∨ count a = count b ∧ a ≤ b

/-- Who is elected: the eligible one with most votes, the lowest id on a tie, or nobody if no eligible
one has a vote. -/
def Elected (eligible : Int → Prop) (count : Int → Nat) : Option Int → Prop
  | none => ∀ a, eligible a → count a = 0
  | some r => eligible r ∧ 0 < count r ∧ ∀ a, eligible a → Leads count r a

section
variable {count count' : Int → Nat} {eligible eligible' : Int → Prop} {a b c : Int}

theorem Leads.refl (count : Int → Nat) (a : Int) : Leads count a a := .inr ⟨rfl, le_refl a⟩

theorem Leads.trans (h : Leads count a b) (h' : Leads count b c) : Leads count a c := by
  rcases h with hlt | ⟨heq, hle⟩ <;> rcases h' with hlt' | ⟨heq', hle'⟩
  · exact .inl (hlt'.trans hlt)
  · exact .inl (heq' ▸ hlt)
  · exact .inl (heq ▸ hlt')
  · exact .inr ⟨heq.trans heq', hle.trans hle'⟩

theorem Leads.antisymm (h : Leads count a b) (h' : Leads count b a) : a = b := by
  rcases h with hlt | ⟨heq, hle⟩ <;> rcases h' with hlt' | ⟨heq', hle'⟩
  · exact absurd hlt' hlt.asymm
  · exact absurd heq' hlt.ne
  · exact absurd heq hlt'.ne
  · exact le_antisymm hle hle'

/-- **One election has one outcome.** -/
theorem Elected.unique {v w : Option Int} (hv : Elected eligible count v)
    (hw : Elected eligible count w) : v = w := by
  cases v with
  | none =>
      cases w with
      | none => rfl
      | some r => exact absurd (hv r hw.1) hw.2.1.ne'
  | some r =>
      cases w with
      | none => exact absurd (hw r hv.1) hv.2.1.ne'
      | some r' => exact congrArg some ((hv.2.2 r' hw.1).antisymm (hw.2.2 r hv.1))

/-- The outcome is the same where the same ones are supported, each with as many votes. -/
theorem Elected.congr (h : ∀ a n, 0 < n → ((eligible a ∧ count a = n) ↔ (eligible' a ∧ count' a = n)))
    {v : Option Int} (hv : Elected eligible count v) : Elected eligible' count' v := by
  cases v with
  | none =>
      intro a ha
      by_contra hne
      obtain ⟨ha', hcount⟩ := (h a (count' a) (Nat.pos_of_ne_zero hne)).mpr ⟨ha, rfl⟩
      exact hne (hcount ▸ hv a ha')
  | some r =>
      obtain ⟨hr, hpos, hleads⟩ := hv
      obtain ⟨hr', hcount⟩ := (h r (count r) hpos).mp ⟨hr, rfl⟩
      refine ⟨hr', hcount ▸ hpos, fun a ha => ?_⟩
      rcases Nat.eq_zero_or_pos (count' a) with hzero | hpos'
      · exact .inl (by rw [hzero, hcount]; exact hpos)
      · obtain ⟨ha', hcount'⟩ := (h a (count' a) hpos').mpr ⟨ha, rfl⟩
        have hlead := hleads a ha'
        rw [Leads, hcount'] at hlead
        rwa [Leads, hcount]

theorem elected_congr (h : ∀ a, eligible a → count a = count' a) {v : Option Int} :
    Elected eligible count v ↔ Elected eligible count' v :=
  ⟨fun hv => hv.congr fun a _ _ => and_congr_right fun ha => by rw [h a ha],
    fun hv => hv.congr fun a _ _ => and_congr_right fun ha => by rw [h a ha]⟩

end

/-! ### The winner of votes -/

theorem leads_of_beats {votes : List Int} {a b : Int} (h : beats votes a b = true) :
    Leads votes.count a b := by
  simp only [beats, Bool.or_eq_true, Bool.and_eq_true, decide_eq_true_eq, beq_iff_eq] at h
  exact h.imp_right (And.imp_right le_of_lt)

theorem leads_of_not_beats {votes : List Int} {a b : Int} (h : beats votes a b = false) :
    Leads votes.count b a := by
  simp only [beats, Bool.or_eq_false_iff, Bool.and_eq_false_imp, decide_eq_false_iff_not, not_lt,
    beq_iff_eq] at h
  exact h.1.lt_or_eq.imp_right fun heq => ⟨heq.symm, h.2 heq⟩

/-- The best of `b` and the rest leads them all. -/
theorem exists_leads_of_foldl (votes rest : List Int) (b : Int) :
    ∃ w, rest.foldl (fun best a =>
      match best with
      | none => some a
      | some b => some (if beats votes a b then a else b)) (some b) = some w ∧
      Leads votes.count w b ∧ ∀ a ∈ rest, Leads votes.count w a := by
  induction rest generalizing b with
  | nil => exact ⟨b, rfl, .refl _ b, by simp⟩
  | cons a rest ih =>
      cases hbeats : beats votes a b with
      | true =>
          obtain ⟨w, hw, hlead, hrest⟩ := ih a
          refine ⟨w, ?_, hlead.trans (leads_of_beats hbeats), ?_⟩
          · simpa [hbeats] using hw
          · exact List.forall_mem_cons.mpr ⟨hlead, hrest⟩
      | false =>
          obtain ⟨w, hw, hlead, hrest⟩ := ih b
          refine ⟨w, ?_, hlead, ?_⟩
          · simpa [hbeats] using hw
          · exact List.forall_mem_cons.mpr ⟨hlead.trans (leads_of_not_beats hbeats), hrest⟩

/-- **A list of votes elects its winner.** -/
theorem winner?_elected (votes : List Int) :
    Elected (fun _ => True) votes.count (winner? votes) := by
  cases votes with
  | nil => exact fun a _ => List.count_nil
  | cons b rest =>
      obtain ⟨w, hw, hlead, hrest⟩ := exists_leads_of_foldl (b :: rest) rest b
      have hwinner : winner? (b :: rest) = some w := hw
      rw [hwinner]
      have hpos : 0 < (b :: rest).count w := List.count_pos_iff.mpr (winner?_mem hwinner)
      refine ⟨trivial, hpos, fun a _ => ?_⟩
      by_cases ha : a ∈ b :: rest
      · exact List.forall_mem_cons.mpr ⟨hlead, hrest⟩ a ha
      · refine .inl ?_
        show (b :: rest).count a < (b :: rest).count w
        rwa [List.count_eq_zero_of_not_mem ha]

/-! ### The votes of the samples -/

variable {α ρ : Type} {inside : ρ → Point α → Bool} {regions : Table Int ρ} {ids : List Int}
  {points : List (Point α × Point α)}

/-- An id that is given and has an area. -/
def Known (regions : Table Int ρ) (ids : List Int) (id : Int) : Prop :=
  id ∈ ids ∧ regions.contains id = true

/-- The samples whose right point is in the area of an id. -/
def rightCount (inside : ρ → Point α → Bool) (regions : Table Int ρ)
    (points : List (Point α × Point α)) (id : Int) : Nat :=
  match regions.get? id with
  | none => 0
  | some area => points.countP fun p => inside area p.1

/-- The samples whose right point is not in the area of an id, but whose left point is. -/
def leftCount (inside : ρ → Point α → Bool) (regions : Table Int ρ)
    (points : List (Point α × Point α)) (id : Int) : Nat :=
  match regions.get? id with
  | none => 0
  | some area => points.countP fun p => !inside area p.1 && inside area p.2

/-- The outcome of the votes at samples. -/
structure Decided (inside : ρ → Point α → Bool) (regions : Table Int ρ) (ids : List Int)
    (points : List (Point α × Point α)) (sides : Bordering) : Prop where
  right : Elected (Known regions ids) (rightCount inside regions points) sides.right
  left : Elected (fun id => Known regions ids id ∧ sides.right ≠ some id)
    (leftCount inside regions points) sides.left

/-- The votes at samples have one outcome. -/
theorem Decided.unique {v w : Bordering} (hv : Decided inside regions ids points v)
    (hw : Decided inside regions ids points w) : v = w := by
  obtain ⟨vl, vr⟩ := v
  obtain ⟨wl, wr⟩ := w
  obtain rfl : vr = wr := hv.right.unique hw.right
  obtain rfl : vl = wl := hv.left.unique hw.left
  rfl

theorem known_iff {id : Int} :
    Known regions ids id ↔ ∃ area, (id, area) ∈ candidates regions ids := by
  simp [Known, mem_candidates, Table.contains, Option.isSome_iff_exists]

/-- The ids of the candidates are the known ones in increasing order. -/
theorem map_fst_candidates (regions : Table Int ρ) (ids : List Int) :
    (candidates regions ids).map (·.1) =
      (ids.mergeSort (· ≤ ·)).filter fun id => regions.contains id := by
  rw [candidates, List.map_filterMap, ← List.filterMap_eq_filter]
  refine List.filterMap_congr fun id _ => ?_
  cases h : regions.get? id <;> simp [Option.guard, Table.contains, h]

theorem nodup_candidates (regions : Table Int ρ) (hids : ids.Nodup) :
    ((candidates regions ids).map (·.1)).Nodup := by
  rw [map_fst_candidates]
  exact ((List.mergeSort_perm ids _).nodup_iff.mpr hids).filter _

/-- The candidates depend on the given ids as a set. -/
theorem candidates_congr {others : List Int} (hids : ids.Nodup) (hothers : others.Nodup)
    (h : ∀ id, id ∈ others ↔ id ∈ ids) : candidates regions others = candidates regions ids := by
  have hperm : others.Perm ids := (List.perm_ext_iff_of_nodup hothers hids).mpr h
  have hsorted : (others.mergeSort (· ≤ ·)).Perm (ids.mergeSort (· ≤ ·)) :=
    ((List.mergeSort_perm others _).trans hperm).trans (List.mergeSort_perm ids _).symm
  rw [candidates, hsorted.eq_of_pairwise' (List.pairwise_mergeSort' (· ≤ ·) others)
    (List.pairwise_mergeSort' (· ≤ ·) ids), candidates]

/-- Ids in increasing order need no sorting. -/
theorem candidates_of_sorted (regions : Table Int ρ) (hids : ids.Pairwise (· ≤ ·)) :
    candidates regions ids = ids.filterMap fun id => (regions.get? id).map (id, ·) := by
  rw [candidates, List.mergeSort_eq_self (· ≤ ·) hids]

/-- At one sample a candidate has a vote if the sample speaks for it. -/
theorem count_map_filter (hids : ids.Nodup) {id : Int} {area : ρ}
    (hmem : (id, area) ∈ candidates regions ids) (speaks : Int × ρ → Bool) :
    (((candidates regions ids).filter speaks).map (·.1)).count id =
      if speaks (id, area) then 1 else 0 := by
  have hnodup : (((candidates regions ids).filter speaks).map (·.1)).Nodup :=
    (nodup_candidates regions hids).sublist (List.filter_sublist.map _)
  split
  · next hspeaks =>
      exact List.count_eq_one_of_mem hnodup
        (List.mem_map.mpr ⟨_, List.mem_filter.mpr ⟨hmem, hspeaks⟩, rfl⟩)
  · next hsilent =>
      refine List.count_eq_zero_of_not_mem fun h => hsilent ?_
      obtain ⟨⟨a, area'⟩, hvote, rfl⟩ := List.mem_map.mp h
      obtain ⟨hmem', hspeaks⟩ := List.mem_filter.mp hvote
      -- an id has one area only
      have harea := (mem_candidates.mp hmem').2.symm.trans (mem_candidates.mp hmem).2
      obtain rfl := Option.some.inj harea
      exact hspeaks

/-- **The votes for a candidate** are the samples that speak for it. -/
theorem count_votes (hids : ids.Nodup) {id : Int} {area : ρ}
    (hmem : (id, area) ∈ candidates regions ids)
    (speaks : Point α × Point α → Int × ρ → Bool) (points : List (Point α × Point α)) :
    (points.flatMap fun p => ((candidates regions ids).filter (speaks p)).map (·.1)).count id =
      points.countP fun p => speaks p (id, area) := by
  induction points with
  | nil => rfl
  | cons p rest ih =>
      rw [List.flatMap_cons, List.count_append, ih, count_map_filter hids hmem, List.countP_cons]
      exact Nat.add_comm _ _

theorem count_rightVotes (hids : ids.Nodup) {id : Int} (hknown : Known regions ids id) :
    (rightVotes inside (candidates regions ids) points).count id =
      rightCount inside regions points id := by
  obtain ⟨area, hmem⟩ := known_iff.mp hknown
  rw [rightCount, (mem_candidates.mp hmem).2]
  exact count_votes hids hmem (fun p e => inside e.2 p.1) points

theorem count_leftVotes (hids : ids.Nodup) {id : Int} (hknown : Known regions ids id) :
    (leftVotes inside (candidates regions ids) points).count id =
      leftCount inside regions points id := by
  obtain ⟨area, hmem⟩ := known_iff.mp hknown
  rw [leftCount, (mem_candidates.mp hmem).2]
  exact count_votes hids hmem (fun p e => !inside e.2 p.1 && inside e.2 p.2) points

/-- Who has a vote is known. -/
theorem known_of_count_pos {speaks : Point α × Point α → Int × ρ → Bool} {id : Int}
    (h : 0 < (points.flatMap fun p =>
      ((candidates regions ids).filter (speaks p)).map (·.1)).count id) : Known regions ids id :=
  mem_ids_of_mem_candidates (mem_of_mem_votes (List.count_pos_iff.mp h))

/-- What the votes of the candidates at samples come to. -/
def outcome (inside : ρ → Point α → Bool) (regions : Table Int ρ) (ids : List Int)
    (points : List (Point α × Point α)) : Bordering :=
  ofVotes (rightVotes inside (candidates regions ids) points)
    (leftVotes inside (candidates regions ids) points)

/-- **The sides are elected**: the right by the right points, the left among all others. -/
theorem outcome_decided (inside : ρ → Point α → Bool) (regions : Table Int ρ) (hids : ids.Nodup)
    (points : List (Point α × Point α)) :
    Decided inside regions ids points (outcome inside regions ids points) where
  right := by
    refine (winner?_elected _).congr fun a n hn => ?_
    constructor
    · rintro ⟨-, rfl⟩
      have hknown : Known regions ids a := known_of_count_pos hn
      exact ⟨hknown, (count_rightVotes hids hknown).symm⟩
    · rintro ⟨hknown, rfl⟩
      exact ⟨trivial, count_rightVotes hids hknown⟩
  left := by
    refine (winner?_elected _).congr fun a n hn => ?_
    constructor
    · rintro ⟨-, rfl⟩
      have hother : some a ≠ (outcome inside regions ids points).right :=
        of_decide_eq_true (List.mem_filter.mp (List.count_pos_iff.mp hn)).2
      rw [List.count_filter (by exact decide_eq_true hother)] at hn ⊢
      have hknown : Known regions ids a := known_of_count_pos hn
      exact ⟨⟨hknown, hother.symm⟩, (count_leftVotes hids hknown).symm⟩
    · rintro ⟨⟨hknown, hother⟩, rfl⟩
      refine ⟨trivial, ?_⟩
      rw [List.count_filter (by exact decide_eq_true hother.symm)]
      exact count_leftVotes hids hknown

/-- Without candidates nobody is elected. -/
theorem outcome_of_no_candidates (h : candidates regions ids = []) :
    outcome inside regions ids points = ⟨none, none⟩ := by
  have hright : rightVotes inside [] points = [] := by simp [rightVotes]
  have hleft : leftVotes inside [] points = [] := by simp [leftVotes]
  simp [outcome, h, hright, hleft, ofVotes, winner?]

/-! ### Ids that nothing speaks for -/

/-- An id without an area, or with one that no test point is in. -/
def Unseen (inside : ρ → Point α → Bool) (regions : Table Int ρ)
    (points : List (Point α × Point α)) (id : Int) : Prop :=
  ∀ area, regions.get? id = some area →
    ∀ p ∈ points, inside area p.1 = false ∧ inside area p.2 = false

theorem rightCount_of_unseen {id : Int} (h : Unseen inside regions points id) :
    rightCount inside regions points id = 0 := by
  rw [rightCount]
  cases harea : regions.get? id with
  | none => rfl
  | some area => exact List.countP_eq_zero.mpr fun p hp => by simp [(h area harea p hp).1]

theorem leftCount_of_unseen {id : Int} (h : Unseen inside regions points id) :
    leftCount inside regions points id = 0 := by
  rw [leftCount]
  cases harea : regions.get? id with
  | none => rfl
  | some area => exact List.countP_eq_zero.mpr fun p hp => by simp [(h area harea p hp).2]

/-- **Ids that nothing speaks for change nothing.** -/
theorem Decided.extend {more : List Int} {sides : Bordering}
    (h : Decided inside regions ids points sides) (hsub : ids ⊆ more)
    (hmore : ∀ id ∈ more, id ∉ ids → Unseen inside regions points id) :
    Decided inside regions more points sides := by
  have hknown : ∀ id, ¬ Unseen inside regions points id →
      (Known regions ids id ↔ Known regions more id) := by
    intro id hseen
    refine and_congr_left fun _ => ⟨fun hid => hsub hid, fun hid => ?_⟩
    by_contra hnew
    exact hseen (hmore id hid hnew)
  constructor
  · refine h.right.congr fun id n hn => and_congr_left fun hcount => hknown id fun hunseen => ?_
    exact hn.ne ((rightCount_of_unseen hunseen).symm.trans hcount)
  · refine h.left.congr fun id n hn => and_congr_left fun hcount =>
      and_congr_left' (hknown id fun hunseen => ?_)
    exact hn.ne ((leftCount_of_unseen hunseen).symm.trans hcount)

/-! ### The sides of a line -/

variable [Mercator α] {line : Line α}

/-- Nothing is reported of a line beside which somebody is found, or of one without candidates. -/
theorem ofLine_of_found (hpoints : TestPoints line points)
    (hfound : candidates regions ids = [] ∨ outcome inside regions ids points ≠ ⟨none, none⟩) :
    ofLine inside regions ids line = ⟨[], .ok (outcome inside regions ids points)⟩ := by
  rw [ofLine]
  by_cases hnone : candidates regions ids = []
  · rw [outcome_of_no_candidates hnone, hnone]
    rfl
  · have hsome := hfound.resolve_left hnone
    rw [TestPoints] at hpoints
    simp only [List.isEmpty_iff, hnone, if_false, hpoints, Logged.ofExcept_ok_bind]
    cases hsides : outcome inside regions ids points with
    | mk left right =>
        rw [hsides] at hsome
        rw [outcome] at hsides
        cases left <;> cases right <;> simp_all [pure, Logged.pure]

/-- A line beside which no candidate is found is reported with its middle. -/
theorem ofLine_of_nobody (hpoints : TestPoints line points) (hsome : candidates regions ids ≠ [])
    (hnobody : outcome inside regions ids points = ⟨none, none⟩) {middle : Point α} {lon lat : α}
    (hmiddle : line.sample (Scalar.ofNat 1 / Scalar.ofNat 2) (Scalar.ofNat 0) = .ok middle)
    (hplace : Mercator.ofWorld middle.x middle.y = .ok (lon, lat)) :
    ofLine inside regions ids line =
      ⟨[.noSide ((candidates regions ids).map (·.1)) lat lon], .ok ⟨none, none⟩⟩ := by
  rw [TestPoints] at hpoints
  rw [outcome] at hnobody
  rw [ofLine]
  simp only [List.isEmpty_iff, hsome, if_false, hpoints, hnobody, Option.isNone_none, Bool.and_self,
    if_true, hmiddle, hplace, Logged.ofExcept_ok_bind, Logged.note_bind]
  rfl

/-- **What is found beside a line** with test points and a middle on the map. -/
theorem ofLine_result (hpoints : TestPoints line points) {middle : Point α} {place : α × α}
    (hmiddle : line.sample (Scalar.ofNat 1 / Scalar.ofNat 2) (Scalar.ofNat 0) = .ok middle)
    (hplace : Mercator.ofWorld middle.x middle.y = .ok place)
    (inside : ρ → Point α → Bool) (regions : Table Int ρ) (ids : List Int) :
    (ofLine inside regions ids line).result = .ok (outcome inside regions ids points) := by
  by_cases hfound : candidates regions ids = [] ∨ outcome inside regions ids points ≠ ⟨none, none⟩
  · rw [ofLine_of_found hpoints hfound]
  · simp only [not_or, ne_eq, not_not] at hfound
    rw [ofLine_of_nobody hpoints hfound.1 hfound.2 hmiddle hplace, hfound.2]

theorem candidates_ne_nil_iff :
    candidates regions ids ≠ [] ↔ ∃ id, Known regions ids id := by
  simp only [known_iff]
  constructor
  · intro h
    obtain ⟨⟨id, area⟩, hmem⟩ := List.exists_mem_of_ne_nil _ h
    exact ⟨id, area, hmem⟩
  · rintro ⟨id, area, hmem⟩
    exact List.ne_nil_of_mem hmem

/-- **The sides of a line are elected.**  A line of two points or more has test points; its right side
goes to the known id with most right votes and its left side to the other known id with most left ones,
the lowest id on a tie, and to nobody without votes.  So the two sides differ, nothing depends on the
order of the ids, ids that no test point speaks for do not change the sides, and the middle of the line
is reported exactly if there are known ids and neither side has one. -/
theorem ofLine_decides (htwo : 2 ≤ line.length) (hshares : Scalar.Shares α line.length)
    (hmiddle : ∀ middle,
      line.sample (Scalar.ofNat 1 / Scalar.ofNat 2) (Scalar.ofNat 0) = .ok middle →
        ∃ place, Mercator.ofWorld middle.x middle.y = .ok place)
    (inside : ρ → Point α → Bool) (regions : Table Int ρ) (hids : ids.Nodup) :
    ∃ points sides, TestPoints line points ∧
      (ofLine inside regions ids line).result = .ok sides ∧
      Decided inside regions ids points sides ∧
      (∀ id, sides.left = some id → sides.right ≠ some id) ∧
      (∀ others, others.Nodup → (∀ id, id ∈ others ↔ id ∈ ids) →
        ofLine inside regions others line = ofLine inside regions ids line) ∧
      (∀ more, more.Nodup → ids ⊆ more →
        (∀ id ∈ more, id ∉ ids → Unseen inside regions points id) →
        (ofLine inside regions more line).result = .ok sides) ∧
      ∃ middle lon lat,
        line.sample (Scalar.ofNat 1 / Scalar.ofNat 2) (Scalar.ofNat 0) = .ok middle ∧
        Mercator.ofWorld middle.x middle.y = .ok (lon, lat) ∧
        ((∃ id, Known regions ids id) ∧ sides = ⟨none, none⟩ →
          (ofLine inside regions ids line).notices =
            [.noSide ((candidates regions ids).map (·.1)) lat lon]) ∧
        (¬ ((∃ id, Known regions ids id) ∧ sides = ⟨none, none⟩) →
          (ofLine inside regions ids line).notices = []) := by
  obtain ⟨points, hpoints⟩ := exists_testPoints hshares htwo
  obtain ⟨middle, hsample⟩ := Line.sample_ok htwo (hshares 1 2 (by decide) (by decide) (by decide))
    (Scalar.ofNat 0 : α)
  obtain ⟨⟨lon, lat⟩, hplace⟩ := hmiddle middle hsample
  have hresult := ofLine_result hpoints hsample hplace inside regions
  have hdecided := outcome_decided inside regions hids points
  refine ⟨points, outcome inside regions ids points, hpoints, hresult ids, hdecided,
    fun id => left_ne_right, ?_, ?_, middle, lon, lat, hsample, hplace, ?_, ?_⟩
  · intro others hothers hsame
    simp only [ofLine, candidates_congr hids hothers hsame]
  · intro more hmore hsub hunseen
    have hextended := hdecided.extend hsub hunseen
    rw [hresult more, (outcome_decided inside regions hmore points).unique hextended]
  · rintro ⟨hknown, hnobody⟩
    rw [ofLine_of_nobody hpoints (candidates_ne_nil_iff.mpr hknown) hnobody hsample hplace]
  · intro hfound
    rw [← candidates_ne_nil_iff, not_and_or, not_not] at hfound
    rw [ofLine_of_found hpoints hfound]

/-- A line going east, the countries north (3) and south (5) of it, and a country (2) that holds it. -/
def eastward : Line Rat := [⟨2 / 5, 1 / 2, none⟩, ⟨3 / 5, 1 / 2, none⟩]

def overlapping : Table Int (Box Rat) :=
  ⟨[(2, ⟨3 / 10, 3 / 10, 7 / 10, 7 / 10⟩), (3, ⟨3 / 10, 3 / 10, 7 / 10, 1 / 2⟩),
    (5, ⟨3 / 10, 1 / 2, 7 / 10, 7 / 10⟩)], by decide⟩

/-- The right is a tie, which the lowest id wins; it is not counted on the left. -/
theorem ofLine_decides_overlapping : ∃ points, TestPoints eastward points ∧
    Decided Kernel.upright.inside overlapping [2, 3, 5] points ⟨some 3, some 2⟩ ∧
    (ofLine Kernel.upright.inside overlapping [5, 3, 2] eastward).result = .ok ⟨some 3, some 2⟩ ∧
    (ofLine Kernel.upright.inside overlapping [7, 2, 3, 5] eastward).result =
      .ok ⟨some 3, some 2⟩ := by
  have htwo : 2 ≤ eastward.length := by decide
  have hids : [2, 3, (5 : Int)].Nodup := by decide
  obtain ⟨points, sides, hpoints, hresult, hdecided, -, hothers, hmore, -⟩ :=
    ofLine_decides htwo (shares_rat _) (fun _ _ => ⟨_, rfl⟩)
      Kernel.upright.inside overlapping hids
  have hsides : (ofLine Kernel.upright.inside overlapping [2, 3, 5] eastward).result =
      .ok ⟨some 3, some 2⟩ := by
    rw [ofLine, candidates_of_sorted overlapping (by decide)]
    decide +kernel
  obtain rfl := Except.ok.inj (hresult.symm.trans hsides)
  have hturned : List.Perm [5, 3, 2] [2, 3, (5 : Int)] := by decide
  refine ⟨points, hpoints, hdecided, ?_, hmore _ (by decide) (by decide) ?_⟩
  · rw [hothers _ (by decide) fun _ => hturned.mem_iff, hsides]
  · intro id hid hnew area harea
    have hseven : id = 7 := by simpa [hnew] using hid
    subst hseven
    cases harea

end Bordering
end BorderTiles
