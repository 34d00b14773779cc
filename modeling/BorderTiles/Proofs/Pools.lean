import BorderTiles.Pools
import BorderTiles.Proofs.Table
import Mathlib.Data.List.Induction
import Mathlib.Logic.Function.Basic

/-!
# Pools — drains in any order

Drains stay open while lines are added, the pools are cleared and other drains take entries.

* `Drain.take_all`: a drain that nothing comes between takes all entries in their order.
* A `Basin` is one table with its drains, and an `Event` the smallest thing that can happen to it: an
  element is entered, all is cleared, a drain is asked.  `balance`: what leaves under a key, followed
  by what stays there, is what has been entered.
* `Older events k a`: `k` has been in the table for longer than `a`.  `keys_older`: the keys stand in
  this order, so that the first one, which a drain takes, is the oldest.  `ended_run`: a drain that has
  ended stays so.
* A `Move` is a call on both pools.  `regions_after` and `groups_after` say which events it is for each.

`drains_conserve` says all of this of the pools.
-/

namespace BorderTiles

namespace Drain
variable {κ ν : Type}

theorem next_ended (t : Table κ ν) : ended.next t = (none, ended, t) := rfl

theorem next_of_empty (d : Drain) {t : Table κ ν} (h : t.entries = []) :
    d.next t = (none, ended, t) := by
  cases d with
  | ended => rfl
  | going => rw [next, Table.popFirst?_eq_none_iff.mpr h]

/-- From a table that is not empty a drain takes the first entry. -/
theorem next_of_entries [DecidableEq κ] {t : Table κ ν} {k : κ} {v : ν} {r : List (κ × ν)}
    (h : t.entries = (k, v) :: r) : going.next t = (some (k, v), going, t.erase k) := by
  cases hp : t.popFirst? with
  | none => rw [Table.popFirst?_eq_none_iff.mp hp] at h; cases h
  | some e =>
      obtain ⟨e, rest⟩ := e
      obtain ⟨rfl, rfl⟩ := List.cons.inj ((Table.entries_of_popFirst? hp).symm.trans h)
      have hrest : rest = t.erase k := Table.ext (Table.entries_erase_of_entries h).symm
      simp only [next, hp, hrest]

/-- **A drain that is asked often enough** takes all entries in their order, and ends. -/
theorem take_all [DecidableEq κ] {t : Table κ ν} {n : Nat} (hn : t.size < n) :
    going.take t n = (t.entries, ended, ∅) := by
  induction n generalizing t with
  | zero => exact absurd hn (Nat.not_lt_zero _)
  | succ n ih =>
      cases he : t.entries with
      | nil =>
          obtain rfl : t = ∅ := Table.ext he
          rfl
      | cons e r =>
          obtain ⟨k, v⟩ := e
          have hrest : (t.erase k).entries = r := Table.entries_erase_of_entries he
          have hsize : (t.erase k).size < n := by
            rw [Table.size, hrest]
            rw [Table.size, he, List.length_cons] at hn
            exact Nat.lt_of_succ_lt_succ hn
          simp only [take, next_of_entries he, ih hsize, hrest]

end Drain

/-! ### One pool -/

/-- A table of lists and the drains that empty it, each under a number.  A drain that has not taken
anything yet is going, whenever it has been opened. -/
structure Basin (κ τ : Type) where
  table : Table κ (List τ)
  drains : Nat → Drain

/-- What can happen to a table that is drained. -/
inductive Basin.Event (κ τ : Type) where
  | enter (k : κ) (x : τ)
  | clear
  /-- A drain is asked for its next entry. -/
  | next (drain : Nat)

namespace Basin
variable {κ τ : Type}

/-- No entry, and every drain still going. -/
def empty : Basin κ τ := ⟨∅, fun _ => .going⟩

/-- The entries that leave the table at an event: one that a drain takes, or all that are cleared. -/
def leaving (b : Basin κ τ) : Event κ τ → List (κ × List τ)
  | .enter _ _ => []
  | .clear => b.table.entries
  | .next n => ((b.drains n).next b.table).1.toList

variable [DecidableEq κ]

/-- The table and its drains after an event. -/
def after (b : Basin κ τ) : Event κ τ → Basin κ τ
  | .enter k x => { b with table := b.table.append k x }
  | .clear => { b with table := ∅ }
  | .next n =>
    let next := (b.drains n).next b.table
    ⟨next.2.2, Function.update b.drains n next.2.1⟩

/-- The table and its drains after events. -/
def run (b : Basin κ τ) (events : List (Event κ τ)) : Basin κ τ := events.foldl after b

/-- The entries that leave the table at events, in the order in which they leave. -/
def left (b : Basin κ τ) : List (Event κ τ) → List (κ × List τ)
  | [] => []
  | e :: rest => b.leaving e ++ (b.after e).left rest

/-- What an event enters under a key. -/
def Event.entered (k : κ) : Event κ τ → List τ
  | .enter a x => if k = a then [x] else []
  | .clear | .next _ => []

theorem run_append (b : Basin κ τ) (xs ys : List (Event κ τ)) :
    b.run (xs ++ ys) = (b.run xs).run ys :=
  List.foldl_append

theorem left_append (b : Basin κ τ) (xs ys : List (Event κ τ)) :
    b.left (xs ++ ys) = b.left xs ++ (b.run xs).left ys := by
  induction xs generalizing b with
  | nil => rfl
  | cons e rest ih => simp only [List.cons_append, left, ih, List.append_assoc]; rfl

/-! ### What is asked of a drain -/

/-- A drain that is asked either ends on an empty table or takes the first entry. -/
theorem next_cases (b : Basin κ τ) (n : Nat) :
    (b.leaving (.next n) = [] ∧
      b.after (.next n) = ⟨b.table, Function.update b.drains n .ended⟩) ∨
    ∃ k xs r, b.drains n = .going ∧ b.table.entries = (k, xs) :: r ∧
      b.leaving (.next n) = [(k, xs)] ∧ b.after (.next n) = ⟨b.table.erase k, b.drains⟩ := by
  cases hd : b.drains n with
  | ended => exact .inl (by simp [leaving, after, hd, Drain.next_ended])
  | going =>
      cases he : b.table.entries with
      | nil => exact .inl (by simp [leaving, after, Drain.next_of_empty _ he])
      | cons e r =>
          obtain ⟨k, xs⟩ := e
          have hnext := Drain.next_of_entries he
          refine .inr ⟨k, xs, r, rfl, rfl, by simp [leaving, hd, hnext], ?_⟩
          simp only [after, hd, hnext]
          exact congrArg _ (Function.update_eq_self_iff.mpr hd.symm)

/-! ### No line is lost or doubled -/

/-- **One event**: what leaves under a key and what stays there is what was there and is entered. -/
theorem balance_event (b : Basin κ τ) (e : Event κ τ) (k : κ) :
    Table.under k (b.leaving e) ++ (b.after e).table.listOf k =
      b.table.listOf k ++ e.entered k := by
  cases e with
  | enter a x => exact Table.listOf_append b.table a k x
  | clear =>
      show Table.under k b.table.entries ++ [] = _ ++ []
      rw [Table.under_entries]
  | next n =>
      show _ = b.table.listOf k ++ []
      rcases b.next_cases n with ⟨hl, ha⟩ | ⟨a, xs, r, -, he, hl, ha⟩
      · rw [hl, ha, List.append_nil]
        rfl
      · rw [hl, ha, List.append_nil, ← Table.under_entries, ← Table.under_entries, he,
          Table.entries_erase_of_entries he, ← Table.under_append]
        rfl

/-- **Many events**: what leaves under a key, followed by what stays there, is what was there
followed by all that is entered. -/
theorem balance (b : Basin κ τ) (events : List (Event κ τ)) (k : κ) :
    Table.under k (b.left events) ++ (b.run events).table.listOf k =
      b.table.listOf k ++ events.flatMap (Event.entered k) := by
  induction events generalizing b with
  | nil => simp [left, run, Table.under]
  | cons e rest ih =>
      calc Table.under k (b.left (e :: rest)) ++ (b.run (e :: rest)).table.listOf k
          = Table.under k (b.leaving e) ++ (Table.under k ((b.after e).left rest) ++
              ((b.after e).run rest).table.listOf k) := by
            rw [left, Table.under_append, List.append_assoc]
            rfl
        _ = Table.under k (b.leaving e) ++ (b.after e).table.listOf k ++
              rest.flatMap (Event.entered k) := by rw [ih, List.append_assoc]
        _ = b.table.listOf k ++ (e :: rest).flatMap (Event.entered k) := by
            rw [balance_event, List.flatMap_cons, List.append_assoc]

/-! ### The key that has been there longest -/

/-- At the end of events that start with an empty table, one key has been there for longer than
another: at some moment the second was absent, and from then on the first has always been there. -/
def Older (events : List (Event κ τ)) (k a : κ) : Prop :=
  ∃ before since, events = before ++ since ∧ a ∉ (empty.run before).table.keys ∧
    ∀ now, now <+: since → k ∈ (empty.run (before ++ now)).table.keys

/-- No two keys have each been there for longer than the other. -/
theorem Older.asymm {events : List (Event κ τ)} {k a : κ} (h : Older events k a) :
    ¬ Older events a k := by
  obtain ⟨before, since, rfl, ha, hk⟩ := h
  rintro ⟨before', since', h, hk', ha'⟩
  -- the later of the two moments contradicts the other key's having been there
  rcases List.append_eq_append_iff.mp h with ⟨now, rfl, rfl⟩ | ⟨now, rfl, rfl⟩
  · exact hk' (hk now (List.prefix_append _ _))
  · exact ha (ha' now (List.prefix_append _ _))

theorem Older.after {events : List (Event κ τ)} {k a : κ} (h : Older events k a) {e : Event κ τ}
    (hk : k ∈ (empty.run (events ++ [e])).table.keys) : Older (events ++ [e]) k a := by
  obtain ⟨before, since, rfl, ha, hsince⟩ := h
  refine ⟨before, since ++ [e], List.append_assoc .., ha, fun now hnow => ?_⟩
  rcases List.prefix_concat_iff.mp hnow with rfl | hnow
  · rwa [← List.append_assoc]
  · exact hsince now hnow

/-- A key that is entered now is younger than those that stay. -/
theorem older_of_new {events : List (Event κ τ)} {k a : κ} {e : Event κ τ}
    (hk : k ∈ (empty.run events).table.keys) (hk' : k ∈ (empty.run (events ++ [e])).table.keys)
    (ha : a ∉ (empty.run events).table.keys) : Older (events ++ [e]) k a := by
  refine ⟨events, [e], rfl, ha, fun now hnow => ?_⟩
  rcases List.prefix_concat_iff.mp (show now <+: [] ++ [e] from hnow) with rfl | hnow
  · exact hk'
  · rw [List.prefix_nil.mp hnow, List.append_nil]
    exact hk

/-- **What an event does to the keys**: some go and the others keep their order, or a new one comes to
the end. -/
theorem keys_after (b : Basin κ τ) (e : Event κ τ) :
    (b.after e).table.keys.Sublist b.table.keys ∨
      ∃ k, k ∉ b.table.keys ∧ (b.after e).table.keys = b.table.keys ++ [k] := by
  cases e with
  | enter k x =>
      show (b.table.append k x).keys.Sublist _ ∨ ∃ a, _ ∧ (b.table.append k x).keys = _
      rw [Table.append, Table.keys_update]
      by_cases hk : k ∈ b.table.keys
      · rw [if_pos hk]
        exact .inl (List.Sublist.refl _)
      · rw [if_neg hk]
        exact .inr ⟨k, hk, rfl⟩
  | clear => exact .inl (List.nil_sublist _)
  | next n =>
      rcases b.next_cases n with ⟨-, ha⟩ | ⟨k, xs, r, -, he, -, ha⟩
      · rw [ha]
        exact .inl (List.Sublist.refl _)
      · rw [ha]
        exact .inl (List.filter_sublist.map _)

/-- The keys stand in the order in which they have come, the oldest first. -/
theorem keys_older (events : List (Event κ τ)) :
    (empty.run events).table.keys.Pairwise (Older events) := by
  induction events using List.reverseRecOn with
  | nil => exact .nil
  | append_singleton events e ih =>
      have hstep : empty.run (events ++ [e]) = (empty.run events).after e := run_append _ _ _
      -- a pair of keys that both stay has its order, since the first one has been there all the time
      have hstay : (empty.run events).table.keys.Pairwise fun k a =>
          k ∈ (empty.run (events ++ [e])).table.keys → Older (events ++ [e]) k a :=
        ih.imp fun h => h.after
      rcases (empty.run events).keys_after e with hsub | ⟨a, ha, hkeys⟩
      · rw [← hstep] at hsub
        exact (hstay.sublist hsub).imp_of_mem fun hk _ h => h hk
      · rw [← hstep] at hkeys
        have hmem : ∀ k ∈ (empty.run events).table.keys,
            k ∈ (empty.run (events ++ [e])).table.keys := fun k hk =>
          hkeys ▸ List.mem_append_left _ hk
        rw [hkeys, List.pairwise_append]
        refine ⟨hstay.imp_of_mem fun hk _ h => h (hmem _ hk), List.pairwise_singleton _ _, ?_⟩
        intro k hk b hb
        obtain rfl := List.mem_singleton.mp hb
        exact older_of_new hk (hmem k hk) ha

/-! ### Drains that have ended -/

/-- **A drain that has ended** takes nothing more, whatever comes. -/
theorem ended_run {b : Basin κ τ} {n : Nat} (h : b.drains n = .ended) (events : List (Event κ τ)) :
    (b.run events).drains n = .ended := by
  induction events generalizing b with
  | nil => exact h
  | cons e rest ih =>
      refine ih (b := b.after e) ?_
      cases e with
      | enter k x => exact h
      | clear => exact h
      | next m =>
          by_cases hm : n = m
          · subst hm
            simp only [after, h, Drain.next_ended, Function.update_self]
          · simpa only [after, Function.update_of_ne hm] using h

/-- What a drain that is asked gives, in a pool that events have led to from an empty one. -/
structure Orderly (events : List (Event κ τ)) (b : Basin κ τ) : Prop where
  reached : empty.run events = b
  /-- An ended drain gives nothing, nor does any drain give anything of an empty pool; it is ended
  then. -/
  nothing : ∀ n, b.drains n = .ended ∨ b.table.entries = [] →
    (b.drains n).next b.table = (none, .ended, b.table)
  /-- Any other one takes the whole list of the key that has been there longest. -/
  oldest : ∀ n, b.drains n = .going → b.table.entries ≠ [] →
    ∃ k xs, (b.drains n).next b.table = (some (k, xs), .going, b.table.erase k) ∧
      b.table.get? k = some xs ∧
      ∀ a ∈ b.table.keys, a ≠ k → Older events k a ∧ ¬ Older events a k

theorem orderly_run (events : List (Event κ τ)) : Orderly events (empty.run events) where
  reached := rfl
  nothing n h := by
    rcases h with h | h
    · rw [h, Drain.next_ended]
    · exact Drain.next_of_empty _ h
  oldest n hn hne := by
    obtain ⟨⟨k, xs⟩, r, he⟩ := List.exists_cons_of_ne_nil hne
    have hkeys : (empty.run events).table.keys = k :: r.map Prod.fst := congrArg _ he
    have holder := keys_older events
    rw [hkeys] at holder ⊢
    refine ⟨k, xs, by rw [hn, Drain.next_of_entries he], ?_, fun a ha hne => ?_⟩
    · exact Table.mem_entries_iff.mp (he ▸ List.mem_cons_self)
    · have hka : Older events k a :=
        (List.pairwise_cons.mp holder).1 a ((List.mem_cons.mp ha).resolve_left hne)
      exact ⟨hka, hka.asymm⟩

end Basin

/-! ### Both pools -/

namespace Pools
variable {α : Type}

/-- A line is added under a region once for every mention. -/
theorem listOf_add (p : Pools α) (line : Line α) (outlined : List Int) (group : Option Group)
    (id : Int) : (p.add line outlined group).regions.listOf id =
      p.regions.listOf id ++ List.replicate (outlined.count id) line :=
  Table.listOf_appendEach _ _ _ _

/-- No list is empty once a line is added. -/
theorem filled_add {p : Pools α} (h : p.regions.Filled ∧ p.groups.Filled) (line : Line α)
    (outlined : List Int) (group : Option Group) :
    (p.add line outlined group).regions.Filled ∧ (p.add line outlined group).groups.Filled := by
  obtain ⟨hregions, hgroups⟩ := h
  refine ⟨hregions.appendEach outlined line, ?_⟩
  cases group with
  | none => exact hgroups
  | some g => exact hgroups.append g line

/-- What can happen to the pools. -/
inductive Move (α : Type) where
  | add (line : Line α) (regions : List Int) (group : Option Group)
  | clear
  /-- A drain of the regions is asked for its next entry. -/
  | nextRegion (drain : Nat)
  /-- A drain of the groups is asked for its next entry. -/
  | nextGroup (drain : Nat)

/-- The pools with the drains of both. -/
structure Drained (α : Type) where
  regions : Basin Int (Line α)
  groups : Basin Group (Line α)

namespace Drained

/-- The pools. -/
def pools (d : Drained α) : Pools α := ⟨d.regions.table, d.groups.table⟩

/-- Other pools with the same drains. -/
def withPools (d : Drained α) (p : Pools α) : Drained α :=
  ⟨{ d.regions with table := p.regions }, { d.groups with table := p.groups }⟩

/-- The pools and their drains after a move. -/
def after (d : Drained α) : Move α → Drained α
  | .add line regions group => d.withPools (d.pools.add line regions group)
  | .clear => d.withPools d.pools.clear
  | .nextRegion n => { d with regions := d.regions.after (.next n) }
  | .nextGroup n => { d with groups := d.groups.after (.next n) }

/-- The pools and their drains after moves. -/
def run (d : Drained α) (moves : List (Move α)) : Drained α := moves.foldl after d

/-- The lists of regions that leave at a move: one that a drain takes, or all that are cleared. -/
def regionsLeaving (d : Drained α) : Move α → List (Int × List (Line α))
  | .clear => d.pools.regions.entries
  | .nextRegion n => ((d.regions.drains n).next d.pools.regions).1.toList
  | .add .. | .nextGroup _ => []

/-- The lists of groups that leave at a move. -/
def groupsLeaving (d : Drained α) : Move α → List (Group × List (Line α))
  | .clear => d.pools.groups.entries
  | .nextGroup n => ((d.groups.drains n).next d.pools.groups).1.toList
  | .add .. | .nextRegion _ => []

/-- What leaves at moves, in the order in which it leaves. -/
def left {σ : Type} (leaving : Drained α → Move α → List σ) (d : Drained α) :
    List (Move α) → List σ
  | [] => []
  | m :: rest => leaving d m ++ left leaving (d.after m) rest

/-- Empty pools, with every drain still going. -/
def empty : Drained α := ⟨.empty, .empty⟩

end Drained

namespace Move

/-- What a move does to the regions. -/
def regionEvents : Move α → List (Basin.Event Int (Line α))
  | .add line regions _ => regions.map (.enter · line)
  | .clear => [.clear]
  | .nextRegion n => [.next n]
  | .nextGroup _ => []

/-- What a move does to the groups. -/
def groupEvents : Move α → List (Basin.Event Group (Line α))
  | .add line _ group => group.toList.map (.enter · line)
  | .clear => [.clear]
  | .nextRegion _ => []
  | .nextGroup n => [.next n]

/-- The lines that a move adds under a region, one for each mention. -/
def addedUnder (id : Int) : Move α → List (Line α)
  | .add line regions _ => List.replicate (regions.count id) line
  | _ => []

/-- The lines that a move adds to a group. -/
def addedTo (g : Group) : Move α → List (Line α)
  | .add line _ group => if group = some g then [line] else []
  | _ => []

end Move

namespace Drained

/-- Elements entered one after another leave nothing out and ask no drain. -/
theorem run_enter {κ : Type} [DecidableEq κ] (b : Basin κ (Line α)) (line : Line α) (ks : List κ) :
    b.run (ks.map (.enter · line)) =
        { b with table := ks.foldl (fun t k => t.append k line) b.table } ∧
      b.left (ks.map (.enter · line)) = [] := by
  induction ks generalizing b with
  | nil => exact ⟨rfl, rfl⟩
  | cons k rest ih => exact ih (b.after (.enter k line))

/-- **A move, seen from the regions.** -/
theorem regions_after (d : Drained α) (m : Move α) :
    (d.after m).regions = d.regions.run m.regionEvents ∧
      d.regionsLeaving m = d.regions.left m.regionEvents := by
  cases m with
  | add line regions group =>
      obtain ⟨hrun, hleft⟩ := run_enter d.regions line regions
      exact ⟨hrun.symm, hleft.symm⟩
  | clear => exact ⟨rfl, (List.append_nil _).symm⟩
  | nextRegion n => exact ⟨rfl, (List.append_nil _).symm⟩
  | nextGroup n => exact ⟨rfl, rfl⟩

/-- **A move, seen from the groups.** -/
theorem groups_after (d : Drained α) (m : Move α) :
    (d.after m).groups = d.groups.run m.groupEvents ∧
      d.groupsLeaving m = d.groups.left m.groupEvents := by
  cases m with
  | add line regions group =>
      cases group with
      | none => exact ⟨rfl, rfl⟩
      | some g => exact ⟨rfl, rfl⟩
  | clear => exact ⟨rfl, (List.append_nil _).symm⟩
  | nextRegion n => exact ⟨rfl, rfl⟩
  | nextGroup n => exact ⟨rfl, (List.append_nil _).symm⟩

/-- Moves, seen from one pool of which every move is known. -/
theorem run_of_after {κ : Type} [DecidableEq κ] {side : Drained α → Basin κ (Line α)}
    {events : Move α → List (Basin.Event κ (Line α))}
    {leaving : Drained α → Move α → List (κ × List (Line α))}
    (h : ∀ d m, side (d.after m) = (side d).run (events m) ∧ leaving d m = (side d).left (events m))
    (d : Drained α) (moves : List (Move α)) :
    side (d.run moves) = (side d).run (moves.flatMap events) ∧
      left leaving d moves = (side d).left (moves.flatMap events) := by
  induction moves generalizing d with
  | nil => exact ⟨rfl, rfl⟩
  | cons m rest ih =>
      obtain ⟨hrun, hleft⟩ := ih (d.after m)
      obtain ⟨hafter, hleaving⟩ := h d m
      rw [List.flatMap_cons, Basin.run_append, Basin.left_append, ← hafter, ← hleaving]
      exact ⟨hrun, congrArg _ hleft⟩

end Drained

theorem Move.entered_regionEvents (m : Move α) (id : Int) :
    m.regionEvents.flatMap (Basin.Event.entered id) = m.addedUnder id := by
  cases m with
  | add line regions group =>
      induction regions with
      | nil => rfl
      | cons a rest ih =>
          simp only [regionEvents, addedUnder, List.map_cons, List.flatMap_cons,
            Basin.Event.entered, List.count_cons] at ih ⊢
          rw [ih]
          by_cases h : a = id
          · subst h
            simp [List.replicate_succ]
          · have h' : ¬ id = a := fun e => h e.symm
            simp [h, h']
  | _ => rfl

theorem Move.entered_groupEvents (m : Move α) (g : Group) :
    m.groupEvents.flatMap (Basin.Event.entered g) = m.addedTo g := by
  cases m with
  | add line regions group =>
      cases group with
      | none => rfl
      | some a => simp [groupEvents, addedTo, Basin.Event.entered, eq_comm]
  | _ => rfl

/-- **No line is lost or doubled**, in whatever order lines are added, the pools are cleared and any
number of drains are asked: under each region and in each group, the lists that have left, one after
another, and the one that is still there are the lines that have been added.  And every drain gives
the list of the key that has been there longest, until it meets an empty pool and ends. -/
theorem drains_conserve (moves : List (Move α)) :
    let d : Drained α := Drained.empty.run moves
    (∀ id, Table.under id (Drained.empty.left Drained.regionsLeaving moves) ++
      d.pools.regions.listOf id = moves.flatMap (Move.addedUnder id)) ∧
    (∀ g, Table.under g (Drained.empty.left Drained.groupsLeaving moves) ++
      d.pools.groups.listOf g = moves.flatMap (Move.addedTo g)) ∧
    Basin.Orderly (moves.flatMap Move.regionEvents) d.regions ∧
    Basin.Orderly (moves.flatMap Move.groupEvents) d.groups ∧
    ∀ n more, (d.regions.drains n = .ended → (d.run more).regionsLeaving (.nextRegion n) = []) ∧
      (d.groups.drains n = .ended → (d.run more).groupsLeaving (.nextGroup n) = []) := by
  intro d
  obtain ⟨hregions, hregionsLeft⟩ := Drained.run_of_after Drained.regions_after .empty moves
  obtain ⟨hgroups, hgroupsLeft⟩ := Drained.run_of_after Drained.groups_after .empty moves
  refine ⟨fun id => ?_, fun g => ?_, ?_, ?_, fun n more => ⟨fun h => ?_, fun h => ?_⟩⟩
  · have hbalance := Drained.empty.regions.balance (moves.flatMap Move.regionEvents) id
    rw [← hregionsLeft, ← hregions, List.flatMap_assoc] at hbalance
    simp only [Move.entered_regionEvents] at hbalance
    exact hbalance
  · have hbalance := Drained.empty.groups.balance (moves.flatMap Move.groupEvents) g
    rw [← hgroupsLeft, ← hgroups, List.flatMap_assoc] at hbalance
    simp only [Move.entered_groupEvents] at hbalance
    exact hbalance
  · rw [hregions]
    exact Basin.orderly_run _
  · rw [hgroups]
    exact Basin.orderly_run _
  · obtain ⟨hmore, -⟩ := Drained.run_of_after Drained.regions_after d more
    have hended : (d.run more).regions.drains n = .ended := hmore ▸ Basin.ended_run h _
    simp only [Drained.regionsLeaving, hended, Drain.next_ended, Option.toList_none]
  · obtain ⟨hmore, -⟩ := Drained.run_of_after Drained.groups_after d more
    have hended : (d.run more).groups.drains n = .ended := hmore ▸ Basin.ended_run h _
    simp only [Drained.groupsLeaving, hended, Drain.next_ended, Option.toList_none]

end Pools
end BorderTiles
