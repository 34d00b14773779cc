import BorderTiles.Way

/-!
# Pools

The lines that wait for the end of the input: by country for the outlines, and by group for joining.
`Pools.add` enters a line in both, `Pools.clear` forgets all.  A `Drain` takes the entries of a pool
one at a time, the one that has been there longest first; once it has met an empty pool it gives
nothing more.
-/

namespace BorderTiles

/-- The waiting lines. -/
structure Pools (α : Type) where
  regions : Table Int (List (Line α))
  groups : Table Group (List (Line α))

namespace Pools
variable {α : Type}

/-- No waiting line. -/
def empty : Pools α := ⟨∅, ∅⟩

/-- The pools with a line entered under each region, once for every mention, and under the group. -/
def add (p : Pools α) (line : Line α) (regions : List Int) (group : Option Group) : Pools α where
  regions := regions.foldl (fun t id => t.append id line) p.regions
  groups := group.elim p.groups fun key => p.groups.append key line

/-- The pools without their lines. -/
def clear (_ : Pools α) : Pools α := empty

end Pools

/-- A way of emptying a table: still going on, or at its end. -/
inductive Drain where
  | going
  | ended
  deriving DecidableEq, Repr

namespace Drain
variable {κ ν : Type}

/-- The next entry that a drain takes from a table, if any. -/
def next (d : Drain) (t : Table κ ν) : Option (κ × ν) × Drain × Table κ ν :=
  match d with
  | ended => (none, ended, t)
  | going =>
    match t.popFirst? with
    | some (e, rest) => (some e, going, rest)
    | none => (none, ended, t)

/-- The next entries, at most `n`, that a drain takes. -/
def take (d : Drain) (t : Table κ ν) : (n : Nat) → List (κ × ν) × Drain × Table κ ν
  | 0 => ([], d, t)
  | n + 1 =>
    match d.next t with
    | (none, d, t) => ([], d, t)
    | (some e, d, t) =>
      let (es, d, t) := take d t n
      (e :: es, d, t)

end Drain
end BorderTiles
