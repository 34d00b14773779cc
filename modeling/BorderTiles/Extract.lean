import BorderTiles.Layer

/-!
# Extract

A map extract: places of nodes, ways through nodes, and relations with members.  `Extract.enter` reads
one into a layer in two passes.  The first meets the relations and notes which ways are members of the
accepted ones, once for every membership; members that are no ways are passed over.  The second goes
through the ways in their order; those that belong to a relation and have a place for every node are
collected in batches, and each full batch is met by the layer.  `Extract.Batch.flush` is the only place
where ways reach the layer, so the size of a batch changes nothing but the moment.
-/

namespace BorderTiles

/-- A way by its nodes. -/
structure Extract.Path where
  id : Int
  nodes : List Int
  tags : Tags

/-- A member of a relation, by its type and id. -/
inductive Extract.Member where
  | node (id : Int)
  | way (id : Int)
  | relation (id : Int)
  deriving DecidableEq

/-- The id of a member that is a way. -/
def Extract.Member.way? : Member → Option Int
  | way id => some id
  | node _ | relation _ => none

/-- A relation with its members. -/
structure Extract.Membership where
  id : Int
  members : List Extract.Member
  tags : Tags

/-- A map extract. -/
structure Extract (α : Type) where
  /-- The longitude and latitude of a node, if it has a place on the map. -/
  place : Int → Option (α × α)
  relations : List Extract.Membership
  ways : List Extract.Path

namespace Extract
variable {α : Type} [Mercator α]

/-- What the first pass gives: the layer, the relations of each way, and the number of accepted
relations. -/
structure Members (α : Type) where
  layer : Layer α
  ofWay : Table Int (List Int)
  accepted : Nat

/-- A relation is met in the first pass. -/
def Members.enter (m : Members α) (r : Membership) : Members α :=
  match m.layer.enterRelation r.id r.tags with
  | (none, layer) => { m with layer }
  | (some _, layer) =>
    { layer
      ofWay := (r.members.filterMap Member.way?).foldl (fun t way => t.append way r.id) m.ofWay
      accepted := m.accepted + 1 }

/-- The positions of a way's nodes, if all have a place. -/
def positions? (e : Extract α) (p : Path) : Option (List (List α)) :=
  p.nodes.mapM fun n => (e.place n).map fun (lon, lat) => [lon, lat]

/-- The second pass between two ways. -/
structure Batch (α : Type) where
  layer : Layer α
  /-- The ways that wait for their batch to be full. -/
  waiting : List (Way α)
  /-- The batches met so far. -/
  batches : List (List (Way α))
  skipped : Nat
  notices : List (Notice α)
  /-- The first fault of a batch. -/
  fault : Option Fault

namespace Batch

/-- Ways are met by a layer, up to the first fault. -/
def meetAll (layer : Layer α) : List (Way α) → Step α Unit
  | [] => ⟨layer, [], .ok ()⟩
  | way :: rest =>
    let step := layer.enterWay way
    match step.result with
    | .error fault => ⟨step.layer, step.notices, .error fault⟩
    | .ok _ =>
      let tail := meetAll step.layer rest
      { tail with notices := step.notices ++ tail.notices }

/-- The waiting ways are met. -/
def flush (b : Batch α) : Batch α :=
  if b.waiting.isEmpty then b
  else
    let step := meetAll b.layer b.waiting
    { b with
      layer := step.layer
      waiting := []
      batches := b.batches ++ [b.waiting]
      notices := b.notices ++ step.notices
      fault := match b.fault, step.result with
        | none, .error fault => some fault
        | fault, _ => fault }

/-- A way of the extract is met in the second pass. -/
def enter (e : Extract α) (ofWay : Table Int (List Int)) (size : Int) (b : Batch α) (p : Path) :
    Batch α :=
  match ofWay.get? p.id with
  | none => b
  | some ids =>
    if p.nodes.length < 2 then b
    else
      match e.positions? p with
      | none =>
        { b with skipped := b.skipped + 1, notices := b.notices ++ [.wayWithoutPlace p.id] }
      | some positions =>
        let way : Way α := ⟨p.id, p.tags, positions, b.layer.relationsOf ids⟩
        let b := { b with waiting := b.waiting ++ [way] }
        if size ≤ b.waiting.length then b.flush else b

/-- The number of ways in the batches met so far. -/
def processed (b : Batch α) : Nat := b.batches.foldl (fun n ways => n + ways.length) 0

end Batch

/-- What reading an extract gives: the layer, the batches, the reports, and the number of ways met or
the first fault. -/
structure Entered (α : Type) where
  layer : Layer α
  batches : List (List (Way α))
  notices : List (Notice α)
  result : Except Fault Nat

/-- An extract is read into a layer, with ways in batches of a size. -/
def enter (e : Extract α) (layer : Layer α) (size : Int) : Entered α :=
  let members := e.relations.foldl Members.enter ⟨layer, ∅, 0⟩
  let found := Notice.relationsFound members.accepted members.layer.codes.size
  let start : Batch α := ⟨members.layer, [], [], 0, [], none⟩
  let last := (e.ways.foldl (Batch.enter e members.ofWay size) start).flush
  match last.fault with
  | some fault => ⟨last.layer, last.batches, found :: last.notices, .error fault⟩
  | none =>
    ⟨last.layer, last.batches, found :: last.notices ++ [.waysProcessed last.processed last.skipped],
      .ok last.processed⟩

end Extract
end BorderTiles
