import HashedAssets.Graph.Roster.Basic
import HashedAssets.Loop

/-!
# The order of evaluation, by counting

Each node counts its targets that are not placed; when the count comes down to nothing the node is
ready. Of the nodes that are ready the smallest is placed next.

* `Placing`, `Placing.step`: nodes being placed, one after the other;
* `Roster.order`: the order, or the fault that there is none.
-/

namespace HashedAssets.Roster

/-- Nodes being placed. -/
structure Placing where
  /-- How many targets of each node are not placed yet. -/
  remaining : PathMap Int
  /-- The nodes that wait for nothing, in any order. -/
  ready : List String
  /-- The nodes that are placed, the last one in front. -/
  placed : List String

/-- A target of a node has been placed. -/
def Placing.count (s : Placing) (q : String) : Placing :=
  let left := (s.remaining.get? q).getD 0 - 1
  { s with
    remaining := s.remaining.insert q left
    ready := if left = 0 then q :: s.ready else s.ready }

/-- Place the smallest of the nodes that are ready, and count it at each node that waits for it. -/
def Placing.step (waiting : PathMap (List String)) (s : Placing) : Placing ⊕ List String :=
  match s.ready with
  | [] => .inr s.placed.reverse
  | q :: rest =>
      let p := Graph.smallest q rest
      let s := { s with ready := (q :: rest).erase p, placed := p :: s.placed }
      .inl (((waiting.get? p).getD []).foldl count s)

/-- The targets of edges; two edges to one target count once. -/
def wants (es : List Edge) : List String := ascending (Edge.targets es)

/-- Nothing is placed. -/
def placing (r : Roster) : Placing where
  remaining := PathMap.ofList (r.entries.map fun x => (x.1, ((wants x.2).length : Int)))
  ready := (r.entries.filter fun x => (wants x.2).length == 0).map (·.1)
  placed := []

/-- The nodes in the order in which they can be placed. -/
def place (r : Roster) : List String :=
  (Loop.run (Placing.step (r.index wants)) (r.size + 1) r.placing).getD []

/-- All nodes, each behind its targets, and the smallest first wherever there is a choice. -/
def order (r : Roster) : Except Fault (List String) :=
  let placed := r.place
  if placed.length = r.size then .ok placed
  else .error (.cycle (r.cycles.headD (ascending (r.nodes.filter fun p => !placed.contains p))))

end HashedAssets.Roster
