import HashedAssets.Graph.Cycle

/-!
# Graphs in the order in which they grow

A roster is a dependency graph that holds its nodes in the order in which they came.

* `addNode`, `addEdge`, `setEdges`: how it grows;
* `sorted`: the graph, with its nodes in ascending order;
* `edgesOf`, `edgesTo`, `dump`, `cycles`: what is read off it node by node;
* `index`: for each path, the nodes whose edges name it.
-/

namespace HashedAssets

/-- A dependency graph whose nodes stand in the order in which they came, each with its outgoing
edges. -/
structure Roster where
  entries : List (String × List Edge)
  nodup : (entries.map (·.1)).Nodup

namespace Roster

/-- Put edges in the place of those of a node; a node that is new goes to the end. -/
def enter (p : String) (es : List Edge) : List (String × List Edge) → List (String × List Edge)
  | [] => [(p, es)]
  | x :: rest => if x.1 = p then (p, es) :: rest else x :: enter p es rest

theorem map_enter (p : String) (es : List Edge) (l : List (String × List Edge)) :
    (enter p es l).map (·.1) = if p ∈ l.map (·.1) then l.map (·.1) else l.map (·.1) ++ [p] := by
  induction l with
  | nil => rfl
  | cons x rest ih =>
      rw [enter]
      split
      · next h => simp [h]
      · next h =>
          have hx : p ≠ x.1 := fun he => h he.symm
          rw [List.map_cons, ih, List.map_cons]
          by_cases hp : p ∈ rest.map (·.1) <;> simp [hp, hx]

theorem nodup_enter {p : String} {es : List Edge} {l : List (String × List Edge)}
    (h : (l.map (·.1)).Nodup) : ((enter p es l).map (·.1)).Nodup := by
  rw [map_enter]
  split
  · exact h
  · next hp =>
      refine List.nodup_append.2 ⟨h, by simp, fun a ha b hb hab => hp ?_⟩
      rwa [← List.mem_singleton.1 hb, ← hab]

/-- The roster without nodes. -/
def empty : Roster := ⟨[], .nil⟩

instance : EmptyCollection Roster := ⟨empty⟩

instance : Inhabited Roster := ⟨empty⟩

/-- Give a node edges in the place of those that it has. -/
def insert (r : Roster) (p : String) (es : List Edge) : Roster :=
  ⟨enter p es r.entries, nodup_enter r.nodup⟩

/-- The nodes, in the order in which they came. -/
def nodes (r : Roster) : List String := r.entries.map (·.1)

/-- Whether a path is a node. -/
def hasNode (r : Roster) (p : String) : Bool := r.nodes.contains p

/-- The number of nodes. -/
def size (r : Roster) : Nat := r.entries.length

/-- The outgoing edges of a node, none if there is no such node. -/
def edgesOf (r : Roster) (p : String) : List Edge := (r.entries.lookup p).getD []

/-- The targets of the outgoing edges of a node. -/
def targetsOf (r : Roster) (p : String) : List String := Edge.targets (r.edgesOf p)

/-- Add a node, with or without edges. -/
def addNode (r : Roster) (p : String) : Roster := if r.hasNode p then r else r.insert p []

/-- Add an edge, and its ends as nodes: the target comes before the source. -/
def addEdge (r : Roster) (e : Edge) : Roster :=
  let r := r.addNode e.target
  r.insert e.source (Edge.addTo (r.edgesOf e.source) e)

/-- Put edges in the place of the outgoing edges of a node. -/
def setEdges (r : Roster) (p : String) (es : List Edge) : Roster := es.foldl addEdge (r.insert p [])

/-- The same graph with its nodes in ascending order. -/
def sorted (r : Roster) : Graph := ⟨PathMap.ofList r.entries⟩

/-- The edges that point at a node, those of smaller nodes first. -/
def edgesTo (r : Roster) (p : String) : List Edge :=
  ((ascending r.nodes).flatMap r.edgesOf).filter (·.target == p)

/-- The nodes in ascending order, each with its edges. -/
def dump (r : Roster) : List (String × List Edge) :=
  (ascending r.nodes).map fun p => (p, r.edgesOf p)

/-- The cycles of a depth-first walk, which takes the nodes in ascending order. -/
def cycles (r : Roster) : List (List String) := r.sorted.cycles

/-- The faults of a roster: one for each cycle. -/
def faults (r : Roster) : List Fault := r.cycles.map .cycle

/-- For each path the nodes whose edges name it, in the order in which they came: `named` says which
paths the edges of a node name. A node whose edges name a path twice stands there twice. -/
def index (r : Roster) (named : List Edge → List String) : PathMap (List String) :=
  r.entries.foldl (fun m x => (named x.2).foldl (fun m t => m.insert t ((m.get? t).getD [] ++ [x.1])) m) ∅

end Roster

end HashedAssets
