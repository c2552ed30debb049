import HashedAssets.Graph.Edge
import HashedAssets.PathMap

/-!
# Dependency graphs

A graph has paths as its nodes; each node has its outgoing edges, in order and each once.

* `addNode`, `addEdge`, `setEdges`: building graphs;
* `edgesOf`, `edgesTo`, `targetsOf`: looking at them.
-/

namespace HashedAssets

/-- A dependency graph: the outgoing edges of each node. -/
structure Graph where
  edges : PathMap (List Edge)
  deriving DecidableEq, Repr

namespace Graph

/-- The graph without nodes. -/
def empty : Graph := ⟨∅⟩

instance : EmptyCollection Graph := ⟨empty⟩

instance : Inhabited Graph := ⟨empty⟩

/-- The nodes, ascending. -/
def nodes (g : Graph) : List String := g.edges.keys

/-- Whether a path is a node. -/
def hasNode (g : Graph) (p : String) : Bool := g.edges.contains p

/-- The number of nodes. -/
def size (g : Graph) : Nat := g.edges.size

/-- The outgoing edges of a node, none if there is no such node. -/
def edgesOf (g : Graph) (p : String) : List Edge := (g.edges.get? p).getD []

/-- The targets of the outgoing edges of a node. -/
def targetsOf (g : Graph) (p : String) : List String := Edge.targets (g.edgesOf p)

/-- All edges, those of smaller nodes first. -/
def allEdges (g : Graph) : List Edge := g.edges.values.flatten

/-- The edges that point at a node, those of smaller nodes first. -/
def edgesTo (g : Graph) (p : String) : List Edge := g.allEdges.filter (·.target == p)

/-- Add a node, with or without edges. -/
def addNode (g : Graph) (p : String) : Graph :=
  if g.hasNode p then g else ⟨g.edges.insert p []⟩

/-- Add an edge, and its ends as nodes. -/
def addEdge (g : Graph) (e : Edge) : Graph :=
  let g := g.addNode e.target
  ⟨g.edges.insert e.source (Edge.addTo (g.edgesOf e.source) e)⟩

/-- Put edges in the place of the outgoing edges of a node. -/
def setEdges (g : Graph) (p : String) (es : List Edge) : Graph :=
  es.foldl addEdge ⟨g.edges.insert p []⟩

/-- Whether the graph has an edge from one node to another. -/
def Adjacent (g : Graph) (p q : String) : Prop := q ∈ g.targetsOf p

instance (g : Graph) (p q : String) : Decidable (g.Adjacent p q) :=
  inferInstanceAs (Decidable (q ∈ g.targetsOf p))

end Graph

end HashedAssets
