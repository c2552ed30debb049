import HashedAssets.Graph.Basic

/-!
# What can be reached in a graph

A search by levels: from all that was found last, everything new that is one step away.

* `Graph.explore`: the search, for any notion of a step;
* `Graph.closure`: all that a node needs, itself included;
* `Graph.dependents`: all that needs a node, through edges of given kinds;
* `Graph.Reaches`: paths in the graph, as a relation.
-/

namespace HashedAssets.Graph

/-- A path of edges that `keep` admits, of any length. -/
inductive Reaches (g : Graph) (keep : EdgeKind → Bool) : String → String → Prop
  | refl (p : String) : Reaches g keep p p
  | step {p q : String} {e : Edge} : e ∈ g.edgesOf p → keep e.kind = true →
      Reaches g keep e.target q → Reaches g keep p q

/-- The paths of a list that are not among those seen, each once, in order. -/
def unseen (seen : List String) : List String → List String
  | [] => []
  | p :: rest =>
      if seen.contains p then unseen seen rest else p :: unseen (p :: seen) rest

/-- All that is reached from `frontier` in at most `n` steps, together with what was seen before. -/
def explore (next : String → List String) : Nat → List String → List String → List String
  | 0, _, seen => seen
  | n + 1, frontier, seen =>
      match unseen seen (frontier.flatMap next) with
      | [] => seen
      | fresh => explore next n fresh (fresh ++ seen)

/-- A node and all that it needs, directly or not, ascending. -/
def closure (g : Graph) (p : String) : List String :=
  ascending (explore g.targetsOf (g.size + 1) [p] [p])

/-- The sources of edges that `keep` admits and that point at a node. -/
def sourcesOf (g : Graph) (keep : EdgeKind → Bool) (p : String) : List String :=
  ((g.edgesTo p).filter fun e => keep e.kind).map (·.source)

/-- All that needs a node, directly or not, through edges that `keep` admits, ascending; the node
itself is left out. -/
def dependentsBy (g : Graph) (keep : EdgeKind → Bool) (p : String) : List String :=
  ascending ((explore (g.sourcesOf keep) (g.size + 1) [p] [p]).filter (· != p))

/-- All that needs a node, directly or not, ascending. -/
def dependents (g : Graph) (p : String) : List String := g.dependentsBy (fun _ => true) p

/-- All that includes a node, directly or not, ascending. -/
def includers (g : Graph) (p : String) : List String := g.dependentsBy (· == .include) p

end HashedAssets.Graph
