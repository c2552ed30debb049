import HashedAssets.Graph.Cycle

/-!
# The order of evaluation

Nodes are placed one after another, each time the smallest one whose targets are all placed.

* `Graph.place`: the nodes in that order, and those that cannot be placed;
* `Graph.order`: the order, or the fault that there is none.
-/

namespace HashedAssets.Graph

/-- A node that is not placed yet, with those of its targets that are not placed. -/
abbrev Waiting := String × List String

/-- The nodes of a graph, each waiting for all its targets. -/
def waiting (g : Graph) : List Waiting :=
  g.nodes.map fun p => (p, ascending (g.targetsOf p))

/-- Place a node: it leaves the list, and nothing waits for it any more. -/
def settle (p : String) (ws : List Waiting) : List Waiting :=
  (ws.filter (·.1 != p)).map fun w => (w.1, w.2.filter (· != p))

theorem length_settle_lt {ws : List Waiting} {w : Waiting} (h : w ∈ ws) :
    (settle w.1 ws).length < ws.length := by
  unfold settle
  rw [List.length_map]
  apply Nat.lt_of_le_of_ne (List.length_filter_le _ _)
  intro he
  have := List.length_filter_eq_length_iff.1 he w h
  simp at this

/-- The nodes in the order in which they can be placed, and those left over. -/
def place (ws : List Waiting) : List String × List String :=
  match _h : ws.find? (·.2.isEmpty) with
  | none => ([], ws.map (·.1))
  | some w =>
      let (placed, left) := place (settle w.1 ws)
      (w.1 :: placed, left)
termination_by ws.length
decreasing_by exact length_settle_lt (List.mem_of_find?_eq_some _h)

/-- All nodes, each behind its targets, and the smallest first wherever there is a choice. -/
def order (g : Graph) : Except Fault (List String) :=
  match place g.waiting with
  | (placed, []) => .ok placed
  | (_, left) => .error (.cycle (g.cycles.headD left))

end HashedAssets.Graph
