import HashedAssets.Proofs.Graph.Edges

/-!
# Graphs that are built

* `Change`, `built`: what can be done to a graph, and the graph that comes of it;
* `wellFormed_built`: it is well formed, whatever is done.
-/

namespace HashedAssets.Graph

variable {g : Graph}

/-- What can be done to a graph. -/
inductive Change
  | addNode (p : String)
  | addEdge (e : Edge)
  /-- The edges need not be those of the node that loses its own. -/
  | setEdges (p : String) (es : List Edge)

/-- The graph behind a change. -/
def Change.apply (g : Graph) : Change → Graph
  | .addNode p => g.addNode p
  | .addEdge e => g.addEdge e
  | .setEdges p es => g.setEdges p es

/-- The graph that comes of changes, one after the other, where there was nothing. -/
def built (changes : List Change) : Graph := changes.foldl Change.apply ∅

namespace WellFormed

theorem addNode (hg : g.WellFormed) (p : String) : (g.addNode p).WellFormed := by
  refine ⟨fun q e he => ?_, fun q e he => ?_⟩
  · rw [edgesOf_addNode] at he
    exact hg.source q e he
  · rw [edgesOf_addNode] at he
    exact (mem_nodes_addNode p _).2 (.inr (hg.target q e he))

theorem addEdge (hg : g.WellFormed) (e : Edge) : (g.addEdge e).WellFormed := by
  have hedge : ∀ q f, f ∈ (g.addEdge e).edgesOf q → (q = e.source ∧ f = e) ∨ f ∈ g.edgesOf q := by
    intro q f hf
    rw [edgesOf_addEdge] at hf
    split at hf
    · next hq => exact (Edge.mem_addTo.1 hf).imp_left fun h => ⟨hq, h⟩
    · exact .inr hf
  refine ⟨fun q f hf => ?_, fun q f hf => ?_⟩
  · rcases hedge q f hf with ⟨rfl, rfl⟩ | hf
    · rfl
    · exact hg.source q f hf
  · rw [mem_nodes_addEdge]
    rcases hedge q f hf with ⟨-, rfl⟩ | hf
    · exact .inr (.inl rfl)
    · exact .inr (.inr (hg.target q f hf))

theorem foldl_addEdge (hg : g.WellFormed) (es : List Edge) : (es.foldl Graph.addEdge g).WellFormed := by
  induction es generalizing g with
  | nil => exact hg
  | cons e rest ih => exact ih (hg.addEdge e)

/-- A node may lose its edges. -/
theorem clear (hg : g.WellFormed) (p : String) : WellFormed ⟨g.edges.insert p []⟩ := by
  have hedge : ∀ q e, e ∈ edgesOf ⟨g.edges.insert p []⟩ q → e ∈ g.edgesOf q := by
    intro q e he
    rw [edgesOf_insert] at he
    split at he
    · cases he
    · exact he
  refine ⟨fun q e he => hg.source q e (hedge q e he), fun q e he => ?_⟩
  exact (mem_nodes_insert p _ []).2 (.inr (hg.target q e (hedge q e he)))

theorem apply (hg : g.WellFormed) (change : Change) : (change.apply g).WellFormed := by
  cases change with
  | addNode p => exact hg.addNode p
  | addEdge e => exact hg.addEdge e
  | setEdges p es => exact (hg.clear p).foldl_addEdge es

end WellFormed

/-- Whatever is done, each edge stands under its source, and its target is a node. -/
theorem wellFormed_built (changes : List Change) : (built changes).WellFormed := by
  have hall : ∀ g : Graph, g.WellFormed → (changes.foldl Change.apply g).WellFormed := by
    induction changes with
    | nil => exact fun _ hg => hg
    | cons change rest ih => exact fun g hg => ih _ (hg.apply change)
  exact hall ∅ WellFormed.empty

end HashedAssets.Graph
