import HashedAssets.Graph.Roster.Basic
import HashedAssets.Proofs.Graph.Built
import Mathlib.Data.List.Sort

/-!
# Rosters and graphs

A roster becomes a graph when its nodes are put in order. What a roster holds node by node is what the
graph holds, and a roster grows as the graph does; the order in which its nodes came is all that is lost.

* `edgesOf_sorted`, `mem_nodes_sorted`: the graph has the same nodes and edges;
* `built`, `sorted_built`: rosters that grow by changes, beside the graphs that do;
* `Ordered`, `ordered_built`: the edges of each node are in order, each once, and lead to nodes;
* `mem_getD_index`, `nodup_getD_index`: under a path of an index stand the nodes that name it.
-/

namespace HashedAssets

namespace Roster

variable {r : Roster} {p q : String} {es : List Edge}

/-! ### Nodes and their edges -/

theorem lookup_enter (p q : String) (es : List Edge) (l : List (String × List Edge)) :
    (enter p es l).lookup q = if q = p then some es else l.lookup q := by
  induction l with
  | nil => rw [enter, PathMap.lookup_cons_ite]
  | cons x rest ih =>
      rw [enter]
      split
      · next hx =>
          rw [PathMap.lookup_cons_ite, PathMap.lookup_cons_ite, hx]
          split <;> rfl
      · next hx =>
          rw [PathMap.lookup_cons_ite, PathMap.lookup_cons_ite, ih]
          by_cases hq : q = x.1
          · rw [if_pos hq, if_pos hq, if_neg fun h => hx (hq ▸ h)]
          · rw [if_neg hq, if_neg hq]

theorem edgesOf_insert (p q : String) (es : List Edge) :
    (r.insert p es).edgesOf q = if q = p then es else r.edgesOf q := by
  unfold edgesOf insert
  rw [lookup_enter]
  split <;> rfl

theorem length_nodes (r : Roster) : r.nodes.length = r.size := List.length_map _

theorem hasNode_iff : r.hasNode p = true ↔ p ∈ r.nodes := by simp [hasNode]

theorem mem_nodes_iff : p ∈ r.nodes ↔ (r.entries.lookup p).isSome = true :=
  PathMap.mem_keys_of_lookup.symm

theorem mem_nodes_of_mem_edgesOf {e : Edge} (h : e ∈ r.edgesOf p) : p ∈ r.nodes := by
  rw [mem_nodes_iff]
  unfold edgesOf at h
  cases hp : r.entries.lookup p with
  | none => rw [hp] at h; cases h
  | some _ => rfl

theorem edgesOf_eq_of_mem {x : String × List Edge} (h : x ∈ r.entries) : r.edgesOf x.1 = x.2 := by
  rw [edgesOf, PathMap.lookup_of_mem r.nodup h]
  rfl

theorem target_mem_of_mem_edgesOf {e : Edge} (h : e ∈ r.edgesOf p) :
    e.target ∈ (r.entries.flatMap (·.2)).map (·.target) := by
  obtain ⟨x, hx, rfl⟩ := List.mem_map.1 (mem_nodes_of_mem_edgesOf h)
  rw [edgesOf_eq_of_mem hx] at h
  exact List.mem_map_of_mem (List.mem_flatMap.2 ⟨x, hx, h⟩)

/-! ### The graph of a roster -/

theorem get?_sorted (r : Roster) (p : String) : r.sorted.edges.get? p = r.entries.lookup p :=
  PathMap.get?_ofList r.nodup p

@[simp] theorem edgesOf_sorted (r : Roster) (p : String) : r.sorted.edgesOf p = r.edgesOf p := by
  rw [Graph.edgesOf, get?_sorted, edgesOf]

@[simp] theorem targetsOf_sorted (r : Roster) (p : String) : r.sorted.targetsOf p = r.targetsOf p := by
  rw [Graph.targetsOf, edgesOf_sorted, targetsOf]

@[simp] theorem mem_nodes_sorted : p ∈ r.sorted.nodes ↔ p ∈ r.nodes := by
  rw [Graph.nodes, PathMap.mem_keys, PathMap.mem_iff_get?_isSome, get?_sorted, mem_nodes_iff]

theorem hasNode_sorted (r : Roster) (p : String) : r.sorted.hasNode p = r.hasNode p := by
  rw [Bool.eq_iff_iff, Graph.hasNode_iff, mem_nodes_sorted, hasNode_iff]

theorem adjacent_sorted : r.sorted.Adjacent p q ↔ q ∈ r.targetsOf p := by
  rw [Graph.Adjacent, targetsOf_sorted]

/-- The nodes of the graph are those of the roster in ascending order. -/
theorem nodes_sorted (r : Roster) : r.sorted.nodes = ascending r.nodes := by
  refine r.sorted.edges.pairwise_keys.eq_of_mem_iff (pairwise_ascending r.nodes) fun p => ?_
  rw [mem_ascending]
  exact mem_nodes_sorted

/-! ### Growing -/

theorem sorted_insert (r : Roster) (p : String) (es : List Edge) :
    (r.insert p es).sorted = ⟨r.sorted.edges.insert p es⟩ := by
  have hedges : (r.insert p es).sorted.edges = r.sorted.edges.insert p es := by
    refine PathMap.ext_get? fun q => ?_
    rw [get?_sorted, PathMap.get?_insert, get?_sorted]
    exact lookup_enter p q es r.entries
  rw [← hedges]

theorem sorted_addNode (r : Roster) (p : String) : (r.addNode p).sorted = r.sorted.addNode p := by
  unfold addNode Graph.addNode
  rw [hasNode_sorted]
  split
  · rfl
  · exact sorted_insert r p []

theorem sorted_addEdge (r : Roster) (e : Edge) : (r.addEdge e).sorted = r.sorted.addEdge e := by
  unfold addEdge Graph.addEdge
  rw [sorted_insert, ← sorted_addNode]
  simp only [edgesOf_sorted]

theorem sorted_foldl_addEdge (r : Roster) (es : List Edge) :
    (es.foldl addEdge r).sorted = es.foldl Graph.addEdge r.sorted := by
  induction es generalizing r with
  | nil => rfl
  | cons e rest ih => rw [List.foldl_cons, ih, sorted_addEdge, List.foldl_cons]

/-- The roster behind a change. -/
def apply (r : Roster) : Graph.Change → Roster
  | .addNode p => r.addNode p
  | .addEdge e => r.addEdge e
  | .setEdges p es => r.setEdges p es

/-- The roster that comes of changes, one after the other, where there was nothing. -/
def built (changes : List Graph.Change) : Roster := changes.foldl apply ∅

theorem sorted_apply (r : Roster) (change : Graph.Change) : (r.apply change).sorted = change.apply r.sorted := by
  cases change with
  | addNode p => exact sorted_addNode r p
  | addEdge e => exact sorted_addEdge r e
  | setEdges p es => exact (sorted_foldl_addEdge _ es).trans (by rw [sorted_insert]; rfl)

/-- A roster and a graph that grow by the same changes hold the same. -/
theorem sorted_built (changes : List Graph.Change) : (built changes).sorted = Graph.built changes := by
  have hall : ∀ r : Roster, (changes.foldl apply r).sorted = changes.foldl Graph.Change.apply r.sorted := by
    induction changes with
    | nil => exact fun _ => rfl
    | cons change rest ih => exact fun r => by rw [List.foldl_cons, ih, sorted_apply, List.foldl_cons]
  exact hall ∅

/-! ### Edges in order -/

/-- The edges of each node are its own, in order and each once, and their targets are nodes. -/
structure Ordered (r : Roster) : Prop where
  edges : ∀ p, Edge.Sorted p (r.edgesOf p)
  target : ∀ p, ∀ e ∈ r.edgesOf p, e.target ∈ r.nodes

theorem mem_nodes_insert : q ∈ (r.insert p es).nodes ↔ q = p ∨ q ∈ r.nodes := by
  rw [← mem_nodes_sorted, sorted_insert, Graph.mem_nodes_insert, mem_nodes_sorted]

namespace Ordered

theorem empty : Ordered ∅ := ⟨fun p => Edge.Sorted.nil p, fun _ _ he => by cases he⟩

theorem wellFormed (h : r.Ordered) : r.sorted.WellFormed := by
  refine ⟨fun p e he => ?_, fun p e he => ?_⟩
  · exact (h.edges p).source e (r.edgesOf_sorted p ▸ he)
  · exact mem_nodes_sorted.2 (h.target p e (r.edgesOf_sorted p ▸ he))

/-- A node may be given edges that are in order, where their targets are nodes. -/
theorem insert (h : r.Ordered) (hes : Edge.Sorted p es) (htarget : ∀ e ∈ es, e.target ∈ r.nodes) :
    (r.insert p es).Ordered := by
  refine ⟨fun q => ?_, fun q e he => ?_⟩
  · rw [edgesOf_insert]
    split
    · next hq => exact hq ▸ hes
    · exact h.edges q
  · rw [edgesOf_insert] at he
    rw [mem_nodes_insert]
    split at he
    · exact .inr (htarget e he)
    · exact .inr (h.target q e he)

theorem addNode (h : r.Ordered) (p : String) : (r.addNode p).Ordered := by
  unfold Roster.addNode
  split
  · exact h
  · exact h.insert (Edge.Sorted.nil p) (by simp)

theorem addEdge (h : r.Ordered) (e : Edge) : (r.addEdge e).Ordered := by
  have hr := h.addNode e.target
  refine hr.insert ((hr.edges e.source).addTo rfl) fun f hf => ?_
  rcases Edge.mem_addTo.1 hf with rfl | hf
  · rw [← mem_nodes_sorted, sorted_addNode]
    exact (Graph.mem_nodes_addNode _ _).2 (.inl rfl)
  · exact hr.target _ f hf

theorem foldl_addEdge (h : r.Ordered) (es : List Edge) : (es.foldl Roster.addEdge r).Ordered := by
  induction es generalizing r with
  | nil => exact h
  | cons e rest ih => exact ih (h.addEdge e)

theorem apply (h : r.Ordered) (change : Graph.Change) : (r.apply change).Ordered := by
  cases change with
  | addNode p => exact h.addNode p
  | addEdge e => exact h.addEdge e
  | setEdges p es => exact (h.insert (Edge.Sorted.nil p) (by simp)).foldl_addEdge es

end Ordered

theorem ordered_built (changes : List Graph.Change) : (built changes).Ordered := by
  have hall : ∀ r : Roster, r.Ordered → (changes.foldl Roster.apply r).Ordered := by
    induction changes with
    | nil => exact fun _ h => h
    | cons change rest ih => exact fun r h => ih _ (h.apply change)
  exact hall ∅ Ordered.empty

/-! ### Who names a path -/

/-- Under a path of an index each node stands as often as its edges name the path. -/
theorem getD_index (r : Roster) (named : List Edge → List String) (t : String) :
    ((r.index named).get? t).getD [] = r.entries.flatMap fun x => List.replicate ((named x.2).count t) x.1 := by
  have hone : ∀ (p : String) (ts : List String) (m : PathMap (List String)),
      ((ts.foldl (fun m t => m.insert t ((m.get? t).getD [] ++ [p])) m).get? t).getD []
        = (m.get? t).getD [] ++ List.replicate (ts.count t) p := by
    intro p ts
    induction ts with
    | nil => simp
    | cons u rest ih =>
        intro m
        rw [List.foldl_cons, ih, PathMap.get?_insert]
        by_cases hu : t = u
        · subst hu
          simp [List.replicate_succ, List.append_assoc]
        · simp [hu, List.count_cons_of_ne (Ne.symm hu)]
  have hall : ∀ (l : List (String × List Edge)) (m : PathMap (List String)),
      ((l.foldl (fun m x => (named x.2).foldl (fun m t => m.insert t ((m.get? t).getD [] ++ [x.1])) m) m).get?
          t).getD [] = (m.get? t).getD [] ++ l.flatMap fun x => List.replicate ((named x.2).count t) x.1 := by
    intro l
    induction l with
    | nil => simp
    | cons x rest ih =>
        intro m
        rw [List.foldl_cons, ih, hone, List.flatMap_cons, List.append_assoc]
  exact hall r.entries ∅

/-- The order in which the edges of one node name paths does not matter. -/
theorem getD_index_of_perm {named named' : List Edge → List String} (h : ∀ es, (named es).Perm (named' es))
    (t : String) : ((r.index named).get? t).getD [] = ((r.index named').get? t).getD [] := by
  rw [getD_index, getD_index]
  simp only [(h _).count_eq]

/-- Under a path stand the nodes whose edges name it. -/
theorem mem_getD_index {named : List Edge → List String} {t : String} (hnil : named [] = []) :
    q ∈ ((r.index named).get? t).getD [] ↔ t ∈ named (r.edgesOf q) := by
  rw [getD_index, List.mem_flatMap]
  constructor
  · rintro ⟨x, hx, hq⟩
    obtain ⟨hcount, rfl⟩ := List.mem_replicate.1 hq
    rw [edgesOf_eq_of_mem hx]
    exact List.count_pos_iff.1 (Nat.pos_of_ne_zero hcount)
  · intro ht
    have hq : q ∈ r.nodes := by
      rw [mem_nodes_iff]
      unfold edgesOf at ht
      cases hlookup : r.entries.lookup q with
      | none => rw [hlookup] at ht; simp [hnil] at ht
      | some _ => rfl
    obtain ⟨x, hx, rfl⟩ := List.mem_map.1 hq
    rw [edgesOf_eq_of_mem hx] at ht
    exact ⟨x, hx, List.mem_replicate.2 ⟨Nat.ne_of_gt (List.count_pos_iff.2 ht), rfl⟩⟩

/-- Each of them stands there once, if no node names a path twice. -/
theorem nodup_getD_index {named : List Edge → List String} {t : String} (hnamed : ∀ es, (named es).Nodup) :
    (((r.index named).get? t).getD []).Nodup := by
  rw [getD_index]
  have hsub : (r.entries.flatMap fun x => List.replicate ((named x.2).count t) x.1).Sublist
      (r.entries.map (·.1)) := by
    induction r.entries with
    | nil => simp
    | cons x rest ih =>
        rw [List.flatMap_cons, List.map_cons, ← List.singleton_append]
        have hcount : (named x.2).count t ≤ 1 := List.nodup_iff_count_le_one.1 (hnamed x.2) t
        exact ((List.replicate_sublist_replicate x.1).2 hcount).append ih
  exact r.nodup.sublist hsub

end Roster

end HashedAssets
