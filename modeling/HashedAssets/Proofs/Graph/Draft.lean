import HashedAssets.Graph.Build
import HashedAssets.Proofs.Graph.Agree

/-!
# Drafts

A draft takes in one asset after the other. What it holds then is told by the assets, each by itself.

* `mem_edgesFor`, `sorted_edgesFor`: the edges of one asset, from its directives;
* `Graph.edgesIn`, `Graph.faultsIn`: what one asset brings into a draft;
* `Graph.additions`, `Graph.graph_draft`: the graph of a draft grows by adding nodes and edges, so that it is known
  by these; `Graph.edgesOf_draft`, `Graph.mem_nodes_draft`: its edges and nodes;
* `Graph.faults_draft`, `Graph.get?_directives_draft`: the faults and the directives of a draft;
* `Graph.draft_of_build`, `Graph.build_eq_ok`, `Graph.nodes_of_build`, `Graph.wellFormed_of_build`: a graph that was built
  is that of a draft without faults and without cycles.
-/

namespace HashedAssets

variable {r : Registered} {p q : String} {a : RawAsset} {e : Edge}

/-! ### Edges of an asset -/

theorem mem_edgesFor {ds : List Directive} : e ∈ (edgesFor r p ds).1 ↔ ∃ d ∈ ds, d.edge? r p = some e := by
  simp [edgesFor]

theorem source_of_edge? {d : Directive} (h : d.edge? r p = some e) : e.source = p := by
  unfold Directive.edge? at h
  split at h
  · split at h
    · cases h; rfl
    · cases h
  · cases h

theorem isRegistered_of_edge? {d : Directive} (h : d.edge? r p = some e) : r.isRegistered e.target = true := by
  unfold Directive.edge? at h
  split at h
  · split at h
    · next hedge => cases h; exact (Bool.and_eq_true_iff.1 hedge).1
    · cases h
  · cases h

theorem sorted_edgesFor (r : Registered) (p : String) (ds : List Directive) :
    Edge.Sorted p (edgesFor r p ds).1 := by
  refine (Edge.Sorted.nil p).foldl_addTo fun e he => ?_
  obtain ⟨d, -, hd⟩ := List.mem_filterMap.1 he
  exact source_of_edge? hd

namespace Graph

/-! ### What one asset brings -/

/-- The edges that an asset brings into a draft: those of its directives, or none if these cannot be read. -/
def edgesIn (r : Registered) (p : String) (a : RawAsset) : List Edge :=
  match a.directives p with
  | .error _ => []
  | .ok ds => (edgesFor r p ds).1

/-- The faults that an asset brings into a draft. -/
def faultsIn (r : Registered) (p : String) (a : RawAsset) : List Fault :=
  match a.directives p with
  | .error f => [f]
  | .ok ds => (edgesFor r p ds).2

theorem mem_edgesIn : e ∈ edgesIn r p a ↔
    ∃ ds, a.directives p = .ok ds ∧ ∃ d ∈ ds, d.edge? r p = some e := by
  unfold edgesIn
  cases a.directives p with
  | error f => simp
  | ok ds => simp only [mem_edgesFor, Except.ok.injEq, exists_eq_left']

theorem sorted_edgesIn (r : Registered) (p : String) (a : RawAsset) : Edge.Sorted p (edgesIn r p a) := by
  unfold edgesIn
  split
  · exact .nil p
  · exact sorted_edgesFor r p _

/-- An asset brings no fault if its directives can be read and all that they name is registered. -/
theorem faultsIn_eq_nil_iff : faultsIn r p a = [] ↔
    ∃ ds, a.directives p = .ok ds ∧ (edgesFor r p ds).2 = [] := by
  unfold faultsIn
  cases a.directives p with
  | error f => simp
  | ok ds => simp only [Except.ok.injEq, exists_eq_left']

namespace Draft

variable (d : Draft)

theorem graph_add : (d.add r p a).graph = (edgesIn r p a).foldl addEdge (d.graph.addNode p) := by
  unfold add edgesIn
  cases a.directives p <;> rfl

theorem faults_add : (d.add r p a).faults = d.faults ++ faultsIn r p a := by
  unfold add faultsIn
  cases a.directives p <;> rfl

theorem get?_directives_add : (d.add r p a).directives.get? q =
    if q = p then ((a.directives p).toOption).or (d.directives.get? q) else d.directives.get? q := by
  unfold add
  cases a.directives p with
  | error f => simp [Except.toOption]
  | ok ds => simp only [PathMap.get?_insert, Except.toOption, Option.some_or]

end Draft

/-! ### The graph of a draft -/

/-- What is added to the graph of a draft, in order. -/
def additions (r : Registered) (assets : PathMap RawAsset) : List Roster.Addition :=
  assets.bindings.flatMap fun y => .node y.1 :: (edgesIn r y.1 y.2).map .edge

theorem foldl_edge (g : Graph) (es : List Edge) :
    ((es.map Roster.Addition.edge).map Roster.Addition.change).foldl Change.apply g = es.foldl addEdge g := by
  rw [List.map_map, List.foldl_map]
  rfl

/-- The graph of a draft grows by adding nodes and edges. -/
theorem graph_draft (r : Registered) (assets : PathMap RawAsset) :
    (draft r assets).graph = (Roster.added (additions r assets)).sorted := by
  have hall : ∀ (l : List (String × RawAsset)) (d : Draft), (l.foldl (fun d x => d.add r x.1 x.2) d).graph =
      ((l.flatMap fun y => .node y.1 :: (edgesIn r y.1 y.2).map .edge).map Roster.Addition.change).foldl
        Change.apply d.graph := by
    intro l
    induction l with
    | nil => exact fun d => rfl
    | cons y rest ih =>
        intro d
        rw [List.foldl_cons, ih, Draft.graph_add, List.flatMap_cons, List.map_append, List.foldl_append,
          List.map_cons, List.foldl_cons, foldl_edge]
        rfl
  rw [Roster.added, Roster.sorted_built]
  exact hall assets.bindings ⟨∅, ∅, []⟩

variable {assets : PathMap RawAsset}

theorem wellFormed_draft (r : Registered) (assets : PathMap RawAsset) : (draft r assets).graph.WellFormed := by
  rw [graph_draft, Roster.added, Roster.sorted_built]
  exact wellFormed_built _

theorem edge_mem_additions : .edge e ∈ additions r assets ↔
    ∃ p a, assets.get? p = some a ∧ e ∈ edgesIn r p a := by
  simp only [additions, List.mem_flatMap, List.mem_cons, reduceCtorEq, false_or, List.mem_map,
    Roster.Addition.edge.injEq, exists_eq_right, Prod.exists, PathMap.get?_eq_some_iff]

theorem node_mem_additions : .node p ∈ additions r assets ↔ p ∈ assets := by
  simp only [additions, List.mem_flatMap, List.mem_cons, List.mem_map, reduceCtorEq, and_false, exists_false,
    or_false, Roster.Addition.node.injEq, Prod.exists, ← PathMap.get?_eq_some_iff, exists_and_right,
    exists_eq_right', PathMap.mem_iff_get?_isSome, Option.isSome_iff_exists]

/-- The edges of an asset in a draft are those that it brings. -/
theorem mem_edgesOf_draft : e ∈ (draft r assets).graph.edgesOf p ↔
    ∃ a, assets.get? p = some a ∧ e ∈ edgesIn r p a := by
  rw [graph_draft, Roster.edgesOf_sorted, Roster.mem_edgesOf_added, edge_mem_additions]
  constructor
  · rintro ⟨rfl, q, a, ha, he⟩
    rw [(sorted_edgesIn r q a).source e he]
    exact ⟨a, ha, he⟩
  · rintro ⟨a, ha, he⟩
    exact ⟨(sorted_edgesIn r p a).source e he, p, a, ha, he⟩

theorem sorted_edgesOf_draft (r : Registered) (assets : PathMap RawAsset) (p : String) :
    Edge.Sorted p ((draft r assets).graph.edgesOf p) := by
  rw [graph_draft, Roster.edgesOf_sorted]
  exact (Roster.ordered_built _).edges p

theorem edgesOf_draft : (draft r assets).graph.edgesOf p = ((assets.get? p).map (edgesIn r p)).getD [] := by
  cases ha : assets.get? p with
  | none =>
      refine List.eq_nil_iff_forall_not_mem.2 fun e he => ?_
      obtain ⟨a, ha', -⟩ := mem_edgesOf_draft.1 he
      rw [ha] at ha'
      cases ha'
  | some a =>
      refine (sorted_edgesOf_draft r assets p).eq_of_mem_iff (sorted_edgesIn r p a) fun e => ?_
      rw [mem_edgesOf_draft, ha, Option.map_some, Option.getD_some]
      simp only [Option.some.injEq, exists_eq_left']

/-- The nodes are the assets, and what their edges lead to. -/
theorem mem_nodes_draft : q ∈ (draft r assets).graph.nodes ↔
    q ∈ assets ∨ ∃ p a, assets.get? p = some a ∧ ∃ e ∈ edgesIn r p a, e.target = q := by
  rw [graph_draft, Roster.mem_nodes_sorted, Roster.mem_nodes_added]
  constructor
  · rintro ⟨⟨p⟩ | ⟨e⟩, hmem, hq⟩
    · obtain rfl : q = p := by simpa [Roster.Addition.names] using hq
      exact .inl (node_mem_additions.1 hmem)
    · obtain ⟨p, a, ha, he⟩ := edge_mem_additions.1 hmem
      have hends : q = e.target ∨ q = e.source := by simpa [Roster.Addition.names] using hq
      rcases hends with rfl | rfl
      · exact .inr ⟨p, a, ha, e, he, rfl⟩
      · rw [(sorted_edgesIn r p a).source e he, PathMap.mem_iff_get?_isSome, ha]
        exact .inl rfl
  · rintro (hq | ⟨p, a, ha, e, he, rfl⟩)
    · exact ⟨.node q, node_mem_additions.2 hq, by simp [Roster.Addition.names]⟩
    · exact ⟨.edge e, edge_mem_additions.2 ⟨p, a, ha, he⟩, by simp [Roster.Addition.names]⟩

/-! ### Faults and directives -/

/-- The faults of a draft are those of its assets, in ascending order of the paths. -/
theorem faults_draft (r : Registered) (assets : PathMap RawAsset) :
    (draft r assets).faults = assets.bindings.flatMap fun y => faultsIn r y.1 y.2 := by
  have hall : ∀ (l : List (String × RawAsset)) (d : Draft), (l.foldl (fun d x => d.add r x.1 x.2) d).faults =
      d.faults ++ l.flatMap fun y => faultsIn r y.1 y.2 := by
    intro l
    induction l with
    | nil => simp
    | cons y rest ih =>
        intro d
        rw [List.foldl_cons, ih, Draft.faults_add, List.flatMap_cons, List.append_assoc]
  exact hall assets.bindings ⟨∅, ∅, []⟩

theorem faults_draft_eq_nil_iff : (draft r assets).faults = [] ↔
    ∀ p a, assets.get? p = some a → ∃ ds, a.directives p = .ok ds ∧ (edgesFor r p ds).2 = [] := by
  simp only [faults_draft, List.flatMap_eq_nil_iff, Prod.forall, ← PathMap.get?_eq_some_iff, faultsIn_eq_nil_iff]

/-- A draft holds the directives of each asset whose directives can be read. -/
theorem get?_directives_draft (r : Registered) (assets : PathMap RawAsset) (p : String) :
    (draft r assets).directives.get? p = (assets.get? p).bind fun a => (a.directives p).toOption := by
  have hall : ∀ (l : List (String × RawAsset)) (d : Draft), (l.map (·.1)).Nodup →
      (l.foldl (fun d x => d.add r x.1 x.2) d).directives.get? p =
        ((l.lookup p).bind fun a => (a.directives p).toOption).or (d.directives.get? p) := by
    intro l
    induction l with
    | nil => exact fun d _ => rfl
    | cons y rest ih =>
        intro d hnodup
        obtain ⟨hy, hrest⟩ := List.nodup_cons.1 hnodup
        rw [List.foldl_cons, ih _ hrest, Draft.get?_directives_add, PathMap.lookup_cons_ite]
        split
        · next hp =>
            have hnone : rest.lookup p = none := by
              rw [← Option.not_isSome_iff_eq_none, PathMap.mem_keys_of_lookup, hp]
              exact hy
            rw [hnone, hp]
            rfl
        · rfl
  exact (hall assets.bindings ⟨∅, ∅, []⟩ (assets.pairwise_keys.imp String.ne_of_lt)).trans (Option.or_none)

/-! ### Graphs that were built -/

section Build

variable {g : Graph} {directives : PathMap (List Directive)}

/-- A graph that was built is that of a draft without faults, and has no cycle. -/
theorem draft_of_build (h : build r assets = .ok (g, directives)) :
    draft r assets = ⟨g, directives, []⟩ ∧ g.cycles = [] := by
  unfold build at h
  dsimp only at h
  split at h
  · next hnil =>
      obtain ⟨hfaults, hcycles⟩ := List.append_eq_nil_iff.1 hnil
      cases h
      exact ⟨by rw [← hfaults], List.map_eq_nil_iff.1 hcycles⟩
  · cases h

theorem cycles_of_build (h : build r assets = .ok (g, directives)) : g.cycles = [] :=
  (draft_of_build h).2

theorem wellFormed_of_build (h : build r assets = .ok (g, directives)) : g.WellFormed := by
  have hg := wellFormed_draft r assets
  rwa [(draft_of_build h).1] at hg

/-- What a graph that was built says of each asset. -/
theorem build_eq_ok (h : build r assets = .ok (g, directives)) (ha : assets.get? p = some a) :
    ∃ ds, a.directives p = .ok ds ∧ (edgesFor r p ds).2 = [] ∧ directives.get? p = some ds ∧
      g.edgesOf p = (edgesFor r p ds).1 ∧ p ∈ g.nodes := by
  have hdraft := (draft_of_build h).1
  obtain ⟨ds, hds, hf⟩ := faults_draft_eq_nil_iff.1 (congrArg Draft.faults hdraft) p a ha
  have hdirectives := get?_directives_draft r assets p
  have hedges : (draft r assets).graph.edgesOf p = _ := edgesOf_draft
  have hnode : p ∈ (draft r assets).graph.nodes :=
    mem_nodes_draft.2 (.inl (PathMap.mem_iff_get?_isSome.2 (by rw [ha]; rfl)))
  rw [hdraft] at hdirectives hedges hnode
  simp only [ha, Option.bind_some, hds, Except.toOption] at hdirectives
  simp only [ha, Option.map_some, Option.getD_some, edgesIn, hds] at hedges
  exact ⟨ds, hds, hf, hdirectives, hedges, hnode⟩

/-- The nodes of the graph are the assets, if only assets are registered. -/
theorem nodes_of_build (h : build r assets = .ok (g, directives))
    (hr : ∀ q, r.isRegistered q = true → q ∈ assets) : g.nodes = assets.keys := by
  refine List.Pairwise.eq_of_mem_iff g.edges.pairwise_keys assets.pairwise_keys fun q => ?_
  have hnodes : q ∈ (draft r assets).graph.nodes ↔ _ := mem_nodes_draft
  rw [(draft_of_build h).1] at hnodes
  rw [PathMap.mem_keys, hnodes]
  refine or_iff_left_of_imp ?_
  rintro ⟨p, a, -, e, he, rfl⟩
  obtain ⟨ds, -, d, -, hd⟩ := mem_edgesIn.1 he
  exact hr _ (isRegistered_of_edge? hd)

end Build

end Graph

end HashedAssets
