import HashedAssets.Proofs.Graph.Chase
import HashedAssets.Proofs.Graph.Counting
import HashedAssets.Proofs.Graph.Sweeps

/-!
# Rosters that grow in different orders

What a roster answers is what its graph answers, and its graph is known by the nodes and the edges. So it does not
matter in which order nodes and edges are added, and how often.

* `Edge.Sorted.eq_of_mem_iff`, `sorted_eq_of_mem_iff`: edges that are in order are known by what they are, and so is the
  graph of a roster;
* `Addition`, `added`, `mem_nodes_added`, `mem_edgesOf_added`: nodes and edges that are added, and what is there then;
* `Agree`, `Ordered.agree`: rosters that answer alike, and when they do;
* `ordered_and_agree`: the edges in a roster that was built are in order, and rosters to which the same was added agree.
-/

namespace HashedAssets

/-! ### Known by the edges -/

namespace Edge

instance : Std.Irrefl fun a b : Edge => a.before b = true := ⟨before_irrefl⟩

instance : Std.Antisymm fun a b : Edge => a.before b = true := ⟨fun _ _ hab hba => absurd hba (before_asymm hab)⟩

theorem Sorted.eq_of_mem_iff {p : String} {es fs : List Edge} (hes : Sorted p es) (hfs : Sorted p fs)
    (h : ∀ e, e ∈ es ↔ e ∈ fs) : es = fs :=
  List.Pairwise.eq_of_mem_iff hes.order hfs.order h

end Edge

/-- All edges are those of each node in turn. -/
theorem Graph.allEdges_eq_flatMap (g : Graph) : g.allEdges = g.nodes.flatMap g.edgesOf := by
  rw [allEdges, nodes, PathMap.keys, List.flatMap_map, PathMap.values, ← List.flatMap_def]
  refine List.flatMap_congr fun x hx => ?_
  rw [edgesOf, PathMap.get?_eq_some_iff.2 hx, Option.getD_some]

namespace Roster

variable {r r' : Roster} {p : String} {e : Edge}

theorem lookup_eq_some (hp : p ∈ r.nodes) : r.entries.lookup p = some (r.edgesOf p) := by
  obtain ⟨es, hes⟩ := Option.isSome_iff_exists.1 (mem_nodes_iff.1 hp)
  rw [edgesOf, hes, Option.getD_some]

/-- Two rosters with the same nodes and edges have one graph. -/
theorem sorted_eq_of_mem_iff (h : r.Ordered) (h' : r'.Ordered) (hnodes : ∀ p, p ∈ r.nodes ↔ p ∈ r'.nodes)
    (hedges : ∀ p e, e ∈ r.edgesOf p ↔ e ∈ r'.edgesOf p) : r.sorted = r'.sorted := by
  have hbindings : r.sorted.edges = r'.sorted.edges := by
    refine PathMap.ext_get? fun p => ?_
    rw [get?_sorted, get?_sorted]
    by_cases hp : p ∈ r.nodes
    · rw [lookup_eq_some hp, lookup_eq_some ((hnodes p).1 hp), (h.edges p).eq_of_mem_iff (h'.edges p) (hedges p)]
    · have hp' : p ∉ r'.nodes := fun hp' => hp ((hnodes p).2 hp')
      rw [mem_nodes_iff, Option.not_isSome_iff_eq_none] at hp hp'
      rw [hp, hp']
  exact congrArg Graph.mk hbindings

/-! ### What is read off node by node -/

theorem edgesTo_sorted (r : Roster) (p : String) : r.sorted.edgesTo p = r.edgesTo p := by
  have hedges : r.sorted.edgesOf = r.edgesOf := funext r.edgesOf_sorted
  rw [Graph.edgesTo, Graph.allEdges_eq_flatMap, nodes_sorted, hedges, edgesTo]

theorem dump_sorted (r : Roster) : r.sorted.nodes.map (fun p => (p, r.sorted.edgesOf p)) = r.dump := by
  simp only [nodes_sorted, edgesOf_sorted, dump]

/-! ### Additions -/

/-- A node or an edge to be added. -/
inductive Addition
  | node (p : String)
  | edge (e : Edge)

/-- The change that is made. -/
def Addition.change : Addition → Graph.Change
  | .node p => .addNode p
  | .edge e => .addEdge e

/-- The nodes that come with it: an edge brings its ends. -/
def Addition.names : Addition → List String
  | .node p => [p]
  | .edge e => [e.target, e.source]

/-- The roster that comes of additions, one after the other, where there was nothing. -/
def added (as : List Addition) : Roster := built (as.map Addition.change)

theorem mem_nodes_change (a : Addition) : p ∈ (r.apply a.change).nodes ↔ p ∈ a.names ∨ p ∈ r.nodes := by
  rw [← mem_nodes_sorted, ← mem_nodes_sorted, sorted_apply]
  cases a with
  | node q => simp [Addition.change, Addition.names, Graph.Change.apply, Graph.mem_nodes_addNode]
  | edge f =>
      simp only [Addition.change, Addition.names, Graph.Change.apply, Graph.mem_nodes_addEdge, List.mem_cons,
        List.not_mem_nil, or_false]
      tauto

theorem mem_edgesOf_change (a : Addition) :
    e ∈ (r.apply a.change).edgesOf p ↔ (e.source = p ∧ a = .edge e) ∨ e ∈ r.edgesOf p := by
  rw [← edgesOf_sorted, ← edgesOf_sorted, sorted_apply]
  cases a with
  | node q => simp [Addition.change, Graph.Change.apply]
  | edge f =>
      simp only [Addition.change, Graph.Change.apply, Graph.edgesOf_addEdge, Addition.edge.injEq]
      split
      · next hp =>
          rw [Edge.mem_addTo]
          refine or_congr_left ⟨?_, fun h => h.2.symm⟩
          rintro rfl
          exact ⟨hp.symm, rfl⟩
      · next hp =>
          refine (or_iff_right ?_).symm
          rintro ⟨hsource, rfl⟩
          exact hp hsource.symm

/-- The nodes are those that were added, by themselves or as ends of edges. -/
theorem mem_nodes_added {as : List Addition} : p ∈ (added as).nodes ↔ ∃ a ∈ as, p ∈ a.names := by
  have hall : ∀ r : Roster, p ∈ ((as.map Addition.change).foldl apply r).nodes ↔
      (∃ a ∈ as, p ∈ a.names) ∨ p ∈ r.nodes := by
    induction as with
    | nil => simp
    | cons a rest ih =>
        intro r
        rw [List.map_cons, List.foldl_cons, ih, mem_nodes_change, List.exists_mem_cons_iff, or_assoc, or_left_comm]
  exact (hall ∅).trans (or_iff_left List.not_mem_nil)

/-- The edges of a node are those that were added and have it as their source. -/
theorem mem_edgesOf_added {as : List Addition} :
    e ∈ (added as).edgesOf p ↔ e.source = p ∧ .edge e ∈ as := by
  have hall : ∀ r : Roster, e ∈ ((as.map Addition.change).foldl apply r).edgesOf p ↔
      (e.source = p ∧ .edge e ∈ as) ∨ e ∈ r.edgesOf p := by
    induction as with
    | nil => simp
    | cons a rest ih =>
        intro r
        rw [List.map_cons, List.foldl_cons, ih, mem_edgesOf_change, List.mem_cons, eq_comm (a := a)]
        tauto
  exact (hall ∅).trans (or_iff_left List.not_mem_nil)

/-- Two lists of additions bring the same nodes and the same edges. -/
structure BringsSame (as bs : List Addition) : Prop where
  names : ∀ p, (∃ a ∈ as, p ∈ a.names) ↔ ∃ b ∈ bs, p ∈ b.names
  edge : ∀ e, .edge e ∈ as ↔ .edge e ∈ bs

theorem BringsSame.sorted_added {as bs : List Addition} (h : BringsSame as bs) :
    (added as).sorted = (added bs).sorted := by
  refine sorted_eq_of_mem_iff (ordered_built _) (ordered_built _) (fun p => ?_) fun p e => ?_
  · rw [mem_nodes_added, mem_nodes_added, h.names]
  · rw [mem_edgesOf_added, mem_edgesOf_added, h.edge]

/-! ### Rosters that answer alike -/

/-- Two rosters answer every question alike. -/
structure Agree (r r' : Roster) : Prop where
  edgesOf : ∀ p, r.edgesOf p = r'.edgesOf p
  edgesTo : ∀ p, r.edgesTo p = r'.edgesTo p
  closure : ∀ p, r.closure p = r'.closure p
  dependentsBy : ∀ keep p, r.dependentsBy keep p = r'.dependentsBy keep p
  cycleThrough? : ∀ p, r.cycleThrough? p = r'.cycleThrough? p
  cycles : r.cycles = r'.cycles
  order : r.order = r'.order
  dump : r.dump = r'.dump

/-- What a roster answers is what its graph answers. -/
theorem Ordered.agree (h : r.Ordered) (h' : r'.Ordered) (hsorted : r.sorted = r'.sorted) : Agree r r' where
  edgesOf p := by rw [← edgesOf_sorted, hsorted, edgesOf_sorted]
  edgesTo p := by rw [← edgesTo_sorted, hsorted, edgesTo_sorted]
  closure p := by rw [← closure_sorted, hsorted, closure_sorted]
  dependentsBy keep p := by rw [← h.dependentsBy_sorted, hsorted, h'.dependentsBy_sorted]
  cycleThrough? p := by rw [← cycleThrough?_sorted, hsorted, cycleThrough?_sorted]
  cycles := congrArg Graph.cycles hsorted
  order := by rw [← h.order_sorted, hsorted, h'.order_sorted]
  dump := by rw [← dump_sorted, hsorted, dump_sorted]

/-- Whatever changes are made, the edges of each node are its own, in order and each once, and their targets are nodes.
What was added is there, and nothing else; and rosters to which the same nodes and edges were added, in any order and any
number of times, answer every question alike. -/
theorem ordered_and_agree :
    (∀ changes, (built changes).Ordered) ∧
      (∀ as p, p ∈ (added as).nodes ↔ ∃ a ∈ as, p ∈ a.names) ∧
      (∀ as p e, e ∈ (added as).edgesOf p ↔ e.source = p ∧ .edge e ∈ as) ∧
      ∀ as bs, BringsSame as bs → Agree (added as) (added bs) := by
  refine ⟨ordered_built, fun as p => mem_nodes_added, fun as p e => mem_edgesOf_added, fun as bs h => ?_⟩
  exact (ordered_built _).agree (ordered_built _) h.sorted_added

/-- The nodes come in another order, and an edge comes twice. -/
theorem agree_though_nodes_differ :
    (added [.node "a", .edge ⟨"b", "a", .include⟩]).nodes
        ≠ (added [.node "b", .edge ⟨"b", "a", .include⟩, .edge ⟨"b", "a", .include⟩]).nodes ∧
      Agree (added [.node "a", .edge ⟨"b", "a", .include⟩])
        (added [.node "b", .edge ⟨"b", "a", .include⟩, .edge ⟨"b", "a", .include⟩]) :=
  ⟨by decide +kernel, ordered_and_agree.2.2.2 _ _ ⟨by simp [Addition.names], by simp⟩⟩

end Roster

end HashedAssets
