import HashedAssets.Graph.Basic
import Mathlib.Tactic.Common

/-!
# Outgoing edges

* `Edge.Sorted`: the outgoing edges of one node, in order and each once; adding edges one after the
  other keeps such a list sorted, and gives it back when it starts from nothing;
* `Graph.WellFormed`: each edge stands under its source, and its target is a node;
* what `addNode`, `addEdge` and `setEdges` do to the outgoing edges of each node.
-/

namespace HashedAssets

/-! ### Edges in order -/

namespace Edge

theorem before_iff {a b : Edge} : a.before b = true ↔
    a.target < b.target ∨ (a.target = b.target ∧ a.kind = .include ∧ b.kind = .reference) := by
  unfold before
  split
  · next h => simp [h]
  · next h => simp [h]

theorem before_irrefl (a : Edge) : ¬ a.before a = true := by
  rw [before_iff]
  rintro (h | ⟨-, h, h'⟩)
  · exact String.lt_irrefl _ h
  · rw [h] at h'; cases h'

theorem before_trans {a b c : Edge} (hab : a.before b = true) (hbc : b.before c = true) :
    a.before c = true := by
  rw [before_iff] at *
  rcases hab with hab | ⟨hab, ha, hb⟩ <;> rcases hbc with hbc | ⟨hbc, hb', hc⟩
  · exact .inl (String.lt_trans hab hbc)
  · exact .inl (hbc ▸ hab)
  · exact .inl (hab ▸ hbc)
  · rw [hb] at hb'; cases hb'

theorem before_asymm {a b : Edge} (hab : a.before b = true) : ¬ b.before a = true :=
  fun hba => before_irrefl a (before_trans hab hba)

/-- Edges of one source are in order one way or the other. -/
theorem before_or_eq_or_before {a b : Edge} (h : a.source = b.source) :
    a.before b = true ∨ a = b ∨ b.before a = true := by
  rw [before_iff, before_iff]
  by_cases ht : a.target = b.target
  · obtain ⟨s, t, k⟩ := a
    obtain ⟨s', t', k'⟩ := b
    simp only at h ht
    subst h ht
    cases k <;> cases k' <;> simp
  · by_cases hlt : a.target < b.target
    · exact .inl (.inl hlt)
    · exact .inr (.inr (.inl (lt_of_not_lt_of_ne hlt ht)))

/-- The outgoing edges of `p`, in order and each once. -/
structure Sorted (p : String) (es : List Edge) : Prop where
  source : ∀ e ∈ es, e.source = p
  order : es.Pairwise fun a b => a.before b = true

theorem Sorted.nil (p : String) : Sorted p [] := ⟨by simp, .nil⟩

theorem Sorted.nodup {p : String} {es : List Edge} (h : Sorted p es) : es.Nodup :=
  List.Pairwise.imp (S := (· ≠ ·)) (fun hab heq => before_irrefl _ (heq ▸ hab)) h.order

theorem mem_insertSorted {e f : Edge} {es : List Edge} :
    f ∈ e.insertSorted es ↔ f = e ∨ f ∈ es := by
  induction es with
  | nil => simp [insertSorted]
  | cons g rest ih =>
      rw [insertSorted]
      split
      · simp
      · simp only [List.mem_cons, ih]
        tauto

@[simp] theorem mem_addTo {e f : Edge} {es : List Edge} : f ∈ addTo es e ↔ f = e ∨ f ∈ es := by
  unfold addTo
  split
  · next h =>
      have : e ∈ es := by simpa using h
      constructor
      · exact .inr
      · rintro (rfl | hf)
        · exact this
        · exact hf
  · exact mem_insertSorted

theorem Sorted.insertSorted {p : String} {e : Edge} {es : List Edge} (he : e.source = p)
    (hes : Sorted p es) (hn : e ∉ es) : Sorted p (e.insertSorted es) := by
  refine ⟨fun f hf => ?_, ?_⟩
  · rcases mem_insertSorted.1 hf with rfl | hf
    · exact he
    · exact hes.source f hf
  · obtain ⟨hs, ho⟩ := hes
    induction es with
    | nil => simp [Edge.insertSorted]
    | cons g rest ih =>
        obtain ⟨hg, hrest⟩ := List.pairwise_cons.1 ho
        rw [Edge.insertSorted]
        split
        · next hb =>
            refine List.pairwise_cons.2 ⟨fun f hf => ?_, ho⟩
            rcases List.mem_cons.1 hf with rfl | hf
            · exact hb
            · exact before_trans hb (hg f hf)
        · next hb =>
            have hge : g.before e = true := by
              rcases before_or_eq_or_before (he.trans (hs g List.mem_cons_self).symm) with h | h | h
              · exact absurd h hb
              · exact absurd (h ▸ List.mem_cons_self) hn
              · exact h
            refine List.pairwise_cons.2 ⟨fun f hf => ?_, ih (fun h => hn (List.mem_cons_of_mem _ h))
              (fun f hf => hs f (List.mem_cons_of_mem _ hf)) hrest⟩
            rcases mem_insertSorted.1 hf with rfl | hf
            · exact hge
            · exact hg f hf

theorem Sorted.addTo {p : String} {e : Edge} {es : List Edge} (he : e.source = p)
    (hes : Sorted p es) : Sorted p (addTo es e) := by
  unfold Edge.addTo
  split
  · exact hes
  · next h => exact hes.insertSorted he (by simpa using h)

theorem Sorted.foldl_addTo {p : String} {fs es : List Edge} (hf : ∀ e ∈ fs, e.source = p)
    (hes : Sorted p es) : Sorted p (fs.foldl Edge.addTo es) := by
  induction fs generalizing es with
  | nil => exact hes
  | cons e rest ih =>
      exact ih (fun f hf' => hf f (List.mem_cons_of_mem _ hf'))
        (hes.addTo (hf e List.mem_cons_self))

@[simp] theorem mem_foldl_addTo {e : Edge} {fs es : List Edge} :
    e ∈ fs.foldl addTo es ↔ e ∈ es ∨ e ∈ fs := by
  induction fs generalizing es with
  | nil => simp
  | cons f rest ih =>
      rw [List.foldl_cons, ih, mem_addTo, List.mem_cons]
      tauto

/-- An edge behind all others goes to the end. -/
theorem addTo_eq_append {e : Edge} {es : List Edge} (h : ∀ f ∈ es, f.before e = true) :
    addTo es e = es ++ [e] := by
  have hn : e ∉ es := fun he => before_irrefl e (h e he)
  unfold addTo
  rw [if_neg (by simpa using hn)]
  clear hn
  induction es with
  | nil => rfl
  | cons f rest ih =>
      rw [insertSorted, if_neg (before_asymm (h f List.mem_cons_self)), List.cons_append,
        ih fun g hg => h g (List.mem_cons_of_mem _ hg)]

theorem foldl_addTo_append {es fs : List Edge}
    (h : (es ++ fs).Pairwise fun a b => a.before b = true) : fs.foldl addTo es = es ++ fs := by
  induction fs generalizing es with
  | nil => simp
  | cons f rest ih =>
      have hf : ∀ g ∈ es, g.before f = true := fun g hg =>
        (List.pairwise_append.1 h).2.2 g hg f List.mem_cons_self
      rw [List.foldl_cons, addTo_eq_append hf, ih (by simpa using h)]
      simp

/-- Sorted edges added one after the other give the same list. -/
theorem Sorted.foldl_addTo_nil {p : String} {es : List Edge} (h : Sorted p es) :
    es.foldl Edge.addTo [] = es := foldl_addTo_append (by simpa using h.order)

@[simp] theorem mem_targets {t : String} {es : List Edge} :
    t ∈ targets es ↔ ∃ e ∈ es, e.target = t := by
  simp [targets]

@[simp] theorem targets_eq_nil {es : List Edge} : targets es = [] ↔ es = [] := by simp [targets]

end Edge

/-! ### Edges of a graph -/

namespace Graph

variable {g : Graph}

@[simp] theorem edgesOf_empty (p : String) : (∅ : Graph).edgesOf p = [] := rfl

theorem hasNode_iff {p : String} : g.hasNode p = true ↔ p ∈ g.nodes := by
  rw [nodes, PathMap.mem_keys]; rfl

theorem mem_nodes_of_mem_edgesOf {p : String} {e : Edge} (h : e ∈ g.edgesOf p) : p ∈ g.nodes := by
  rw [← hasNode_iff, hasNode, PathMap.contains]
  rw [edgesOf] at h
  cases hp : g.edges.get? p with
  | none => simp [hp] at h
  | some _ => rfl

theorem edgesOf_insert (p q : String) (es : List Edge) :
    edgesOf ⟨g.edges.insert p es⟩ q = if q = p then es else g.edgesOf q := by
  unfold edgesOf
  rw [PathMap.get?_insert]
  split <;> rfl

theorem mem_nodes_insert (p q : String) (es : List Edge) :
    q ∈ nodes ⟨g.edges.insert p es⟩ ↔ q = p ∨ q ∈ g.nodes := by
  simp only [nodes, PathMap.mem_keys, PathMap.mem_iff_get?_isSome, PathMap.get?_insert]
  split <;> simp_all

@[simp] theorem edgesOf_addNode (p q : String) : (g.addNode p).edgesOf q = g.edgesOf q := by
  unfold addNode
  split
  · rfl
  · next h =>
      rw [edgesOf_insert]
      split
      · next hq =>
          subst hq
          rw [hasNode, PathMap.contains, Bool.not_eq_true, Option.isSome_eq_false_iff,
            Option.isNone_iff_eq_none] at h
          simp [edgesOf, h]
      · rfl

theorem mem_nodes_addNode (p q : String) : q ∈ (g.addNode p).nodes ↔ q = p ∨ q ∈ g.nodes := by
  unfold addNode
  split
  · next h =>
      have := hasNode_iff.1 h
      constructor
      · exact .inr
      · rintro (rfl | h)
        · exact this
        · exact h
  · exact mem_nodes_insert p q []

theorem edgesOf_addEdge (e : Edge) (q : String) :
    (g.addEdge e).edgesOf q = if q = e.source then Edge.addTo (g.edgesOf q) e else g.edgesOf q := by
  unfold addEdge
  rw [edgesOf_insert]
  split
  · next h => subst h; simp
  · simp

theorem mem_nodes_addEdge (e : Edge) (q : String) :
    q ∈ (g.addEdge e).nodes ↔ q = e.source ∨ q = e.target ∨ q ∈ g.nodes := by
  unfold addEdge
  rw [mem_nodes_insert, mem_nodes_addNode]

theorem edgesOf_foldl_addEdge {p : String} {es : List Edge} (h : ∀ e ∈ es, e.source = p)
    (q : String) :
    (es.foldl addEdge g).edgesOf q
      = if q = p then es.foldl Edge.addTo (g.edgesOf q) else g.edgesOf q := by
  induction es generalizing g with
  | nil => simp
  | cons e rest ih =>
      rw [List.foldl_cons, ih fun f hf => h f (List.mem_cons_of_mem _ hf), edgesOf_addEdge,
        h e List.mem_cons_self]
      split <;> simp

theorem mem_nodes_foldl_addEdge {es : List Edge} {q : String} :
    q ∈ (es.foldl addEdge g).nodes ↔
      q ∈ g.nodes ∨ ∃ e ∈ es, q = e.source ∨ q = e.target := by
  induction es generalizing g with
  | nil => simp
  | cons e rest ih =>
      rw [List.foldl_cons, ih, mem_nodes_addEdge]
      simp only [List.mem_cons, exists_eq_or_imp]
      grind

/-- Setting the edges of a node gives it these edges and leaves those of all others. -/
theorem edgesOf_setEdges {p : String} {es : List Edge} (h : Edge.Sorted p es) (q : String) :
    (g.setEdges p es).edgesOf q = if q = p then es else g.edgesOf q := by
  unfold setEdges
  rw [edgesOf_foldl_addEdge h.source, edgesOf_insert]
  split
  · exact h.foldl_addTo_nil
  · rfl

@[simp] theorem edgesOf_setEdges_nil (p q : String) :
    (g.setEdges p []).edgesOf q = if q = p then [] else g.edgesOf q :=
  edgesOf_setEdges (Edge.Sorted.nil p) q

theorem mem_nodes_setEdges {p q : String} {es : List Edge} :
    q ∈ (g.setEdges p es).nodes ↔
      q = p ∨ q ∈ g.nodes ∨ ∃ e ∈ es, q = e.source ∨ q = e.target := by
  unfold setEdges
  rw [mem_nodes_foldl_addEdge, mem_nodes_insert, or_assoc]

/-- Each edge stands under its source, and its target is a node. -/
structure WellFormed (g : Graph) : Prop where
  source : ∀ p, ∀ e ∈ g.edgesOf p, e.source = p
  target : ∀ p, ∀ e ∈ g.edgesOf p, e.target ∈ g.nodes

theorem WellFormed.empty : WellFormed ∅ := ⟨by simp, by simp⟩

theorem WellFormed.setEdges (hg : g.WellFormed) {p : String} {es : List Edge}
    (hes : Edge.Sorted p es) : (g.setEdges p es).WellFormed := by
  refine ⟨fun q e he => ?_, fun q e he => ?_⟩
  · rw [edgesOf_setEdges hes] at he
    split at he
    · next h => exact h ▸ hes.source e he
    · exact hg.source q e he
  · rw [edgesOf_setEdges hes] at he
    rw [mem_nodes_setEdges]
    split at he
    · exact .inr (.inr ⟨e, he, .inr rfl⟩)
    · exact .inr (.inl (hg.target q e he))

theorem mem_allEdges (hg : g.WellFormed) {e : Edge} : e ∈ g.allEdges ↔ e ∈ g.edgesOf e.source := by
  unfold allEdges PathMap.values
  constructor
  · intro h
    obtain ⟨es, hes, he⟩ := List.mem_flatten.1 h
    obtain ⟨⟨p, es'⟩, hb, rfl⟩ := List.mem_map.1 hes
    have hp : g.edgesOf p = es' := by simp [edgesOf, PathMap.get?_eq_some_iff.2 hb]
    rw [← hp] at he
    rwa [hg.source p e he]
  · intro h
    unfold edgesOf at h
    cases hp : g.edges.get? e.source with
    | none => simp [hp] at h
    | some es =>
        rw [hp] at h
        exact List.mem_flatten.2 ⟨es, List.mem_map.2 ⟨_, PathMap.get?_eq_some_iff.1 hp, rfl⟩, h⟩

end Graph

end HashedAssets
