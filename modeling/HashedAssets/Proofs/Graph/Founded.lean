import HashedAssets.Graph.Order
import HashedAssets.Proofs.Graph.Walk

/-!
# Graphs that can be put in order

A list of paths is *founded* if each of them needs only paths that stand behind it. A graph whose nodes
all stand in such a list has no cycle, and what is to be shown of them can be shown of each in turn.

* `Founded`, `Founded.induction`, `Founded.not_transGen`: founded lists and what they are good for;
* `exists_founded_of_cycles_eq_nil`: a depth-first walk that notes no cycle finishes every node, and the
  finished nodes are founded;
* `founded_reverse_of_order`, `perm_of_order`: the order of evaluation holds each node once, behind all
  its targets;
* `exists_order`: without a cycle there is one.
-/

namespace HashedAssets.Graph

open Relation

variable {g : Graph} {p q : String} {l : List String}

/-! ### Founded lists -/

/-- Each path of the list needs only paths behind it. -/
def Founded (g : Graph) : List String → Prop
  | [] => True
  | p :: rest => (∀ q, g.Adjacent p q → q ∈ rest) ∧ Founded g rest

/-- What holds of a path if it holds of all that the path needs holds of every path of the list. -/
theorem Founded.induction {P : String → Prop} (h : g.Founded l)
    (hstep : ∀ p ∈ l, (∀ q, g.Adjacent p q → P q) → P p) : ∀ p ∈ l, P p := by
  induction l with
  | nil => intro p hp; cases hp
  | cons p rest ih =>
      have hrest := ih h.2 fun q hq => hstep q (List.mem_cons_of_mem _ hq)
      intro q hq
      rcases List.mem_cons.1 hq with rfl | hq
      · exact hstep q List.mem_cons_self fun t ht => hrest t (h.1 t ht)
      · exact hrest q hq

theorem Founded.of_append {l' : List String} (h : g.Founded (l ++ l')) : g.Founded l' := by
  induction l with
  | nil => exact h
  | cons p rest ih => exact ih h.2

theorem Founded.mem_of_adjacent (h : g.Founded l) (hp : p ∈ l) (hpq : g.Adjacent p q) : q ∈ l := by
  induction l with
  | nil => cases hp
  | cons r rest ih =>
      rcases List.mem_cons.1 hp with rfl | hp
      · exact List.mem_cons_of_mem _ (h.1 q hpq)
      · exact List.mem_cons_of_mem _ (ih h.2 hp)

theorem Founded.mem_of_reflTransGen (h : g.Founded l) (hp : p ∈ l)
    (hpq : ReflTransGen g.Adjacent p q) : q ∈ l :=
  Graph.mem_of_reflTransGen (fun _ ha _ hab => h.mem_of_adjacent ha hab) hp hpq

/-- No path of the list is on a cycle: the next one on it would be on it too. -/
theorem Founded.not_transGen (h : g.Founded l) : ∀ p ∈ l, ¬ TransGen g.Adjacent p p :=
  h.induction fun _ _ ih hcycle => by
    obtain ⟨q, hpq, hqp⟩ := TransGen.head'_iff.1 hcycle
    exact ih q hpq (.tail' hqp hpq)

/-! ### A walk that notes no cycle -/

theorem founded_of_suffix (h : ∀ p rest, p :: rest <:+ l → ∀ q, g.Adjacent p q → q ∈ rest) : g.Founded l := by
  induction l with
  | nil => trivial
  | cons p rest ih =>
      refine ⟨h p rest (List.suffix_refl _), ih fun q rest' hsuffix => h q rest' ?_⟩
      exact hsuffix.trans (List.suffix_cons p rest)

/-- A walk that notes no cycle finishes every node, each behind all that it needs. -/
theorem exists_founded_of_cycles_eq_nil (hg : g.WellFormed) (h : g.cycles = []) :
    ∃ l, g.Founded l ∧ ∀ p ∈ g.nodes, p ∈ l := by
  obtain ⟨hsound, hall⟩ := sound_walked hg
  have hnil : g.walked.cycles = [] := List.reverse_eq_nil_iff.1 h
  refine ⟨g.walked.finished, founded_of_suffix fun p earlier hsuffix q hq => ?_, hall⟩
  rcases hsound.before p earlier hsuffix q hq with hmem | ⟨c, hc, -⟩
  · exact hmem
  · rw [hnil] at hc
    cases hc

/-! ### Placing nodes -/

/-- The nodes of a list are not placed yet, and each waits for those of its targets that are not. -/
structure Waits (g : Graph) (done : List String) (ws : List Waiting) : Prop where
  nodup : (ws.map (·.1)).Nodup
  targets : ∀ w ∈ ws, ∀ t, t ∈ w.2 ↔ g.Adjacent w.1 t ∧ t ∉ done

theorem map_waiting (g : Graph) : g.waiting.map (·.1) = g.nodes := by
  simp [waiting, Function.comp_def]

theorem waits_waiting (g : Graph) : g.Waits [] g.waiting where
  nodup := by
    rw [map_waiting]
    exact g.edges.pairwise_keys.imp String.ne_of_lt
  targets w hw t := by
    obtain ⟨p, -, rfl⟩ := List.mem_map.1 hw
    simp [Adjacent]

theorem map_settle (ws : List Waiting) (p : String) :
    (settle p ws).map (·.1) = (ws.map (·.1)).filter (· != p) := by
  rw [settle, List.map_map, List.filter_map]
  rfl

theorem Waits.settle {done : List String} {ws : List Waiting} (h : g.Waits done ws) (p : String) :
    g.Waits (p :: done) (Graph.settle p ws) where
  nodup := map_settle ws p ▸ h.nodup.filter _
  targets w hw t := by
    obtain ⟨v, hv, rfl⟩ := List.mem_map.1 hw
    have hvt := h.targets v (List.mem_filter.1 hv).1 t
    simp only [List.mem_filter, hvt, bne_iff_ne, ne_eq, List.mem_cons, not_or]
    tauto

theorem place_of_none {ws : List Waiting} (h : ws.find? (·.2.isEmpty) = none) :
    place ws = ([], ws.map (·.1)) := by
  rw [place]
  split
  · rfl
  · next hsome => rw [h] at hsome; cases hsome

theorem place_of_some {ws : List Waiting} {w : Waiting} (h : ws.find? (·.2.isEmpty) = some w) :
    place ws = (w.1 :: (place (settle w.1 ws)).1, (place (settle w.1 ws)).2) := by
  rw [place]
  split
  · next hnone => rw [h] at hnone; cases hnone
  · next w' hsome => rw [h] at hsome; cases hsome; rfl

/-- The nodes that are placed are founded when they are read backwards, and each that is left over waits
for one that is not placed. -/
theorem Waits.place {done : List String} {ws : List Waiting} (h : g.Waits done ws)
    (hdone : g.Founded done) : g.Founded ((place ws).1.reverse ++ done) ∧
      ((place ws).1 ++ (place ws).2).Perm (ws.map (·.1)) ∧
      ∀ p ∈ (place ws).2, ∃ t, g.Adjacent p t ∧ t ∉ (place ws).1.reverse ++ done := by
  -- along the recursion of `place`: one that waits for nothing is placed, the others wait for it no more
  induction ws using place.induct generalizing done with
  | case1 ws hnone =>
      rw [place_of_none hnone]
      refine ⟨hdone, .refl _, fun p hp => ?_⟩
      obtain ⟨w, hw, rfl⟩ := List.mem_map.1 hp
      have hne : w.2 ≠ [] := by simpa using List.find?_eq_none.1 hnone w hw
      obtain ⟨t, ht⟩ := List.exists_mem_of_ne_nil _ hne
      exact ⟨t, (h.targets w hw t).1 ht⟩
  | case2 ws w hsome placed left hrest ih =>
      have hw : w ∈ ws := List.mem_of_find?_eq_some hsome
      have hplace : Graph.place ws = (w.1 :: placed, left) := by rw [place_of_some hsome, hrest]
      have hempty : w.2 = [] := by simpa using List.find?_some hsome
      have hready : ∀ t, g.Adjacent w.1 t → t ∈ done := fun t ht => by
        by_contra hn
        have := (h.targets w hw t).2 ⟨ht, hn⟩
        rw [hempty] at this
        cases this
      have hrec := ih (h.settle w.1) ⟨hready, hdone⟩
      rw [hrest] at hrec
      rw [hplace]
      obtain ⟨hfounded, hperm, hstuck⟩ := hrec
      have hlist : (w.1 :: placed).reverse ++ done = placed.reverse ++ w.1 :: done := by simp
      refine ⟨hlist ▸ hfounded, ?_, hlist ▸ hstuck⟩
      have hmem : w.1 ∈ ws.map (·.1) := List.mem_map.2 ⟨w, hw, rfl⟩
      rw [map_settle, ← h.nodup.erase_eq_filter] at hperm
      exact (hperm.cons w.1).trans (List.perm_cons_erase hmem).symm

/-! ### The order of evaluation -/

variable {order : List String}

theorem place_of_order (h : g.order = .ok order) : place g.waiting = (order, []) := by
  unfold Graph.order at h
  split at h
  · next placed heq => cases h; exact heq
  · cases h

/-- Each node stands behind all its targets. -/
theorem founded_reverse_of_order (h : g.order = .ok order) : g.Founded order.reverse := by
  have hplace := (g.waits_waiting.place trivial).1
  rwa [place_of_order h, List.append_nil] at hplace

/-- The order holds each node once. -/
theorem perm_of_order (h : g.order = .ok order) : order.Perm g.nodes := by
  have hplace := (g.waits_waiting.place trivial).2.1
  rwa [place_of_order h, List.append_nil, map_waiting] at hplace

/-- Without a cycle every node can be placed: of those left over, the last one in a founded list would
wait for none. -/
theorem exists_order (hg : g.WellFormed) (h : g.cycles = []) : ∃ order, g.order = .ok order := by
  obtain ⟨l, hfounded, hall⟩ := exists_founded_of_cycles_eq_nil hg h
  obtain ⟨-, hperm, hstuck⟩ := g.waits_waiting.place trivial
  rw [map_waiting] at hperm
  have hnone : ∀ p ∈ l, p ∉ (place g.waiting).2 := hfounded.induction fun p _ ih hp => by
    obtain ⟨t, ht, hn⟩ := hstuck p hp
    obtain ⟨e, he, rfl⟩ := adjacent_iff.1 ht
    have hmem := hperm.mem_iff.2 (hg.target p e he)
    rw [List.append_nil, List.mem_reverse] at hn
    exact ih _ ht ((List.mem_append.1 hmem).resolve_left hn)
  have hleft : (place g.waiting).2 = [] := List.eq_nil_iff_forall_not_mem.2 fun p hp =>
    hnone p (hall p (hperm.mem_iff.1 (List.mem_append_right _ hp))) hp
  unfold Graph.order
  split
  · next placed _ => exact ⟨placed, rfl⟩
  · next hne heq => rw [heq] at hleft; exact absurd hleft (by simpa using hne)

end HashedAssets.Graph
