import HashedAssets.Proofs.Graph.Cycles

/-!
# The least order of evaluation

Nodes are placed one after another. A list of placed nodes is *greedy* if each was, when it was placed, the
smallest of those that were ready. Of all orders of evaluation the greedy one is the least.

* `Ready`, `Greedy`: what can be placed next, and lists that were made by placing the smallest each time;
* `IsOrder`, `Greedy.least`: orders of evaluation, and the least of them;
* `acyclic_of_isOrder`, `mem_of_stuck`: with a cycle there is none, and without one every node can be placed;
* `greedy_of_order`: the order of a graph is greedy.
-/

namespace HashedAssets.Graph

open Relation

variable {g : Graph} {p q : String} {l l' placed before after order other : List String}

/-! ### Placing the smallest -/

/-- A node that is not placed, and all its targets are. -/
structure Ready (g : Graph) (placed : List String) (p : String) : Prop where
  node : p ∈ g.nodes
  unplaced : p ∉ placed
  targets : ∀ q, g.Adjacent p q → q ∈ placed

theorem Ready.of_mem_iff (h : g.Ready l p) (hl : ∀ q, q ∈ l ↔ q ∈ l') : g.Ready l' p :=
  ⟨h.node, fun hp => h.unplaced ((hl p).2 hp), fun q hq => (hl q).1 (h.targets q hq)⟩

theorem ready_reverse : g.Ready l.reverse p ↔ g.Ready l p :=
  ⟨fun h => h.of_mem_iff fun _ => List.mem_reverse, fun h => h.of_mem_iff fun _ => List.mem_reverse.symm⟩

/-- Each path of the list, the last one placed in front, was the smallest that was ready. -/
def Greedy (g : Graph) : List String → Prop
  | [] => True
  | p :: earlier => g.Ready earlier p ∧ (∀ q, g.Ready earlier q → p ≤ q) ∧ Greedy g earlier

namespace Greedy

theorem of_append (h : g.Greedy (l ++ l')) : g.Greedy l' := by
  induction l with
  | nil => exact h
  | cons p rest ih => exact ih h.2.2

theorem founded (h : g.Greedy l) : g.Founded l := by
  induction l with
  | nil => trivial
  | cons p rest ih => exact ⟨h.1.targets, ih h.2.2⟩

theorem nodup (h : g.Greedy l) : l.Nodup := by
  induction l with
  | nil => exact .nil
  | cons p rest ih => exact List.nodup_cons.2 ⟨h.1.unplaced, ih h.2.2⟩

theorem subset (h : g.Greedy l) : l ⊆ g.nodes := by
  induction l with
  | nil => exact List.nil_subset _
  | cons p rest ih => exact List.cons_subset.2 ⟨h.1.node, ih h.2.2⟩

/-- What stands in a greedy list was ready behind those before it, and none that was ready is smaller. -/
theorem smallest (h : g.Greedy order.reverse) (hsplit : order = before ++ p :: after) :
    g.Ready before p ∧ ∀ q, g.Ready before q → p ≤ q := by
  rw [hsplit, List.reverse_append, List.reverse_cons, List.append_assoc] at h
  obtain ⟨hready, hle, -⟩ := h.of_append
  exact ⟨ready_reverse.1 hready, fun q hq => hle q (ready_reverse.2 hq)⟩

end Greedy

/-! ### Orders of evaluation -/

/-- An order of evaluation holds each node once, behind all its targets. -/
structure IsOrder (g : Graph) (order : List String) : Prop where
  nodup : order.Nodup
  mem : ∀ p, p ∈ order ↔ p ∈ g.nodes
  behind : ∀ before p after, order = before ++ p :: after → ∀ q, g.Adjacent p q → q ∈ before

/-- Any order of evaluation goes on with a node that is ready. -/
theorem IsOrder.ready (h : g.IsOrder order) (hsplit : order = before ++ p :: after) : g.Ready before p where
  node := (h.mem p).1 (by rw [hsplit]; exact List.mem_append_right _ List.mem_cons_self)
  unplaced hp := by
    have hnodup := h.nodup
    rw [hsplit] at hnodup
    exact (List.nodup_append.1 hnodup).2.2 p hp p List.mem_cons_self rfl
  targets := h.behind before p after hsplit

theorem IsOrder.not_ready (h : g.IsOrder order) (p : String) : ¬ g.Ready order p :=
  fun hp => hp.unplaced ((h.mem p).2 hp.node)

theorem IsOrder.founded (h : g.IsOrder order) : g.Founded order.reverse := by
  refine founded_of_suffix fun p rest hsuffix q hq => ?_
  obtain ⟨after, hsplit⟩ := hsuffix
  have horder : order = rest.reverse ++ p :: after.reverse := by
    rw [← List.reverse_reverse order, ← hsplit]
    simp
  exact List.mem_reverse.1 (h.behind _ _ _ horder q hq)

/-- A greedy order is the least: where another order first differs from it, the other one goes on with a
node that was ready, and so with a greater one. -/
theorem Greedy.least (h : g.Greedy order.reverse) (horder : g.IsOrder order) (hother : g.IsOrder other) :
    order = other ∨ order < other := by
  -- on what stands behind a beginning that both have in common
  have hall : ∀ before rest rest', order = before ++ rest → other = before ++ rest' →
      rest = rest' ∨ List.Lex (· < ·) rest rest' := by
    intro before rest
    induction rest generalizing before with
    | nil =>
        intro rest' hrest hrest'
        rw [List.append_nil] at hrest
        cases rest' with
        | nil => exact .inl rfl
        | cons q rest' => exact absurd (hrest ▸ hother.ready hrest') (horder.not_ready q)
    | cons p rest ih =>
        intro rest' hrest hrest'
        obtain ⟨hready, hle⟩ := h.smallest hrest
        cases rest' with
        | nil =>
            rw [List.append_nil] at hrest'
            exact absurd (hrest' ▸ hready) (hother.not_ready p)
        | cons q rest' =>
            by_cases hpq : p = q
            · subst hpq
              have hnext := ih (before ++ [p]) rest' (by simpa using hrest) (by simpa using hrest')
              exact hnext.imp (congrArg _) .cons
            · have hqp : ¬ q < p := String.not_lt.2 (hle q (hother.ready hrest'))
              exact .inr (.rel (lt_of_not_lt_of_ne hqp (Ne.symm hpq)))
  exact hall [] order other rfl rfl

/-- There is one greedy order at most. -/
theorem Greedy.eq_of_isOrder (h : g.Greedy order.reverse) (h' : g.Greedy other.reverse)
    (horder : g.IsOrder order) (hother : g.IsOrder other) : order = other := by
  rcases h.least horder hother with heq | hlt
  · exact heq
  · rcases h'.least hother horder with heq | hgt
    · exact heq.symm
    · exact absurd hgt (List.lt_asymm hlt)

/-! ### Orders and cycles -/

/-- A graph that has an order of evaluation has no cycle. -/
theorem acyclic_of_isOrder (h : g.IsOrder order) : g.Acyclic := by
  intro p hp
  obtain ⟨q, hpq, -⟩ := TransGen.head'_iff.1 hp
  have hmem : p ∈ order.reverse := List.mem_reverse.2 ((h.mem p).2 (mem_nodes_of_adjacent hpq))
  exact h.founded.not_transGen p hmem hp

/-- Without a cycle, nodes are ready until all are placed: of those left over, the last one in a founded list
would wait for none. -/
theorem mem_of_stuck (hg : g.WellFormed) (h : g.Acyclic) (hstuck : ∀ q, ¬ g.Ready placed q) :
    ∀ p ∈ g.nodes, p ∈ placed := by
  obtain ⟨l, hfounded, hall⟩ := exists_founded_of_cycles_eq_nil hg ((cycles_eq_nil_iff hg).2 h)
  have hplaced : ∀ p ∈ l, p ∈ g.nodes → p ∈ placed := hfounded.induction fun p _ ih hp => by
    by_contra hn
    refine hstuck p ⟨hp, hn, fun q hq => ih q hq ?_⟩
    obtain ⟨e, he, rfl⟩ := adjacent_iff.1 hq
    exact hg.target p e he
  exact fun p hp => hplaced p (hall p hp) hp

/-- A greedy list that holds every node is an order of evaluation. -/
theorem Greedy.isOrder (h : g.Greedy order.reverse) (hall : ∀ p ∈ g.nodes, p ∈ order) : g.IsOrder order where
  nodup := List.nodup_reverse.1 h.nodup
  mem p := ⟨fun hp => h.subset (List.mem_reverse.2 hp), hall p⟩
  behind _ _ _ hsplit := (h.smallest hsplit).1.targets

/-! ### The order of a graph -/

/-- Of nodes that wait in ascending order, the first one that waits for nothing is the smallest that is ready. -/
theorem smallest_of_find? {ws : List Waiting} {w : Waiting} (h : g.Waits placed ws)
    (hascending : (ws.map (·.1)).Pairwise (· < ·))
    (hmem : ∀ p, p ∈ ws.map (·.1) ↔ p ∈ g.nodes ∧ p ∉ placed) (hw : ws.find? (·.2.isEmpty) = some w) :
    g.Ready placed w.1 ∧ ∀ q, g.Ready placed q → w.1 ≤ q := by
  have hwaits : ∀ v ∈ ws, v.2.isEmpty = true ↔ ∀ t, g.Adjacent v.1 t → t ∈ placed := by
    intro v hv
    rw [List.isEmpty_iff, List.eq_nil_iff_forall_not_mem]
    refine forall_congr' fun t => ?_
    rw [h.targets v hv t, not_and_not_right]
  obtain ⟨hempty, earlier, later, rfl, hearlier⟩ := List.find?_eq_some_iff_append.1 hw
  have hw : w ∈ earlier ++ w :: later := List.mem_append_right _ List.mem_cons_self
  obtain ⟨hnode, hunplaced⟩ := (hmem w.1).1 (List.mem_map_of_mem hw)
  refine ⟨⟨hnode, hunplaced, (hwaits w hw).1 hempty⟩, fun q hq => ?_⟩
  obtain ⟨v, hv, rfl⟩ := List.mem_map.1 ((hmem q).2 ⟨hq.node, hq.unplaced⟩)
  have hfree := (hwaits v hv).2 hq.targets
  rcases List.mem_append.1 hv with hv | hv
  · have := hearlier v hv
    rw [hfree] at this
    cases this
  · rcases List.mem_cons.1 hv with rfl | hv
    · exact String.le_refl _
    · rw [List.map_append, List.map_cons] at hascending
      have hlt := List.rel_of_pairwise_cons (List.pairwise_append.1 hascending).2.1 (List.mem_map_of_mem hv)
      exact String.not_lt.1 (String.lt_asymm hlt)

theorem greedy_place {ws : List Waiting} (h : g.Waits placed ws)
    (hascending : (ws.map (·.1)).Pairwise (· < ·))
    (hmem : ∀ p, p ∈ ws.map (·.1) ↔ p ∈ g.nodes ∧ p ∉ placed) (hplaced : g.Greedy placed) :
    g.Greedy ((place ws).1.reverse ++ placed) := by
  induction ws using place.induct generalizing placed with
  | case1 ws hnone =>
      rw [place_of_none hnone]
      exact hplaced
  | case2 ws w hsome rest left hrest ih =>
      obtain ⟨hready, hle⟩ := smallest_of_find? h hascending hmem hsome
      have hmem' : ∀ p, p ∈ (settle w.1 ws).map (·.1) ↔ p ∈ g.nodes ∧ p ∉ w.1 :: placed := by
        intro p
        rw [map_settle, List.mem_filter, hmem, List.mem_cons, bne_iff_ne]
        tauto
      rw [place_of_some hsome, List.reverse_cons, List.append_assoc]
      exact ih (h.settle w.1) (map_settle ws w.1 ▸ hascending.filter _) hmem' ⟨hready, hle, hplaced⟩

theorem greedy_of_order (h : g.order = .ok order) : g.Greedy order.reverse := by
  have hplace := greedy_place g.waits_waiting (map_waiting g ▸ g.edges.pairwise_keys)
    (fun p => by rw [map_waiting]; simp) trivial
  rwa [place_of_order h, List.append_nil] at hplace

theorem isOrder_of_order (h : g.order = .ok order) : g.IsOrder order :=
  (greedy_of_order h).isOrder fun _ hp => (perm_of_order h).mem_iff.2 hp

/-- With a cycle the first one that is found is the fault. -/
theorem order_of_not_acyclic {c : List String} {rest : List (List String)} (h : ¬ g.Acyclic)
    (hc : g.cycles = c :: rest) : g.order = .error (.cycle c) := by
  cases horder : g.order with
  | ok order => exact absurd (acyclic_of_isOrder (isOrder_of_order horder)) h
  | error fault =>
      unfold order at horder
      split at horder
      · cases horder
      · rw [hc] at horder
        exact horder.symm

end HashedAssets.Graph
