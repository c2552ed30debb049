import HashedAssets.Graph.Roster.Order
import HashedAssets.Proofs.Graph.Least
import HashedAssets.Proofs.Graph.Roster

/-!
# Placing nodes by counting

Each node counts its targets that are not placed. A node is ready when its count has come down to nothing, so
what is placed next is the smallest node whose targets are all placed, and the placed nodes are greedy.

* `left_foldl_count`, `ready_foldl_count`: what it changes that a node is placed;
* `Placing.Sound`, `Placing.Sound.next`: the counts are right, and stay right;
* `exists_run_placing`: the placing ends, with a greedy list that can not be made longer;
* `order_of_acyclic`, `order_of_not_acyclic`, `order_sorted`: what comes of it, which is what the graph gives;
* `least_of_built`: the order in a roster that was built.
-/

namespace HashedAssets.Roster

variable {r : Roster} {p q t : String} {placed qs order : List String}

/-! ### Targets that are not placed -/

theorem mem_wants {es : List Edge} : t ∈ wants es ↔ t ∈ Edge.targets es := mem_ascending

theorem nodup_wants (es : List Edge) : (wants es).Nodup := (pairwise_ascending _).imp String.ne_of_lt

/-- The targets of a node that are not placed. -/
def unplaced (r : Roster) (placed : List String) (q : String) : List String :=
  (wants (r.edgesOf q)).filter fun t => !placed.contains t

theorem mem_unplaced : t ∈ r.unplaced placed q ↔ r.sorted.Adjacent q t ∧ t ∉ placed := by
  rw [unplaced, List.mem_filter, mem_wants, adjacent_sorted]
  simp [targetsOf]

theorem unplaced_eq_nil : r.unplaced placed q = [] ↔ ∀ t, r.sorted.Adjacent q t → t ∈ placed := by
  rw [List.eq_nil_iff_forall_not_mem]
  refine forall_congr' fun t => ?_
  rw [mem_unplaced, not_and_not_right]

theorem unplaced_cons : r.unplaced (p :: placed) q = (r.unplaced placed q).erase p := by
  have hnodup : (r.unplaced placed q).Nodup := (nodup_wants _).filter _
  rw [hnodup.erase_eq_filter, unplaced, unplaced, List.filter_filter]
  refine List.filter_congr fun t _ => ?_
  rw [List.contains_cons, Bool.not_or]
  rfl

namespace Placing

variable {s s' : Placing} {k : Nat}

/-! ### Counting -/

/-- The count of a node. -/
def left (s : Placing) (q : String) : Int := (s.remaining.get? q).getD 0

theorem left_count : (s.count q).left t = if t = q then s.left t - 1 else s.left t := by
  unfold count left
  rw [PathMap.get?_insert]
  split
  · next h => rw [h]; rfl
  · rfl

theorem ready_count : (s.count q).ready = if s.left q = 1 then q :: s.ready else s.ready := by
  have hone : (s.remaining.get? q).getD 0 - 1 = 0 ↔ s.left q = 1 := by
    unfold left
    omega
  exact if_congr hone rfl rfl

theorem placed_foldl_count : (qs.foldl count s).placed = s.placed := by
  induction qs generalizing s with
  | nil => rfl
  | cons q rest ih => exact ih

/-- Each node of the list counts one less. -/
theorem left_foldl_count (hqs : qs.Nodup) :
    (qs.foldl count s).left t = if t ∈ qs then s.left t - 1 else s.left t := by
  induction qs generalizing s with
  | nil => rfl
  | cons q rest ih =>
      obtain ⟨hq, hrest⟩ := List.nodup_cons.1 hqs
      rw [List.foldl_cons, ih hrest, left_count]
      by_cases ht : t = q
      · subst ht
        simp [hq]
      · simp [ht]

/-- Those that counted one are ready now. -/
theorem ready_foldl_count (hqs : qs.Nodup) :
    (qs.foldl count s).ready = (qs.filter fun q => s.left q == 1).reverse ++ s.ready := by
  induction qs generalizing s with
  | nil => rfl
  | cons q rest ih =>
      obtain ⟨hq, hrest⟩ := List.nodup_cons.1 hqs
      have hsame : ∀ t ∈ rest, ((s.count q).left t == 1) = (s.left t == 1) := by
        intro t ht
        rw [left_count, if_neg fun h : t = q => hq (h ▸ ht)]
      rw [List.foldl_cons, ih hrest, List.filter_congr hsame, ready_count, List.filter_cons]
      by_cases hone : s.left q = 1 <;> simp [hone]

/-! ### The counts are right -/

/-- The placed nodes are greedy; each node counts its targets that are not placed, and the ready nodes stand there
each once. -/
structure Sound (r : Roster) (s : Placing) : Prop where
  greedy : r.sorted.Greedy s.placed
  left : ∀ q ∈ r.nodes, s.left q = (r.unplaced s.placed q).length
  ready : ∀ q, q ∈ s.ready ↔ r.sorted.Ready s.placed q
  nodup : s.ready.Nodup

theorem sound_placing (r : Roster) : r.placing.Sound r := by
  have hall : ∀ x ∈ r.entries, r.unplaced [] x.1 = wants x.2 := by
    intro x hx
    rw [unplaced, edgesOf_eq_of_mem hx]
    exact List.filter_eq_self.2 fun t _ => rfl
  constructor
  case greedy => trivial
  case left =>
    intro q hq
    obtain ⟨x, hx, rfl⟩ := List.mem_map.1 hq
    have hkeys : ((r.entries.map fun x => (x.1, ((wants x.2).length : Int))).map (·.1)).Nodup := by
      rw [List.map_map]
      exact r.nodup
    have hcount := PathMap.lookup_of_mem hkeys (List.mem_map_of_mem hx)
    rw [left, placing, PathMap.get?_ofList hkeys, hcount, hall x hx]
    rfl
  case ready =>
    intro q
    simp only [placing, List.mem_map, List.mem_filter, beq_iff_eq, List.length_eq_zero_iff]
    constructor
    · rintro ⟨x, ⟨hx, hnil⟩, rfl⟩
      exact ⟨mem_nodes_sorted.2 (List.mem_map_of_mem hx), List.not_mem_nil, unplaced_eq_nil.1 (by rw [hall x hx, hnil])⟩
    · intro hready
      obtain ⟨x, hx, rfl⟩ := List.mem_map.1 (mem_nodes_sorted.1 hready.node)
      exact ⟨x, ⟨hx, by rw [← hall x hx, unplaced_eq_nil.2 hready.targets]⟩, rfl⟩
  case nodup => exact r.nodup.sublist (List.filter_sublist.map _)

/-- The nodes that wait for a path. -/
theorem mem_waiting : q ∈ ((r.index wants).get? p).getD [] ↔ r.sorted.Adjacent q p := by
  rw [mem_getD_index rfl, mem_wants, adjacent_sorted]
  rfl

namespace Sound

/-- What waits for a ready node is neither ready nor placed. -/
theorem not_mem_of_adjacent (h : s.Sound r) (hp : p ∈ s.ready) (hqp : r.sorted.Adjacent q p) :
    q ∉ s.ready ∧ q ∉ p :: s.placed := by
  have hready := (h.ready p).1 hp
  refine ⟨fun hq => hready.unplaced (((h.ready q).1 hq).targets p hqp), fun hq => hready.unplaced ?_⟩
  rcases List.mem_cons.1 hq with rfl | hq
  · exact hready.targets q hqp
  · exact h.greedy.founded.mem_of_adjacent hq hqp

/-- It counts that node too. -/
theorem left_of_adjacent (h : s.Sound r) (hp : p ∉ s.placed) (hqp : r.sorted.Adjacent q p) :
    s.left q = (r.unplaced (p :: s.placed) q).length + 1 := by
  have hmem : p ∈ r.unplaced s.placed q := mem_unplaced.2 ⟨hqp, hp⟩
  have hlength := List.length_erase_add_one hmem
  rw [h.left q (mem_nodes_sorted.1 (Graph.mem_nodes_of_adjacent hqp)), unplaced_cons]
  omega

/-- Behind a ready node those are ready that waited for it alone, and those that were ready beside it. -/
theorem ready_cons_iff (h : s.Sound r) (hp : p ∈ s.ready) : r.sorted.Ready (p :: s.placed) q ↔
    (r.sorted.Adjacent q p ∧ s.left q = 1) ∨ (q ≠ p ∧ r.sorted.Ready s.placed q) := by
  have hunplaced := ((h.ready p).1 hp).unplaced
  constructor
  · intro hq
    obtain ⟨hne, hn⟩ := List.ne_and_not_mem_of_not_mem_cons hq.unplaced
    by_cases hqp : r.sorted.Adjacent q p
    · have hone := h.left_of_adjacent hunplaced hqp
      rw [unplaced_eq_nil.2 hq.targets] at hone
      exact .inl ⟨hqp, hone⟩
    · refine .inr ⟨hne, hq.node, hn, fun t ht => ?_⟩
      exact (List.mem_cons.1 (hq.targets t ht)).resolve_left fun htp => hqp (htp ▸ ht)
  · rintro (⟨hqp, hone⟩ | ⟨hne, hq⟩)
    · have hnil : r.unplaced (p :: s.placed) q = [] := by
        have := h.left_of_adjacent hunplaced hqp
        exact List.eq_nil_of_length_eq_zero (by omega)
      exact ⟨Graph.mem_nodes_of_adjacent hqp, (h.not_mem_of_adjacent hp hqp).2, unplaced_eq_nil.1 hnil⟩
    · have hn : q ∉ p :: s.placed := List.not_mem_cons_of_ne_of_not_mem hne hq.unplaced
      exact ⟨hq.node, hn, fun t ht => List.mem_cons_of_mem _ (hq.targets t ht)⟩

/-- The smallest of the ready nodes is placed, and the nodes that wait for it count one less. -/
theorem next (h : s.Sound r) (hp : p ∈ s.ready) (hle : ∀ q ∈ s.ready, p ≤ q) :
    ((((r.index wants).get? p).getD []).foldl count
      { s with ready := s.ready.erase p, placed := p :: s.placed }).Sound r := by
  have hready := (h.ready p).1 hp
  have hwaiting : (((r.index wants).get? p).getD []).Nodup := nodup_getD_index nodup_wants
  constructor
  case greedy =>
    rw [placed_foldl_count]
    exact ⟨hready, fun q hq => hle q ((h.ready q).2 hq), h.greedy⟩
  case left =>
    intro q hq
    rw [placed_foldl_count, left_foldl_count hwaiting]
    split
    · next hqp =>
        have := h.left_of_adjacent hready.unplaced (mem_waiting.1 hqp)
        change s.left q - 1 = ((r.unplaced (p :: s.placed) q).length : Int)
        omega
    · next hqp =>
        have hn : p ∉ r.unplaced s.placed q := fun hmem => hqp (mem_waiting.2 (mem_unplaced.1 hmem).1)
        rw [unplaced_cons, List.erase_of_not_mem hn]
        exact h.left q hq
  case ready =>
    intro q
    rw [placed_foldl_count, ready_foldl_count hwaiting, List.mem_append, List.mem_reverse, List.mem_filter,
      mem_waiting, beq_iff_eq, h.nodup.mem_erase_iff, h.ready]
    exact (h.ready_cons_iff hp).symm
  case nodup =>
    rw [ready_foldl_count hwaiting]
    refine List.nodup_append.2 ⟨List.nodup_reverse.2 (hwaiting.filter _), h.nodup.erase p, ?_⟩
    rintro q hq t ht rfl
    have hqp := mem_waiting.1 (List.mem_filter.1 (List.mem_reverse.1 hq)).1
    exact (h.not_mem_of_adjacent hp hqp).1 (List.mem_of_mem_erase ht)

end Sound

/-- The nodes that are not placed. -/
def ahead (r : Roster) (s : Placing) : Nat := r.nodes.countP fun q => !s.placed.contains q

/-- A step places a node, until none is ready. -/
theorem Sound.step (h : s.Sound r) (hstep : s.step (r.index wants) = .inl s') :
    s'.Sound r ∧ s'.ahead r < s.ahead r := by
  unfold Placing.step at hstep
  split at hstep
  · cases hstep
  · next q rest hready =>
      have hmem : Graph.smallest q rest ∈ s.ready := hready ▸ Graph.smallest_mem q rest
      have hle : ∀ t ∈ s.ready, Graph.smallest q rest ≤ t := hready ▸ Graph.smallest_le q rest
      rw [← hready] at hstep
      generalize Graph.smallest q rest = p at hmem hle hstep
      obtain rfl := Sum.inl.inj hstep
      refine ⟨h.next hmem hle, ?_⟩
      have hp := (h.ready p).1 hmem
      unfold ahead
      rw [placed_foldl_count]
      refine Graph.countP_lt_of_mem (fun t _ ht => ?_) (mem_nodes_sorted.1 hp.node) ?_ ?_
      · rw [List.contains_cons, Bool.not_or, Bool.and_eq_true] at ht
        exact ht.2
      · simp
      · simpa using hp.unplaced

theorem eq_of_step_inr (hstep : s.step (r.index wants) = .inr order) : s.ready = [] ∧ order = s.placed.reverse := by
  unfold Placing.step at hstep
  split at hstep
  · next hready => exact ⟨hready, (Sum.inr.inj hstep).symm⟩
  · cases hstep

end Placing

/-- The placing ends, and then no node is ready. -/
theorem exists_run_placing (r : Roster) :
    ∃ order, Loop.run (Placing.step (r.index wants)) (r.size + 1) r.placing = some order ∧
      r.sorted.Greedy order.reverse ∧ ∀ q, ¬ r.sorted.Ready order q := by
  refine Loop.exists_run (fun k s => s.Sound r ∧ s.ahead r = k) ?_ ?_ ⟨Placing.sound_placing r, rfl⟩ ?_
  · rintro _ s s' ⟨hs, rfl⟩ hstep
    obtain ⟨hs', hlt⟩ := hs.step hstep
    exact ⟨_, hlt, hs', rfl⟩
  · rintro _ s order ⟨hs, -⟩ hstep
    obtain ⟨hready, rfl⟩ := Placing.eq_of_step_inr hstep
    rw [List.reverse_reverse]
    refine ⟨hs.greedy, fun q hq => ?_⟩
    have hmem := (hs.ready q).2 (Graph.ready_reverse.1 hq)
    rw [hready] at hmem
    cases hmem
  · exact Nat.lt_succ_of_le (r.length_nodes ▸ List.countP_le_length)

theorem run_placing (r : Roster) :
    Loop.run (Placing.step (r.index wants)) (r.size + 1) r.placing = some r.place := by
  obtain ⟨order, horder, -⟩ := r.exists_run_placing
  rw [place, horder, Option.getD_some]

/-- It does not matter in which order the targets of a node are gone through. -/
theorem run_placing_of_perm (r : Roster) {named : List Edge → List String}
    (h : ∀ es, (named es).Perm (wants es)) :
    Loop.run (Placing.step (r.index named)) (r.size + 1) r.placing = some r.place := by
  have hstep : Placing.step (r.index named) = Placing.step (r.index wants) := by
    funext s
    unfold Placing.step
    simp only [getD_index_of_perm h]
  rw [hstep, r.run_placing]

theorem greedy_place (r : Roster) : r.sorted.Greedy r.place.reverse ∧ ∀ q, ¬ r.sorted.Ready r.place q := by
  obtain ⟨order, horder, hplace⟩ := r.exists_run_placing
  rw [r.run_placing] at horder
  exact Option.some.inj horder ▸ hplace

/-! ### The order of a roster -/

/-- As many paths are placed as there are nodes just if each node is. -/
theorem length_place_eq_iff : r.place.length = r.size ↔ ∀ p ∈ r.nodes, p ∈ r.place := by
  have hnodup : r.place.Nodup := List.nodup_reverse.1 r.greedy_place.1.nodup
  have hsub : r.place ⊆ r.nodes := fun p hp =>
    mem_nodes_sorted.1 (r.greedy_place.1.subset (List.mem_reverse.2 hp))
  have hperm := List.subperm_of_subset hnodup hsub
  rw [← r.length_nodes]
  constructor
  · intro h p hp
    exact (hperm.perm_of_length_le h.ge).mem_iff.2 hp
  · intro h
    exact Nat.le_antisymm hperm.length_le (List.subperm_of_subset r.nodup h).length_le

/-- Without a cycle each node is placed. -/
theorem order_of_acyclic (h : r.Ordered) (hacyclic : r.sorted.Acyclic) :
    r.order = .ok r.place ∧ r.sorted.IsOrder r.place := by
  have hall := Graph.mem_of_stuck h.wellFormed hacyclic r.greedy_place.2
  refine ⟨?_, r.greedy_place.1.isOrder hall⟩
  rw [order, if_pos (length_place_eq_iff.2 fun p hp => hall p (mem_nodes_sorted.2 hp))]

/-- With a cycle the first one that is found is the fault. -/
theorem order_of_not_acyclic (h : r.Ordered) (hacyclic : ¬ r.sorted.Acyclic) :
    ∃ c rest, r.cycles = c :: rest ∧ r.order = .error (.cycle c) := by
  have hne : r.cycles ≠ [] := fun hnil => hacyclic ((Graph.cycles_eq_nil_iff h.wellFormed).1 hnil)
  obtain ⟨c, rest, hcycles⟩ := List.exists_cons_of_ne_nil hne
  have hlength : r.place.length ≠ r.size := fun hlength => by
    -- all nodes placed would be an order
    refine hacyclic (Graph.acyclic_of_isOrder (r.greedy_place.1.isOrder fun p hp => ?_))
    exact length_place_eq_iff.1 hlength p (mem_nodes_sorted.1 hp)
  refine ⟨c, rest, hcycles, ?_⟩
  rw [order, if_neg hlength, hcycles]
  rfl

/-- The graph gives the same order, or the same fault. -/
theorem Ordered.order_sorted (h : r.Ordered) : r.sorted.order = r.order := by
  by_cases hacyclic : r.sorted.Acyclic
  · obtain ⟨order, hgraph⟩ := Graph.exists_order h.wellFormed ((Graph.cycles_eq_nil_iff h.wellFormed).2 hacyclic)
    obtain ⟨horder, hplace⟩ := order_of_acyclic h hacyclic
    rw [hgraph, horder, (Graph.greedy_of_order hgraph).eq_of_isOrder r.greedy_place.1
      (Graph.isOrder_of_order hgraph) hplace]
  · obtain ⟨c, rest, hcycles, horder⟩ := order_of_not_acyclic h hacyclic
    rw [horder, Graph.order_of_not_acyclic hacyclic hcycles]

/-! ### Rosters that are built -/

/-- In a roster that was built the placing ends, with one result whatever order the targets of a node are gone through.
Without a cycle all nodes are placed, each behind its targets; what is placed was ready, and nothing that was ready is
smaller; and of all orders of evaluation this is the least. With a cycle the fault is a cycle, the first one that is
found. The graph gives the same. -/
theorem least_of_built (changes : List Graph.Change) :
    (∀ named : List Edge → List String, (∀ es, (named es).Perm (wants es)) →
        Loop.run (Placing.step ((built changes).index named)) ((built changes).size + 1) (built changes).placing
          = some (built changes).place) ∧
      ((built changes).sorted.Acyclic → ∃ order, (built changes).order = .ok order ∧
        (built changes).sorted.IsOrder order ∧
        (∀ before p after, order = before ++ p :: after → (built changes).sorted.Ready before p ∧
          ∀ q, (built changes).sorted.Ready before q → p ≤ q) ∧
        ∀ other, (built changes).sorted.IsOrder other → order = other ∨ order < other) ∧
      (¬ (built changes).sorted.Acyclic → ∃ c rest, (built changes).cycles = c :: rest ∧
        (built changes).order = .error (.cycle c) ∧ (built changes).sorted.IsCycle c) ∧
      (Graph.built changes).order = (built changes).order := by
  have hordered := ordered_built changes
  rw [← sorted_built]
  generalize built changes = r at hordered
  refine ⟨fun _ => r.run_placing_of_perm, fun hacyclic => ?_, fun hacyclic => ?_, hordered.order_sorted⟩
  · obtain ⟨horder, hplace⟩ := order_of_acyclic hordered hacyclic
    have hgreedy := r.greedy_place.1
    exact ⟨r.place, horder, hplace, fun _ _ _ hsplit => hgreedy.smallest hsplit, fun _ => hgreedy.least hplace⟩
  · obtain ⟨c, rest, hcycles, horder⟩ := order_of_not_acyclic hordered hacyclic
    have hc : c ∈ r.cycles := hcycles ▸ List.mem_cons_self
    exact ⟨c, rest, hcycles, horder, (Graph.isCycle_of_mem_cycles hordered.wellFormed hc).1⟩

/-- Two edges to one target count once. -/
example : (built [.addEdge ⟨"c", "b", .include⟩, .addEdge ⟨"c", "b", .reference⟩, .addEdge ⟨"b", "d", .include⟩,
    .addNode "a"]).place = ["a", "d", "b", "c"] := by decide +kernel

end HashedAssets.Roster
