import HashedAssets.Proofs.Graph.Cycles

/-!
# Shortest cycles, level by level

The search for a cycle through a node goes from one level to the next: the trails of level `k` lead to the
nodes that are `k` steps away and no fewer. The first level on which a node needs the goal gives a shortest
cycle.

* `Steps`: a path leads to another one in a number of steps;
* `IsLevel`: what holds of the levels; `IsLevel.next`: it is kept from each one to the next;
* `cycleThrough?_eq_none_iff`, `shortest_of_cycleThrough?`: what the search says.
-/

namespace HashedAssets.Graph

variable {g : Graph} {goal first p q : String} {n k : Nat} {level : List (List String)}
  {seen trail c l : List String}

/-! ### Steps -/

/-- A path leads to another one in `n` steps, by some way. -/
def Steps (g : Graph) (p : String) : Nat → String → Prop
  | 0, q => q = p
  | n + 1, q => ∃ m, g.Steps p n m ∧ g.Adjacent m q

theorem Steps.cons {m : String} (hpm : g.Adjacent p m) (h : g.Steps m n q) : g.Steps p (n + 1) q := by
  induction n generalizing q with
  | zero => exact ⟨p, rfl, (h : q = m) ▸ hpm⟩
  | succ n ih =>
      obtain ⟨r, hr, hrq⟩ := h
      exact ⟨r, ih hr, hrq⟩

/-- The last path of a round trip is as many steps away as there are paths behind the first. -/
theorem exists_steps_of_closes (h : g.Closes first (p :: l)) :
    ∃ q, g.Steps p l.length q ∧ g.Adjacent q first := by
  induction l generalizing p with
  | nil => exact ⟨p, rfl, h⟩
  | cons m l ih =>
      obtain ⟨hpm, hrest⟩ := h
      obtain ⟨q, hq, hfirst⟩ := ih hrest
      exact ⟨q, hq.cons hpm, hfirst⟩

/-- A cycle can be begun at each path on it. -/
theorem IsCycle.exists_closes (h : g.IsCycle c) (hp : p ∈ c) :
    ∃ l, g.Closes p (p :: l) ∧ c.length = l.length + 1 := by
  obtain ⟨tail, htail⟩ := exists_dropWhile_eq_cons hp
  have hsplit : c.takeWhile (· != p) ++ p :: tail = c := by
    rw [← htail, List.takeWhile_append_dropWhile]
  have hturn : c.rotate (c.takeWhile (· != p)).length = p :: (tail ++ c.takeWhile (· != p)) := by
    nth_rewrite 1 [← hsplit]
    rw [List.rotate_append_length_eq, List.cons_append]
  obtain ⟨-, first, l, heq, hcloses⟩ := h.rotate (c.takeWhile (· != p)).length
  obtain ⟨rfl, rfl⟩ := List.cons.inj (hturn.symm.trans heq)
  refine ⟨_, heq ▸ hcloses, ?_⟩
  rw [← List.length_rotate c (c.takeWhile (· != p)).length, hturn, List.length_cons]

/-! ### Levels -/

/-- The level of the nodes that are `k` steps away from `goal`, each with a trail from there; what is seen but
not on this level has all its targets seen, and does not need the goal. -/
structure IsLevel (g : Graph) (goal : String) (k : Nat) (level : List (List String)) (seen : List String) :
    Prop where
  trail : ∀ t ∈ level, g.IsTrail t ∧ t.length = k + 1 ∧ t.getLast? = some goal ∧ ∀ q ∈ t, q ∈ seen
  near : ∀ q, g.Steps goal k q → q ∈ seen
  nearer : ∀ j < k, ∀ q, g.Steps goal j q → q ∈ seen ∧ q ∉ level.filterMap List.head?
  done : ∀ q ∈ seen, q ∉ level.filterMap List.head? → ¬ g.Adjacent q goal ∧ ∀ r, g.Adjacent q r → r ∈ seen

theorem isLevel_zero (g : Graph) (goal : String) : g.IsLevel goal 0 [[goal]] [goal] where
  trail := by
    intro t ht
    obtain rfl := List.mem_singleton.1 ht
    exact ⟨⟨by simp, by simp⟩, rfl, rfl, by simp⟩
  near := fun q hq => List.mem_singleton.2 hq
  nearer := fun j hj => absurd hj (Nat.not_lt_zero j)
  done := fun q hq hn => absurd hq (by simpa using hn)

theorem mem_filterMap_head? : p ∈ level.filterMap List.head? ↔ ∃ t, p :: t ∈ level := by
  rw [List.mem_filterMap]
  constructor
  · rintro ⟨trail, htrail, hp⟩
    obtain ⟨t, rfl⟩ := List.head?_eq_some_iff.1 hp
    exact ⟨t, htrail⟩
  · rintro ⟨t, ht⟩
    exact ⟨p :: t, ht, rfl⟩

/-- If no node of a level needs the goal, the trails made longer are the next level. -/
theorem IsLevel.next (h : g.IsLevel goal k level seen) (hnone : level.find? (g.leadsTo goal) = none) :
    g.IsLevel goal (k + 1) (g.lengthen level seen).1 (g.lengthen level seen).2 := by
  obtain ⟨hnew, hseen, htargets⟩ := @lengthen_spec g level seen
  have hold : ∀ q ∈ seen, q ∈ (g.lengthen level seen).2 := fun q hq => (hseen q).2 (.inl hq)
  -- a new level holds nothing that was seen, so each path is in the first level that leads to it
  have hahead : ∀ q ∈ seen, q ∉ (g.lengthen level seen).1.filterMap List.head? := by
    intro q hq hmem
    obtain ⟨t, ht⟩ := mem_filterMap_head?.1 hmem
    obtain ⟨b, rest, heq, -, hb, -⟩ := hnew _ ht
    exact hb ((List.cons.inj heq).1 ▸ hq)
  have hleads : ∀ q ∈ level.filterMap List.head?, ¬ g.Adjacent q goal := by
    intro q hq hgoal
    obtain ⟨t, ht⟩ := mem_filterMap_head?.1 hq
    exact List.find?_eq_none.1 hnone _ ht (leadsTo_iff.2 ⟨q, rfl, hgoal⟩)
  have hnext : ∀ q ∈ seen, ∀ r, g.Adjacent q r → r ∈ (g.lengthen level seen).2 := by
    intro q hq r hr
    by_cases hlevel : q ∈ level.filterMap List.head?
    · obtain ⟨t, ht⟩ := mem_filterMap_head?.1 hlevel
      exact htargets _ ht q rfl r hr
    · exact hold r ((h.done q hq hlevel).2 r hr)
  constructor
  case trail =>
    intro t ht
    obtain ⟨b, rest, rfl, hrest, hb, a, ha, hab⟩ := hnew t ht
    obtain ⟨htrail, hlength, hlast, hmem⟩ := h.trail rest hrest
    obtain ⟨t, rfl⟩ := List.head?_eq_some_iff.1 ha
    refine ⟨htrail.cons hab fun hbt => hb (hmem b hbt), by rw [List.length_cons, hlength], by simpa using hlast, ?_⟩
    intro q hq
    rcases List.mem_cons.1 hq with rfl | hq
    · exact hnext a (hmem a List.mem_cons_self) q hab
    · exact hold q (hmem q hq)
  case near =>
    rintro q ⟨m, hm, hmq⟩
    exact hnext m (h.near m hm) q hmq
  case nearer =>
    intro j hj q hq
    have hq : q ∈ seen := by
      rcases Nat.lt_succ_iff_lt_or_eq.1 hj with hj | rfl
      · exact (h.nearer j hj q hq).1
      · exact h.near q hq
    exact ⟨hold q hq, hahead q hq⟩
  case done =>
    intro q hq hn
    have hq : q ∈ seen := ((hseen q).1 hq).resolve_right hn
    refine ⟨?_, hnext q hq⟩
    by_cases hlevel : q ∈ level.filterMap List.head?
    · exact hleads q hlevel
    · exact (h.done q hq hlevel).1

/-- A trail of a level that leads to the goal is a cycle, walked backwards, and no round trip is shorter. -/
theorem IsLevel.shortest (h : g.IsLevel goal k level seen) (hmem : trail ∈ level)
    (hleads : g.leadsTo goal trail = true) :
    g.IsCycle trail.reverse ∧ trail.reverse.head? = some goal ∧
      ∀ l, g.Closes goal (goal :: l) → trail.reverse.length ≤ l.length + 1 := by
  obtain ⟨htrail, hlength, hlast, -⟩ := h.trail trail hmem
  obtain ⟨a, ha, hgoal⟩ := leadsTo_iff.1 hleads
  obtain ⟨t, rfl⟩ := List.head?_eq_some_iff.1 ha
  have hhead : (a :: t).reverse.head? = some goal := by rw [List.head?_reverse, hlast]
  refine ⟨⟨List.nodup_reverse.2 htrail.nodup, ?_⟩, hhead, fun l hl => ?_⟩
  · obtain ⟨rest, hrest⟩ := List.head?_eq_some_iff.1 hhead
    exact ⟨goal, rest, hrest, closes_reverse htrail.chain hgoal⟩
  · rw [List.length_reverse, hlength]
    by_contra hlt
    obtain ⟨q, hq, hqgoal⟩ := exists_steps_of_closes hl
    obtain ⟨hseen, hlevel⟩ := h.nearer l.length (by omega) q hq
    exact (h.done q hseen hlevel).1 hqgoal

theorem shortest_of_cycleSearch (h : g.IsLevel goal k level seen)
    (hc : g.cycleSearch goal n level seen = some c) :
    g.IsCycle c ∧ c.head? = some goal ∧ ∀ l, g.Closes goal (goal :: l) → c.length ≤ l.length + 1 := by
  induction n generalizing k level seen with
  | zero => cases hc
  | succ n ih =>
      rw [cycleSearch_succ] at hc
      split at hc
      · next trail hfind =>
          obtain rfl := Option.some.inj hc
          exact h.shortest (List.mem_of_find?_eq_some hfind) (List.find?_some hfind)
      · next hfind =>
          split at hc
          · cases hc
          · exact ih (h.next hfind) hc

/-! ### The search -/

/-- What is found is a cycle that begins with the node, and none through it has fewer nodes. -/
theorem shortest_of_cycleThrough? (h : g.cycleThrough? p = some c) :
    g.IsCycle c ∧ c.head? = some p ∧ ∀ c', g.IsCycle c' → p ∈ c' → c.length ≤ c'.length := by
  obtain ⟨hcycle, hhead, hle⟩ := shortest_of_cycleSearch (g.isLevel_zero p) h
  refine ⟨hcycle, hhead, fun c' hc' hp => ?_⟩
  obtain ⟨l, hl, hlength⟩ := hc'.exists_closes hp
  exact hlength ▸ hle l hl

/-- Nothing is found just if there is no cycle through the node. -/
theorem cycleThrough?_eq_none_iff : g.cycleThrough? p = none ↔ ∀ c, g.IsCycle c → p ∉ c := by
  constructor
  · intro h c hc hp
    obtain ⟨l, hl, -⟩ := hc.exists_closes hp
    exact not_transGen_of_cycleThrough?_eq_none h (transGen_of_closes hl)
  · intro h
    rw [Option.eq_none_iff_forall_ne_some]
    intro c hc
    obtain ⟨hcycle, hhead, -⟩ := shortest_of_cycleThrough? hc
    exact h c hcycle (List.mem_of_mem_head? hhead)

end HashedAssets.Graph
