import HashedAssets.Proofs.Graph.Built
import HashedAssets.Proofs.Graph.Founded

/-!
# The cycles that are found

* `exists_shared_link`: each round trip in a graph has a step of a cycle that is found: of its nodes, the one that is
  finished first leads to one that is finished later;
* `cycles_eq_nil_iff`: none is found just if there is none;
* `isCycle_of_mem_cycles`, `nodup_cycles`: what is found are cycles, each once;
* `cycles_of_built`: what is found in a graph that was built.
-/

namespace HashedAssets.Graph

open Relation

variable {g : Graph} {p first : String} {c l : List String}

/-- A round trip leads from its first path back to it. -/
theorem transGen_of_closes (h : g.Closes first (p :: l)) : TransGen g.Adjacent p first := by
  induction l generalizing p with
  | nil => exact .single h
  | cons q l ih => exact .head h.1 (ih h.2)

theorem mem_nodes_of_adjacent {q : String} (h : g.Adjacent p q) : p ∈ g.nodes := by
  obtain ⟨e, he, -⟩ := adjacent_iff.1 h
  exact mem_nodes_of_mem_edgesOf he

/-- A round trip has a step in common with a cycle that is found. -/
theorem exists_shared_link (hg : g.WellFormed) (h : g.Closes p (p :: l)) :
    ∃ c ∈ g.cycles, ∃ x ∈ links c, x ∈ links (p :: l) := by
  obtain ⟨hsound, hall⟩ := sound_walked hg
  have hedges := closes_cons_iff.1 h
  by_contra hnone
  have hnew : ∀ q r, (q, r) ∈ links (p :: l) → ¬ g.walked.Notes q r := by
    rintro q r hqr ⟨c, hc, hlink⟩
    exact hnone ⟨c, List.mem_reverse.2 hc, (q, r), hlink, hqr⟩
  -- on the finished nodes, the one finished first last: each path of the round trip is left by a step to another one,
  -- and that was finished before it
  have hunfinished : ∀ earlier, earlier <:+ g.walked.finished → ∀ q ∈ p :: l, q ∉ earlier := by
    intro earlier
    induction earlier with
    | nil => exact fun _ q _ hq => by cases hq
    | cons q earlier ih =>
        intro hsuffix q' hq' hmem
        have hrest := ih ((List.suffix_cons q earlier).trans hsuffix)
        rcases List.mem_cons.1 hmem with rfl | hmem
        · obtain ⟨r, hr, hlink⟩ := exists_mem_links hq'
          rcases hsound.before q' earlier hsuffix r (hedges _ hlink) with hmem | hnoted
          · exact hrest r hr hmem
          · exact hnew q' r hlink hnoted
        · exact hrest q' hq' hmem
  obtain ⟨r, -, hlink⟩ := exists_mem_links (List.mem_cons_self (a := p) (l := l))
  exact hunfinished _ (List.suffix_refl _) p List.mem_cons_self (hall p (mem_nodes_of_adjacent (hedges _ hlink)))

/-- No cycle is found just if there is none. -/
theorem cycles_eq_nil_iff (hg : g.WellFormed) : g.cycles = [] ↔ g.Acyclic := by
  constructor
  · intro h p hp
    obtain ⟨l, hfounded, hall⟩ := exists_founded_of_cycles_eq_nil hg h
    obtain ⟨q, hpq, -⟩ := TransGen.head'_iff.1 hp
    exact hfounded.not_transGen p (hall p (mem_nodes_of_adjacent hpq)) hp
  · intro h
    rw [cycles_eq_walked, List.reverse_eq_nil_iff]
    by_contra hne
    obtain ⟨c, hc⟩ := List.exists_mem_of_ne_nil _ hne
    obtain ⟨-, p, l, rfl, hcloses⟩ := ((sound_walked hg).1.cycle c hc).1
    exact h p (transGen_of_closes hcloses)

/-- What is found are cycles, each with its smallest path in front. -/
theorem isCycle_of_mem_cycles (hg : g.WellFormed) (hc : c ∈ g.cycles) : g.IsCycle c ∧ BeginsSmallest c :=
  (sound_walked hg).1.cycle c (List.mem_reverse.1 hc)

/-- Each cycle is found once. -/
theorem nodup_cycles (hg : g.WellFormed) : g.cycles.Nodup := by
  rw [cycles_eq_walked]
  exact List.nodup_reverse.2 (sound_walked hg).1.nodup

/-- In a graph that was built, what is found are cycles, each once and with its smallest path in front; each round trip
has a step in common with one of them; and there are none just if the graph has no cycle. -/
theorem cycles_of_built (changes : List Change) :
    (∀ c ∈ (built changes).cycles, (built changes).IsCycle c ∧ BeginsSmallest c) ∧
      (built changes).cycles.Nodup ∧
      (∀ p l, (built changes).Closes p (p :: l) →
        ∃ c ∈ (built changes).cycles, ∃ x ∈ links c, x ∈ links (p :: l)) ∧
      ((built changes).cycles = [] ↔ (built changes).Acyclic) := by
  have hg := wellFormed_built changes
  exact ⟨fun c hc => isCycle_of_mem_cycles hg hc, nodup_cycles hg, fun p l h => exists_shared_link hg h,
    cycles_eq_nil_iff hg⟩

/-- Two cycles that share a node, and a third one around both that has a step of each. -/
example : (built [.addEdge ⟨"b", "a", .include⟩, .addEdge ⟨"a", "b", .reference⟩, .addEdge ⟨"b", "c", .include⟩,
    .addEdge ⟨"c", "b", .include⟩]).cycles = [["a", "b"], ["b", "c"]] := by decide +kernel

end HashedAssets.Graph
