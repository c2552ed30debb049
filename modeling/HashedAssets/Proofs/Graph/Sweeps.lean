import HashedAssets.Graph.Roster.Search
import HashedAssets.Proofs.Graph.Roster
import HashedAssets.Proofs.Graph.Search

/-!
# What a sweep of a roster finds

A sweep takes a path from its stack, and stacks what is new next to it. Whatever is found and not on the
stack any more has all its neighbours found; when the stack is empty this holds of everything found.

* `Sweep.Sound`, `exists_run_sweep`: this invariant, and what a sweep comes to;
* `Leads`: an edge of a kind that is admitted, from one path to another;
* `mem_closure`, `mem_dependentsBy`: what is reached along edges, and against them;
* `reached_of_built`: both for a roster that was built, how each tells of the other, and that they are
  those of the graph.
-/

namespace HashedAssets.Roster

open Relation

variable {r : Roster} {p q : String}

namespace Sweep

variable {next : String → List String} {barred start ps dom : List String} {k n : Nat} {s s' : Sweep}

/-! ### Looking at one path -/

theorem mem_seen_foldl : q ∈ (ps.foldl (note barred) s).seen ↔ q ∈ s.seen ∨ (q ∈ ps ∧ q ∉ barred) := by
  induction ps generalizing s with
  | nil => simp
  | cons p rest ih =>
      have hnote : q ∈ (s.note barred p).seen ↔ q ∈ s.seen ∨ (q = p ∧ q ∉ barred) := by
        unfold note
        split <;> grind
      rw [List.foldl_cons, ih, hnote, List.mem_cons]
      tauto

theorem mem_stack_foldl : q ∈ (ps.foldl (note barred) s).stack ↔
    q ∈ s.stack ∨ (q ∈ ps ∧ q ∉ barred ∧ q ∉ s.seen) := by
  induction ps generalizing s with
  | nil => simp
  | cons p rest ih =>
      rw [List.foldl_cons, ih]
      unfold note
      split <;> grind

/-- The paths that are not found yet, and those to be looked at. -/
def ahead (dom : List String) (s : Sweep) : Nat :=
  dom.countP (fun q => !s.seen.contains q) + s.stack.length

/-- A path that is stacked is found. -/
theorem ahead_foldl_le (h : ∀ q ∈ ps, q ∈ dom) : ahead dom (ps.foldl (note barred) s) ≤ ahead dom s := by
  induction ps generalizing s with
  | nil => exact Nat.le_refl _
  | cons p rest ih =>
      refine Nat.le_trans (ih fun q hq => h q (List.mem_cons_of_mem _ hq)) ?_
      unfold note
      split
      · exact Nat.le_refl _
      · next hnew =>
          have hlt : dom.countP (fun q => !(p :: s.seen).contains q) < dom.countP (fun q => !s.seen.contains q) := by
            refine Graph.countP_lt_of_mem (fun q _ hq => ?_) (h p List.mem_cons_self) (by simp) ?_
            · grind
            · grind
          simp only [ahead, List.length_cons]
          omega

/-! ### The whole search -/

/-- A search from `p` that had `start` to begin with: what it has found is reached from `p`, and is not
barred unless it was there from the beginning; and what has been looked at has its neighbours found. -/
structure Sound (next : String → List String) (barred dom start : List String) (p : String) (k : Nat)
    (s : Sweep) : Prop where
  ahead_le : ahead dom s ≤ k
  kept : ∀ q ∈ start, q ∈ s.seen
  reached : ∀ q ∈ s.seen, ReflTransGen (fun a b => b ∈ next a) p q ∧ (q ∈ start ∨ q ∉ barred)
  stacked : ∀ q ∈ s.stack, q = p ∨ q ∈ s.seen
  closed : ∀ a, a = p ∨ a ∈ s.seen → a ∉ s.stack → ∀ b ∈ next a, b ∈ barred ∨ b ∈ s.seen

theorem Sound.step (hdom : ∀ a, ∀ b ∈ next a, b ∈ dom) (h : Sound next barred dom start p k s)
    (hs : s.step next barred = .inl s') : ∃ j < k, Sound next barred dom start p j s' := by
  obtain ⟨seen, stack⟩ := s
  cases stack with
  | nil => cases hs
  | cons a rest =>
      obtain rfl : (next a).foldl (note barred) ⟨seen, rest⟩ = s' := Sum.inl.inj hs
      have ha : ReflTransGen (fun a b => b ∈ next a) p a := by
        rcases h.stacked a List.mem_cons_self with rfl | ha
        · exact .refl
        · exact (h.reached a ha).1
      have hahead : ahead dom ⟨seen, rest⟩ < k := h.ahead_le
      refine ⟨_, hahead, ?_⟩
      constructor
      case ahead_le => exact ahead_foldl_le (hdom a)
      case kept => exact fun q hq => mem_seen_foldl.2 (.inl (h.kept q hq))
      case reached =>
        intro q hq
        rcases mem_seen_foldl.1 hq with hq | ⟨hq, hbar⟩
        · exact h.reached q hq
        · exact ⟨ha.tail hq, .inr hbar⟩
      case stacked =>
        intro q hq
        rcases mem_stack_foldl.1 hq with hq | ⟨hq, hbar, -⟩
        · exact (h.stacked q (List.mem_cons_of_mem _ hq)).imp_right fun hq => mem_seen_foldl.2 (.inl hq)
        · exact .inr (mem_seen_foldl.2 (.inr ⟨hq, hbar⟩))
      case closed =>
        intro b hb hout c hc
        rw [mem_seen_foldl] at hb ⊢
        rw [mem_stack_foldl] at hout
        by_cases hba : b = a
        · -- the path that was just looked at
          subst hba
          by_cases hbar : c ∈ barred
          · exact .inl hbar
          · exact .inr (.inr ⟨hc, hbar⟩)
        · -- any other one that is not on the stack was found before, and was not on the stack then
          have hold : b = p ∨ b ∈ seen := by
            rcases hb with hb | hb | ⟨hb, hbar⟩
            · exact .inl hb
            · exact .inr hb
            · by_contra hn
              exact hout (.inr ⟨hb, hbar, fun hs => hn (.inr hs)⟩)
          have hnot : b ∉ a :: rest := by
            rw [List.mem_cons, not_or]
            exact ⟨hba, fun hb => hout (.inl hb)⟩
          exact (h.closed b hold hnot c hc).imp_right .inl

/-- A search from `p` ends, with what it had to begin with and all that is reached from `p`. -/
theorem exists_run_sweep (barred start : List String) (p : String) (hdom : ∀ a, ∀ b ∈ next a, b ∈ dom)
    (hstart : ∀ q ∈ start, q = p) (hbarred : ∀ q ∈ barred, q = p) (hn : dom.length + 1 < n) :
    ∃ found, Loop.run (Sweep.step next barred) n ⟨start, [p]⟩ = some found ∧
      (p ∈ start → p ∈ found) ∧ (p ∈ barred → p ∈ found → p ∈ start) ∧
      ∀ q, q = p ∨ q ∈ found ↔ ReflTransGen (fun a b => b ∈ next a) p q := by
  have hinit : Sound next barred dom start p (dom.length + 1) ⟨start, [p]⟩ := by
    refine ⟨?_, fun q hq => hq, fun q hq => ⟨by rw [hstart q hq], .inl hq⟩, by simp, fun a ha hout => ?_⟩
    · exact Nat.add_le_add_right List.countP_le_length 1
    · have hap : a = p := ha.elim id (hstart a)
      simp [hap] at hout
  refine Loop.exists_run (Sound next barred dom start p) (fun k s s' => Sound.step hdom) ?_ hinit hn
  intro k s found h hend
  obtain ⟨seen, stack⟩ := s
  cases stack with
  | cons a rest => cases hend
  | nil =>
      obtain rfl : seen = found := Sum.inr.inj hend
      refine ⟨h.kept p, fun hbar hp => (h.reached p hp).2.resolve_right fun hn => hn hbar, fun q => ⟨?_, fun hq => ?_⟩⟩
      · rintro (rfl | hq)
        · exact .refl
        · exact (h.reached q hq).1
      · induction hq with
        | refl => exact .inl rfl
        | tail _ hbc ih =>
            rcases h.closed _ ih (by simp) _ hbc with hbar | hc
            · exact .inl (hbarred _ hbar)
            · exact .inr hc

end Sweep

/-! ### Along edges -/

/-- There is an edge from one path to another, of a kind that `keep` admits. -/
def Leads (r : Roster) (keep : EdgeKind → Bool) (p q : String) : Prop :=
  ∃ e ∈ r.edgesOf p, keep e.kind = true ∧ e.target = q

theorem leads_true : r.Leads (fun _ => true) = fun a b => b ∈ r.targetsOf a := by
  funext a b
  simp [Leads, targetsOf]

/-- What a node needs is what is reached from it. -/
theorem mem_closure : q ∈ r.closure p ↔ ReflTransGen (r.Leads fun _ => true) p q := by
  have hdom : ∀ a, ∀ b ∈ r.targetsOf a, b ∈ (r.entries.flatMap (·.2)).map (·.target) := by
    intro a b hb
    obtain ⟨e, he, rfl⟩ := List.mem_map.1 hb
    exact target_mem_of_mem_edgesOf he
  have hpatience : ((r.entries.flatMap (·.2)).map (·.target)).length + 1 < r.patience := by
    rw [List.length_map, patience]
    omega
  obtain ⟨found, hrun, hp, -, hall⟩ := Sweep.exists_run_sweep [] [p] p hdom (by simp) (by simp) hpatience
  rw [closure, mem_ascending, sweep, hrun, leads_true, ← hall q]
  constructor
  · exact .inr
  · rintro (rfl | hq)
    · exact hp (by simp)
    · exact hq

/-- The dependents of a node are the other nodes from which it is reached. -/
theorem mem_dependentsBy {keep : EdgeKind → Bool} :
    q ∈ r.dependentsBy keep p ↔ q ≠ p ∧ TransGen (r.Leads keep) q p := by
  let sources := r.index fun es => Edge.targets (es.filter fun e => keep e.kind)
  have hsources : ∀ a b, b ∈ (sources.get? a).getD [] ↔ r.Leads keep b a := fun a b => by
    rw [mem_getD_index rfl, Edge.mem_targets]
    simp only [List.mem_filter, Leads, and_assoc]
  have hdom : ∀ a, ∀ b ∈ (sources.get? a).getD [], b ∈ r.nodes := fun a b hb => by
    obtain ⟨e, he, -⟩ := (hsources a b).1 hb
    exact mem_nodes_of_mem_edgesOf he
  have hpatience : r.nodes.length + 1 < r.patience := by
    rw [length_nodes, patience]
    omega
  obtain ⟨found, hrun, -, hp, hall⟩ := Sweep.exists_run_sweep [p] [] p hdom (by simp) (by simp) hpatience
  have hback : (fun a b => b ∈ (sources.get? a).getD []) = Function.swap (r.Leads keep) := by
    funext a b
    exact propext (hsources a b)
  have hreach : q = p ∨ q ∈ found ↔ ReflTransGen (r.Leads keep) q p := by
    rw [hall q, hback, reflTransGen_swap]
  rw [dependentsBy, mem_ascending, sweep, hrun]
  change q ∈ found ↔ _
  constructor
  · intro hq
    have hne : q ≠ p := by
      rintro rfl
      cases hp (by simp) hq
    exact ⟨hne, (reflTransGen_iff_eq_or_transGen.1 (hreach.1 (.inr hq))).resolve_left (Ne.symm hne)⟩
  · rintro ⟨hne, hq⟩
    exact (hreach.2 hq.to_reflTransGen).resolve_left hne

theorem pairwise_closure (r : Roster) (p : String) : (r.closure p).Pairwise (· < ·) := pairwise_ascending _

theorem pairwise_dependentsBy (r : Roster) (keep : EdgeKind → Bool) (p : String) :
    (r.dependentsBy keep p).Pairwise (· < ·) := pairwise_ascending _

/-! ### The same in the graph -/

theorem closure_sorted (r : Roster) (p : String) : r.sorted.closure p = r.closure p := by
  refine List.Pairwise.eq_of_mem_iff (pairwise_ascending _) (r.pairwise_closure p) fun q => ?_
  have hedge : r.sorted.Adjacent = r.Leads fun _ => true := by
    rw [leads_true]
    funext a b
    exact propext adjacent_sorted
  rw [Graph.mem_closure, mem_closure, hedge]

theorem Ordered.dependentsBy_sorted (h : r.Ordered) (keep : EdgeKind → Bool) (p : String) :
    r.sorted.dependentsBy keep p = r.dependentsBy keep p := by
  refine List.Pairwise.eq_of_mem_iff (pairwise_ascending _) (r.pairwise_dependentsBy keep p) fun q => ?_
  rw [Graph.mem_dependentsBy h.wellFormed, Graph.reaches_iff, mem_dependentsBy]
  simp only [edgesOf_sorted]
  refine and_congr_right fun hne => ?_
  exact reflTransGen_iff_eq_or_transGen.trans (or_iff_right (Ne.symm hne))

/-! ### Rosters that are built -/

/-- In a roster that was built, the closure of a path holds the path and the nodes that are reached from it, ascending;
its dependents are the other nodes from which it is reached along edges of the kinds admitted, ascending. A path stands
in the closures of its dependents and of no others but itself. -/
theorem reached_of_built (changes : List Graph.Change) (keep : EdgeKind → Bool) (p : String) :
    ((built changes).closure p).Pairwise (· < ·) ∧
      (∀ q, q ∈ (built changes).closure p ↔
        q = p ∨ (q ∈ (built changes).nodes ∧ TransGen ((built changes).Leads fun _ => true) p q)) ∧
      ((built changes).dependentsBy keep p).Pairwise (· < ·) ∧
      (∀ q, q ∈ (built changes).dependentsBy keep p ↔
        q ∈ (built changes).nodes ∧ q ≠ p ∧ TransGen ((built changes).Leads keep) q p) ∧
      (∀ q, q ∈ (built changes).dependents p ↔ q ≠ p ∧ p ∈ (built changes).closure q) ∧
      (Graph.built changes).closure p = (built changes).closure p ∧
      (Graph.built changes).dependentsBy keep p = (built changes).dependentsBy keep p := by
  have hordered := ordered_built changes
  rw [← sorted_built]
  generalize built changes = r at hordered
  refine ⟨r.pairwise_closure p, fun q => ?_, r.pairwise_dependentsBy keep p, fun q => ?_, fun q => ?_,
    r.closure_sorted p, hordered.dependentsBy_sorted keep p⟩
  · rw [mem_closure, reflTransGen_iff_eq_or_transGen]
    refine or_congr_right (iff_and_self.2 fun hq => ?_)
    obtain ⟨a, -, e, he, -, rfl⟩ := TransGen.tail'_iff.1 hq
    exact hordered.target a e he
  · rw [mem_dependentsBy]
    refine iff_and_self.2 fun ⟨_, hq⟩ => ?_
    obtain ⟨b, ⟨e, he, -⟩, -⟩ := TransGen.head'_iff.1 hq
    exact mem_nodes_of_mem_edgesOf he
  · rw [dependents, mem_dependentsBy, mem_closure]
    refine and_congr_right fun hne => ?_
    rw [reflTransGen_iff_eq_or_transGen, or_iff_right (Ne.symm hne)]

end HashedAssets.Roster
