import HashedAssets.Graph.Cycle
import HashedAssets.Proofs.Graph.Search
import Mathlib.Data.List.Chain
import Mathlib.Data.List.Nodup
import Mathlib.Data.List.Perm.Subperm
import Mathlib.Data.List.Rotate
import Mathlib.Data.List.TakeWhile

/-!
# What a depth-first walk notes

A walk goes along a trail of nodes. A target on the trail closes a cycle, and the cycle is noted; any other target is
finished before the node that it is looked at from.

* `links`, `isCycle_iff`: the steps of a round trip; a cycle is a list of different nodes whose steps are all edges;
* `BeginsSmallest`, `exists_fromSmallest_eq_rotate`: turning a cycle keeps its steps, and puts its smallest path in
  front;
* `IsTrail`, `IsTrail.isCycle`: an edge from the end of a trail back to a node on it closes a cycle;
* `Walk.Sound`: what is noted are cycles, and each edge that leaves a finished node leads to one finished before it or
  belongs to a noted cycle;
* `Later`, `later_visit`: a walk keeps what it knows, and keeps it sound; `sound_walked`: the walk from
  each node in turn is sound and finishes all nodes.
-/

namespace HashedAssets.Graph

variable {g : Graph} {p q first : String} {c l t trail : List String}

/-! ### Round trips -/

/-- The steps of a round trip: from each path to the next one, and from the last one to the first. -/
def links (c : List String) : List (String × String) := c.zip (c.rotate 1)

theorem links_cons (p : String) (l : List String) : links (p :: l) = (p :: l).zip (l ++ [p]) := by
  rw [links, List.rotate_cons_succ, List.rotate_zero]

/-- Where a round trip is begun makes no difference to its steps. -/
theorem mem_links_rotate {x : String × String} (c : List String) (n : Nat) :
    x ∈ links (c.rotate n) ↔ x ∈ links c := by
  have hturn : links (c.rotate n) = (links c).rotate n := by
    rw [links, links, List.rotate_rotate, Nat.add_comm, ← List.rotate_rotate, List.zip_eq_zipWith,
      List.zip_eq_zipWith, List.zipWith_rotate_distrib _ _ _ _ (List.length_rotate c 1).symm]
  rw [hturn, List.mem_rotate]

/-- The last step goes back to the first path. -/
theorem mem_links_of_getLast? (hfirst : q ∈ c.head?) (hlast : p ∈ c.getLast?) : (p, q) ∈ links c := by
  obtain ⟨l, rfl⟩ := List.head?_eq_some_iff.1 hfirst
  obtain ⟨t, ht⟩ := List.getLast?_eq_some_iff.1 hlast
  have hlength : t.length = l.length := by simpa using (congrArg List.length ht).symm
  rw [links_cons, ht, List.zip_append hlength]
  exact List.mem_append_right _ List.mem_cons_self

/-- Each path of a round trip is left by a step of it, to a path of it. -/
theorem exists_mem_links (hp : p ∈ c) : ∃ q ∈ c, (p, q) ∈ links c := by
  have hlength : c.length ≤ (c.rotate 1).length := (List.length_rotate c 1).ge
  rw [← List.map_fst_zip hlength] at hp
  obtain ⟨⟨p', q⟩, hx, rfl⟩ := List.mem_map.1 hp
  exact ⟨q, List.mem_rotate.1 (List.of_mem_zip hx).2, hx⟩

theorem closes_iff (hl : l ≠ []) : g.Closes first l ↔ ∀ x ∈ l.zip (l.tail ++ [first]), g.Adjacent x.1 x.2 := by
  induction l with
  | nil => exact absurd rfl hl
  | cons p rest ih =>
      cases rest with
      | nil => simp [Closes]
      | cons q rest =>
          rw [Closes, ih (List.cons_ne_nil q rest)]
          simp

/-- All steps of a round trip that closes are edges. -/
theorem closes_cons_iff : g.Closes p (p :: l) ↔ ∀ x ∈ links (p :: l), g.Adjacent x.1 x.2 := by
  rw [closes_iff (List.cons_ne_nil p l), links_cons, List.tail_cons]

/-- A cycle is a list of different paths, at least one, whose steps are all edges. -/
theorem isCycle_iff : g.IsCycle c ↔ c ≠ [] ∧ c.Nodup ∧ ∀ x ∈ links c, g.Adjacent x.1 x.2 := by
  constructor
  · rintro ⟨hnodup, p, l, rfl, hcloses⟩
    exact ⟨List.cons_ne_nil p l, hnodup, closes_cons_iff.1 hcloses⟩
  · rintro ⟨hne, hnodup, hedges⟩
    obtain ⟨p, l, rfl⟩ := List.exists_cons_of_ne_nil hne
    exact ⟨hnodup, p, l, rfl, closes_cons_iff.2 hedges⟩

theorem IsCycle.rotate (h : g.IsCycle c) (n : Nat) : g.IsCycle (c.rotate n) := by
  obtain ⟨hne, hnodup, hedges⟩ := isCycle_iff.1 h
  refine isCycle_iff.2 ⟨mt List.rotate_eq_nil_iff.1 hne, List.nodup_rotate.2 hnodup, fun x hx => ?_⟩
  exact hedges x ((mem_links_rotate c n).1 hx)

/-! ### The smallest path in front -/

/-- No path of the list is smaller than the first one. -/
def BeginsSmallest (c : List String) : Prop := ∀ m ∈ c.head?, ∀ p ∈ c, m ≤ p

/-- A list with a path on it goes on, behind all others, with that path. -/
theorem exists_dropWhile_eq_cons (hp : p ∈ c) : ∃ tail, c.dropWhile (· != p) = p :: tail := by
  have hne : c.dropWhile (· != p) ≠ [] := fun hnil => by
    simpa using List.dropWhile_eq_nil_iff.1 hnil p hp
  obtain ⟨x, tail, hx⟩ := List.exists_cons_of_ne_nil hne
  have hhead := List.head?_dropWhile_not (· != p) c
  rw [hx] at hhead
  obtain rfl : x = p := by simpa using hhead
  exact ⟨tail, hx⟩

theorem smallest_mem (first : String) (rest : List String) : smallest first rest ∈ first :: rest := by
  induction rest generalizing first with
  | nil => exact List.mem_cons_self
  | cons q rest ih =>
      have hmem := ih (if q < first then q else first)
      change smallest (if q < first then q else first) rest ∈ first :: q :: rest
      grind

theorem smallest_le (first : String) (rest : List String) : ∀ p ∈ first :: rest, smallest first rest ≤ p := by
  induction rest generalizing first with
  | nil => simp [smallest]
  | cons q rest ih =>
      have hle := ih (if q < first then q else first)
      change ∀ p ∈ first :: q :: rest, smallest (if q < first then q else first) rest ≤ p
      obtain ⟨hnext, hrest⟩ := List.forall_mem_cons.1 hle
      have hboth : (if q < first then q else first) ≤ first ∧ (if q < first then q else first) ≤ q := by
        split
        · next hlt => exact ⟨String.not_lt.1 (String.lt_asymm hlt), String.le_refl q⟩
        · next hge => exact ⟨String.le_refl first, String.not_lt.1 hge⟩
      simp only [List.forall_mem_cons]
      exact ⟨String.le_trans hnext hboth.1, String.le_trans hnext hboth.2, hrest⟩

/-- The turned cycle is the cycle begun elsewhere, at its smallest path. -/
theorem exists_fromSmallest_eq_rotate (c : List String) :
    (∃ n, fromSmallest c = c.rotate n) ∧ BeginsSmallest (fromSmallest c) := by
  cases c with
  | nil => exact ⟨⟨0, rfl⟩, by simp [BeginsSmallest, fromSmallest]⟩
  | cons p rest =>
      have hmem := smallest_mem p rest
      have hle := smallest_le p rest
      have hturn : fromSmallest (p :: rest) = (p :: rest).dropWhile (· != smallest p rest)
          ++ (p :: rest).takeWhile (· != smallest p rest) := rfl
      rw [hturn]
      generalize smallest p rest = m at hmem hle
      generalize p :: rest = c at hmem hle ⊢
      have hsplit : c.takeWhile (· != m) ++ c.dropWhile (· != m) = c := List.takeWhile_append_dropWhile
      refine ⟨⟨(c.takeWhile (· != m)).length, ?_⟩, fun x hx q hq => ?_⟩
      · nth_rewrite 3 [← hsplit]
        exact (List.rotate_append_length_eq _ _).symm
      · obtain ⟨tail, htail⟩ := exists_dropWhile_eq_cons hmem
        rw [htail] at hx
        obtain rfl : m = x := by simpa using hx
        refine hle q ?_
        rw [← hsplit]
        exact List.mem_append.2 (List.mem_append.1 hq).symm

/-! ### Trails -/

/-- Different nodes, the last one in front, each needed by the one behind it. -/
structure IsTrail (g : Graph) (trail : List String) : Prop where
  nodup : trail.Nodup
  chain : trail.IsChain fun p q => g.Adjacent q p

theorem IsTrail.cons (h : g.IsTrail (p :: trail)) (hpq : g.Adjacent p q) (hq : q ∉ p :: trail) :
    g.IsTrail (q :: p :: trail) :=
  ⟨List.nodup_cons.2 ⟨hq, h.nodup⟩, List.isChain_cons_cons.2 ⟨hpq, h.chain⟩⟩

theorem closes_concat : g.Closes first (l ++ [p]) ↔ (l = [] ∨ g.Closes p l) ∧ g.Adjacent p first := by
  induction l with
  | nil => simp [Closes]
  | cons q rest ih =>
      cases rest with
      | nil => simp [Closes]
      | cons r rest =>
          rw [List.cons_append, List.cons_append, Closes, ← List.cons_append, ih, Closes]
          simp [and_assoc]

/-- A trail walked from its beginning closes if its last node needs the first. -/
theorem closes_reverse (hchain : (p :: t).IsChain fun p q => g.Adjacent q p) (hp : g.Adjacent p first) :
    g.Closes first (p :: t).reverse := by
  induction t generalizing p first with
  | nil => exact hp
  | cons q t ih =>
      obtain ⟨hqp, hchain⟩ := List.isChain_cons_cons.1 hchain
      rw [List.reverse_cons, closes_concat]
      exact ⟨.inr (ih hchain hqp), hp⟩

/-- The cycle that an edge from the end of a trail back to a node on it closes. -/
def closed (trail : List String) (q : String) : List String := q :: (trail.takeWhile (· != q)).reverse

/-- It is a cycle, and the edge is a step of it. -/
theorem IsTrail.isCycle (h : g.IsTrail (p :: trail)) (hpq : g.Adjacent p q) (hq : q ∈ p :: trail) :
    g.IsCycle (closed (p :: trail) q) ∧ (p, q) ∈ links (closed (p :: trail) q) := by
  obtain ⟨rest, hrest⟩ := exists_dropWhile_eq_cons hq
  have hsplit : (p :: trail).takeWhile (· != q) ++ q :: rest = p :: trail := by
    rw [← hrest, List.takeWhile_append_dropWhile]
  have hclosed : closed (p :: trail) q = ((p :: trail).takeWhile (· != q) ++ [q]).reverse := by
    rw [closed, List.reverse_append]
    rfl
  -- the part of the trail that is on the cycle, with the node that it ends with in front
  obtain ⟨t, ht⟩ : ∃ t, (p :: trail).takeWhile (· != q) ++ [q] = p :: t := by
    cases hfront : (p :: trail).takeWhile (· != q) with
    | nil =>
        rw [hfront] at hsplit
        exact ⟨[], by rw [(List.cons.inj hsplit).1]; rfl⟩
    | cons x front =>
        rw [hfront] at hsplit
        exact ⟨front ++ [q], by rw [(List.cons.inj hsplit).1]; rfl⟩
  have hpart : p :: t ++ rest = p :: trail := by
    rw [← ht, List.append_assoc, List.singleton_append, hsplit]
  have hnodup : (p :: t).Nodup := (List.nodup_append'.1 (hpart ▸ h.nodup)).1
  have hchain := (hpart ▸ h.chain).left_of_append
  rw [ht] at hclosed
  refine ⟨⟨?_, q, _, rfl, ?_⟩, mem_links_of_getLast? rfl ?_⟩
  · rw [hclosed]
    exact List.nodup_reverse.2 hnodup
  · rw [hclosed]
    exact closes_reverse hchain hpq
  · rw [hclosed, List.getLast?_reverse]
    rfl

/-! ### The walk -/

/-- A step belongs to a noted cycle. -/
def Walk.Notes (w : Walk) (p q : String) : Prop := ∃ c ∈ w.cycles, (p, q) ∈ links c

/-- What a walk knows is right: what is noted are cycles, each once and with its smallest path in front; and an edge
that leaves a finished node leads to one that was finished before it, or belongs to a noted cycle. -/
structure Walk.Sound (g : Graph) (w : Walk) : Prop where
  cycle : ∀ c ∈ w.cycles, g.IsCycle c ∧ BeginsSmallest c
  nodup : w.cycles.Nodup
  before : ∀ p earlier, p :: earlier <:+ w.finished → ∀ q, g.Adjacent p q → q ∈ earlier ∨ w.Notes p q

/-- What a part of a walk does: nothing is lost, and what was right stays right. -/
structure Later (g : Graph) (w w' : Walk) : Prop where
  cycles : ∀ c ∈ w.cycles, c ∈ w'.cycles
  finished : ∀ p ∈ w.finished, p ∈ w'.finished
  sound : w.Sound g → w'.Sound g

/-- A node's target is finished, or the step to it belongs to a noted cycle. -/
def Walk.DealsWith (w : Walk) (p q : String) : Prop := q ∈ w.finished ∨ w.Notes p q

theorem Walk.Notes.mono {w w' : Walk} (h : w.Notes p q) (hw : ∀ c ∈ w.cycles, c ∈ w'.cycles) : w'.Notes p q := by
  obtain ⟨c, hc, hpq⟩ := h
  exact ⟨c, hw c hc, hpq⟩

theorem Walk.DealsWith.mono {w w' : Walk} (h : w.DealsWith p q) (hcycles : ∀ c ∈ w.cycles, c ∈ w'.cycles)
    (hfinished : ∀ p ∈ w.finished, p ∈ w'.finished) : w'.DealsWith p q :=
  h.imp (hfinished q) fun hnoted => hnoted.mono hcycles

namespace Later

variable {w w' w'' : Walk}

theorem refl (w : Walk) : g.Later w w := ⟨fun _ => id, fun _ => id, id⟩

theorem trans (h : g.Later w w') (h' : g.Later w' w'') : g.Later w w'' :=
  ⟨fun c hc => h'.cycles c (h.cycles c hc), fun p hp => h'.finished p (h.finished p hp),
    fun hs => h'.sound (h.sound hs)⟩

/-- One path after the other: what is done for one of them stays done. -/
theorem foldl {P : Walk → String → Prop} {f : Walk → String → Walk} {ps : List String}
    (hmono : ∀ w w' p, g.Later w w' → P w p → P w' p)
    (hf : ∀ w, ∀ p ∈ ps, g.Later w (f w p) ∧ P (f w p) p) (w : Walk) :
    g.Later w (ps.foldl f w) ∧ ∀ p ∈ ps, P (ps.foldl f w) p := by
  induction ps generalizing w with
  | nil => exact ⟨refl w, by simp⟩
  | cons p rest ih =>
      obtain ⟨hlater, hdone⟩ := hf w p List.mem_cons_self
      obtain ⟨hrest, hall⟩ := ih (fun w q hq => hf w q (List.mem_cons_of_mem _ hq)) (f w p)
      rw [List.foldl_cons]
      refine ⟨hlater.trans hrest, ?_⟩
      rw [List.forall_mem_cons]
      exact ⟨hmono _ _ p hrest hdone, hall⟩

theorem note (hc : g.IsCycle c) (hsmall : BeginsSmallest c) (w : Walk) :
    g.Later w (w.note c) ∧ c ∈ (w.note c).cycles := by
  unfold Walk.note
  split
  · next hold => exact ⟨refl w, by simpa using hold⟩
  · next hnew =>
      have hmono : ∀ c' ∈ w.cycles, c' ∈ c :: w.cycles := fun _ => List.mem_cons_of_mem c
      refine ⟨⟨hmono, fun _ => id, fun hs => ⟨?_, ?_, ?_⟩⟩, List.mem_cons_self⟩
      · exact List.forall_mem_cons.2 ⟨⟨hc, hsmall⟩, hs.cycle⟩
      · exact List.nodup_cons.2 ⟨by simpa using hnew, hs.nodup⟩
      · exact fun p earlier hp q hq => (hs.before p earlier hp q hq).imp_right fun h => h.mono hmono

/-- A node all whose targets are dealt with may be finished. -/
theorem finish (htargets : ∀ q ∈ g.targetsOf p, w.DealsWith p q) :
    g.Later w { w with finished := p :: w.finished } where
  cycles := fun _ => id
  finished := fun _ => List.mem_cons_of_mem p
  sound := fun hs => by
    refine ⟨hs.cycle, hs.nodup, fun q earlier hsuffix r hr => ?_⟩
    rcases List.suffix_cons_iff.1 hsuffix with heq | hsuffix
    · obtain ⟨rfl, rfl⟩ := List.cons.inj heq
      exact htargets r hr
    · exact hs.before q earlier hsuffix r hr

end Later

/-- What a walk does about a target of the node at the end of its trail. -/
def look (g : Graph) (n : Nat) (trail : List String) (w : Walk) (q : String) : Walk :=
  if trail.contains q then w.note (fromSmallest (closed trail q))
  else if w.finished.contains q || !g.hasNode q then w
  else visit g n trail q w

theorem visit_succ (g : Graph) (n : Nat) (trail : List String) (p : String) (w : Walk) :
    visit g (n + 1) trail p w =
      { (g.targetsOf p).foldl (look g n (p :: trail)) w with
        finished := p :: ((g.targetsOf p).foldl (look g n (p :: trail)) w).finished } := rfl

/-- A target on the trail closes a cycle, a finished one is left, any other one is visited. -/
theorem later_look (hg : g.WellFormed) {n : Nat} (w : Walk) (htrail : g.IsTrail (p :: trail)) (hpq : g.Adjacent p q)
    (hvisit : q ∉ p :: trail → q ∈ g.nodes →
      g.Later w (visit g n (p :: trail) q w) ∧ q ∈ (visit g n (p :: trail) q w).finished) :
    g.Later w (look g n (p :: trail) w q) ∧ (look g n (p :: trail) w q).DealsWith p q := by
  obtain ⟨e, he, rfl⟩ := adjacent_iff.1 hpq
  have hnode : e.target ∈ g.nodes := hg.target p e he
  unfold look
  split
  · next hold =>
      obtain ⟨hcycle, hlink⟩ := htrail.isCycle hpq (by simpa using hold)
      obtain ⟨⟨k, hturn⟩, hsmall⟩ := exists_fromSmallest_eq_rotate (closed (p :: trail) e.target)
      obtain ⟨hlater, hmem⟩ := Later.note (hturn ▸ hcycle.rotate k) hsmall w
      exact ⟨hlater, .inr ⟨_, hmem, hturn ▸ (mem_links_rotate _ k).2 hlink⟩⟩
  · next hnew =>
      split
      · next hold =>
          have hold : e.target ∈ w.finished := by simpa [hasNode_iff.2 hnode] using hold
          exact ⟨Later.refl w, .inl hold⟩
      · obtain ⟨hlater, hfinished⟩ := hvisit (by simpa using hnew) hnode
        exact ⟨hlater, .inl hfinished⟩

/-- A walk on from a node at the end of a trail finishes it. Before the walk could run out of steps, its trail would
hold more nodes than there are. -/
theorem later_visit (hg : g.WellFormed) {n : Nat} (w : Walk) (htrail : g.IsTrail (p :: trail))
    (hsub : ∀ q ∈ p :: trail, q ∈ g.nodes) (hn : g.size ≤ n + trail.length) :
    g.Later w (visit g n trail p w) ∧ p ∈ (visit g n trail p w).finished := by
  induction n generalizing trail p w with
  | zero =>
      have hle : (p :: trail).length ≤ g.nodes.length := (List.Nodup.subperm htrail.nodup hsub).length_le
      have hlen : g.nodes.length = g.size := by simp [nodes, size, PathMap.keys, PathMap.size]
      rw [List.length_cons] at hle
      omega
  | succ n ih =>
      have hstep : ∀ w, ∀ q ∈ g.targetsOf p, g.Later w (look g n (p :: trail) w q) ∧
          (look g n (p :: trail) w q).DealsWith p q := fun w q hq =>
        later_look hg w htrail hq fun hnew hnode => ih w (htrail.cons hq hnew)
          (List.forall_mem_cons.2 ⟨hnode, hsub⟩) (by rw [List.length_cons]; omega)
      obtain ⟨hlater, htargets⟩ := Later.foldl (P := fun w q => w.DealsWith p q)
        (fun _ _ _ h hdone => hdone.mono h.cycles h.finished) hstep w
      rw [visit_succ]
      exact ⟨hlater.trans (Later.finish htargets), List.mem_cons_self⟩

/-- What the walk from each node in turn knows at its end. -/
def walked (g : Graph) : Walk :=
  g.nodes.foldl (fun w p => if w.finished.contains p then w else visit g g.size [] p w) ⟨[], []⟩

theorem cycles_eq_walked (g : Graph) : g.cycles = g.walked.cycles.reverse := rfl

/-- The whole walk is right, and finishes every node. -/
theorem sound_walked (hg : g.WellFormed) : g.walked.Sound g ∧ ∀ p ∈ g.nodes, p ∈ g.walked.finished := by
  have hstep : ∀ w, ∀ p ∈ g.nodes, g.Later w (if w.finished.contains p then w else visit g g.size [] p w) ∧
      p ∈ (if w.finished.contains p then w else visit g g.size [] p w).finished := by
    intro w p hp
    split
    · next hold => exact ⟨Later.refl w, by simpa using hold⟩
    · exact later_visit hg w ⟨by simp, by simp⟩ (by simpa using hp) (by simp)
  obtain ⟨hlater, hall⟩ := Later.foldl (P := fun w p => p ∈ w.finished) (fun _ _ _ h => h.finished _) hstep ⟨[], []⟩
  refine ⟨hlater.sound ⟨by simp, by simp, fun p earlier hsuffix => ?_⟩, hall⟩
  cases List.suffix_nil.1 hsuffix

end HashedAssets.Graph
