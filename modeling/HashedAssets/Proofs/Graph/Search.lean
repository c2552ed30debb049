import HashedAssets.Graph.Cycle
import HashedAssets.Proofs.Graph.Edges
import Mathlib.Logic.Relation

/-!
# Searches find what there is to find

* `mem_explore_iff`: the search by levels finds all that is reached, and nothing else;
* `mem_dependentsBy`: what needs a node, as a path in the graph;
* `transGen_of_cycleThrough?`, `not_transGen_of_cycleThrough?_eq_none`: there is a cycle through a
  node just if the search for one finds one.

A search has as many rounds as there are nodes, and one more. `unfinished` counts the nodes whose
neighbours have not been looked at; each round that finds something new makes it smaller.
-/

namespace HashedAssets.Graph

open Relation

variable {g : Graph}

theorem adjacent_iff {p q : String} : g.Adjacent p q ↔ ∃ e ∈ g.edgesOf p, e.target = q := by
  simp [Adjacent, targetsOf]

/-! ### New paths -/

theorem mem_unseen {q : String} {seen ps : List String} :
    q ∈ unseen seen ps ↔ q ∈ ps ∧ q ∉ seen := by
  induction ps generalizing seen with
  | nil => simp [unseen]
  | cons p rest ih =>
      rw [unseen]
      split
      · next h =>
          have hp : p ∈ seen := by simpa using h
          rw [ih, List.mem_cons]
          constructor
          · rintro ⟨h1, h2⟩; exact ⟨.inr h1, h2⟩
          · rintro ⟨rfl | h1, h2⟩
            · exact absurd hp h2
            · exact ⟨h1, h2⟩
      · next h =>
          have hp : p ∉ seen := by simpa using h
          rw [List.mem_cons, ih, List.mem_cons, List.mem_cons, not_or]
          constructor
          · rintro (rfl | ⟨h1, -, h2⟩)
            · exact ⟨.inl rfl, hp⟩
            · exact ⟨.inr h1, h2⟩
          · rintro ⟨rfl | h1, h2⟩
            · exact .inl rfl
            · by_cases hq : q = p
              · exact .inl hq
              · exact .inr ⟨h1, hq, h2⟩

/-! ### Search by levels -/

/-- Of some paths, the number of those that are not seen yet, or stand in the last level. -/
def unfinished (dom frontier seen : List String) : Nat :=
  dom.countP fun a => !(seen.contains a && !frontier.contains a)

theorem countP_lt_of_mem {α : Type} {p q : α → Bool} {l : List α} (h : ∀ x ∈ l, p x → q x) {x : α}
    (hx : x ∈ l) (hp : p x = false) (hq : q x = true) : l.countP p < l.countP q := by
  induction l with
  | nil => cases hx
  | cons y rest ih =>
      rw [List.countP_cons, List.countP_cons]
      have hy : p y → q y := h y List.mem_cons_self
      have hrest : ∀ z ∈ rest, p z → q z := fun z hz => h z (List.mem_cons_of_mem _ hz)
      rcases List.mem_cons.1 hx with rfl | hx
      · have := List.countP_mono_left hrest
        simp only [hp, hq, if_true]
        simp only [Bool.false_eq_true, if_false]
        omega
      · have := ih hrest hx
        split_ifs with h1 h2
        · omega
        · exact absurd (hy h1) h2
        · omega
        · omega

/-- A level of which something new comes has a path whose neighbours had not been looked at. -/
theorem unfinished_lt {dom frontier fresh seen : List String} (hseen : ∀ a ∈ frontier, a ∈ seen)
    (hfresh : ∀ a ∈ fresh, a ∉ seen) {f : String} (hf : f ∈ frontier) (hd : f ∈ dom) :
    unfinished dom fresh (fresh ++ seen) < unfinished dom frontier seen := by
  refine countP_lt_of_mem (fun a _ => ?_) hd ?_ ?_
  · by_cases ha : a ∈ seen
    · have hn : a ∉ fresh := fun h => hfresh a h ha
      simp [ha, hn]
    · simp [ha]
  · have := hseen f hf
    have hn : f ∉ fresh := fun h => hfresh f h this
    simp [this, hn]
  · simp [hf]

section Explore

variable {next : String → List String}

theorem subset_explore {n : Nat} {frontier seen : List String} {a : String} (h : a ∈ seen) :
    a ∈ explore next n frontier seen := by
  induction n generalizing frontier seen with
  | zero => exact h
  | succ n ih =>
      rw [explore]
      split
      · exact h
      · exact ih (List.mem_append_right _ h)

theorem reflTransGen_of_mem_explore {n : Nat} {p : String} {frontier seen : List String}
    (hf : ∀ a ∈ frontier, a ∈ seen) (hs : ∀ a ∈ seen, ReflTransGen (fun a b => b ∈ next a) p a)
    {q : String} (h : q ∈ explore next n frontier seen) :
    ReflTransGen (fun a b => b ∈ next a) p q := by
  induction n generalizing frontier seen with
  | zero => exact hs q h
  | succ n ih =>
      rw [explore] at h
      split at h
      · exact hs q h
      · refine ih (fun a ha => List.mem_append_left _ ha) (fun a ha => ?_) h
        rcases List.mem_append.1 ha with ha | ha
        · obtain ⟨f, hfr, hfa⟩ := List.mem_flatMap.1 (mem_unseen.1 ha).1
          exact (hs f (hf f hfr)).tail hfa
        · exact hs a ha

/-- With enough rounds, all neighbours of what is found are found. -/
theorem explore_closed {dom : List String} (hdom : ∀ a, next a ≠ [] → a ∈ dom) {n : Nat}
    {frontier seen : List String} (hf : ∀ a ∈ frontier, a ∈ seen)
    (hs : ∀ a ∈ seen, a ∉ frontier → ∀ b ∈ next a, b ∈ seen) (hn : unfinished dom frontier seen < n)
    {a b : String} (ha : a ∈ explore next n frontier seen) (hb : b ∈ next a) :
    b ∈ explore next n frontier seen := by
  induction n generalizing frontier seen with
  | zero => exact absurd hn (Nat.not_lt_zero _)
  | succ n ih =>
      have hnew : ∀ c, c ∈ unseen seen (frontier.flatMap next) ↔
          (∃ f ∈ frontier, c ∈ next f) ∧ c ∉ seen := fun c => by
        rw [mem_unseen, List.mem_flatMap]
      rw [explore] at ha ⊢
      split at ha
      · next he =>
          by_cases haf : a ∈ frontier
          · by_contra hbs
            have : b ∈ unseen seen (frontier.flatMap next) := (hnew b).2 ⟨⟨a, haf, hb⟩, hbs⟩
            rw [he] at this
            cases this
          · exact hs a ha haf b hb
      · next hne =>
          obtain ⟨c, hc⟩ := List.exists_mem_of_ne_nil _ hne
          obtain ⟨⟨f, hfr, hfc⟩, -⟩ := (hnew c).1 hc
          have hlt := unfinished_lt hf (fun d hd => ((hnew d).1 hd).2) hfr
            (hdom f (List.ne_nil_of_mem hfc))
          refine ih (fun d hd => List.mem_append_left _ hd) (fun d hd hdn e he => ?_) (by omega) ha
          rcases List.mem_append.1 hd with hd | hd
          · exact absurd hd hdn
          · by_cases hdf : d ∈ frontier
            · by_cases hes : e ∈ seen
              · exact List.mem_append_right _ hes
              · exact List.mem_append_left _ ((hnew e).2 ⟨⟨d, hdf, he⟩, hes⟩)
            · exact List.mem_append_right _ (hs d hd hdf e he)

/-- The search from one path finds what is reached from it. -/
theorem mem_explore_iff {dom : List String} (hdom : ∀ a, next a ≠ [] → a ∈ dom) {n : Nat}
    (hn : dom.length < n) {p q : String} :
    q ∈ explore next n [p] [p] ↔ ReflTransGen (fun a b => b ∈ next a) p q := by
  constructor
  · exact reflTransGen_of_mem_explore (fun _ h => h)
      (fun a ha => by rw [List.mem_singleton.1 ha])
  · intro h
    have hcount : unfinished dom [p] [p] < n := Nat.lt_of_le_of_lt List.countP_le_length hn
    induction h with
    | refl => exact subset_explore (List.mem_singleton.2 rfl)
    | tail _ hbc ih =>
        exact explore_closed hdom (fun _ h => h) (fun a ha hna => absurd ha hna) hcount ih hbc

end Explore

/-! ### What a node needs, and what needs it -/

theorem reaches_iff {keep : EdgeKind → Bool} {p q : String} : g.Reaches keep p q ↔
    ReflTransGen (fun a b => ∃ e ∈ g.edgesOf a, keep e.kind = true ∧ e.target = b) p q := by
  constructor
  · intro h
    induction h with
    | refl => exact .refl
    | step he hk _ ih => exact .head ⟨_, he, hk, rfl⟩ ih
  · intro h
    induction h using ReflTransGen.head_induction_on with
    | refl => exact .refl _
    | head hab _ ih =>
        obtain ⟨e, he, hk, rfl⟩ := hab
        exact .step he hk ih

theorem mem_sourcesOf (hg : g.WellFormed) {keep : EdgeKind → Bool} {p q : String} :
    q ∈ g.sourcesOf keep p ↔ ∃ e ∈ g.edgesOf q, keep e.kind = true ∧ e.target = p := by
  simp only [sourcesOf, edgesTo, List.mem_map, List.mem_filter, beq_iff_eq]
  constructor
  · rintro ⟨e, ⟨⟨he, ht⟩, hk⟩, rfl⟩
    exact ⟨e, (mem_allEdges hg).1 he, hk, ht⟩
  · rintro ⟨e, he, hk, ht⟩
    have hs := hg.source q e he
    exact ⟨e, ⟨⟨(mem_allEdges hg).2 (hs ▸ he), ht⟩, hk⟩, hs⟩

/-- The dependents of a node are the other nodes from which it is reached. -/
theorem mem_dependentsBy (hg : g.WellFormed) {keep : EdgeKind → Bool} {p q : String} :
    q ∈ g.dependentsBy keep p ↔ q ≠ p ∧ g.Reaches keep q p := by
  have hdom : ∀ a, g.sourcesOf keep a ≠ [] → a ∈ g.nodes := fun a ha => by
    obtain ⟨q, hq⟩ := List.exists_mem_of_ne_nil _ ha
    obtain ⟨e, he, -, rfl⟩ := (mem_sourcesOf hg).1 hq
    exact hg.target q e he
  have hlen : g.nodes.length < g.size + 1 := by simp [nodes, size, PathMap.keys, PathMap.size]
  rw [dependentsBy, mem_ascending, List.mem_filter, mem_explore_iff hdom hlen, reaches_iff,
    ← reflTransGen_swap]
  simp only [mem_sourcesOf hg, bne_iff_ne, ne_eq]
  exact and_comm

/-- What a node needs is what is reached from it. -/
theorem mem_closure {p q : String} : q ∈ g.closure p ↔ ReflTransGen g.Adjacent p q := by
  have hdom : ∀ a, g.targetsOf a ≠ [] → a ∈ g.nodes := fun a ha => by
    obtain ⟨q, hq⟩ := List.exists_mem_of_ne_nil _ ha
    obtain ⟨e, he, -⟩ := adjacent_iff.1 hq
    exact mem_nodes_of_mem_edgesOf he
  have hlen : g.nodes.length < g.size + 1 := by simp [nodes, size, PathMap.keys, PathMap.size]
  rw [closure, mem_ascending, mem_explore_iff hdom hlen]
  exact Iff.rfl

/-! ### Cycles through a node -/

theorem lengthen_spec {level : List (List String)} {seen : List String} :
    (∀ trail ∈ (g.lengthen level seen).1, ∃ b rest, trail = b :: rest ∧ rest ∈ level ∧ b ∉ seen ∧
      ∃ a ∈ rest.head?, g.Adjacent a b) ∧
    (∀ q, q ∈ (g.lengthen level seen).2 ↔
      q ∈ seen ∨ q ∈ (g.lengthen level seen).1.filterMap List.head?) ∧
    (∀ trail ∈ level, ∀ a ∈ trail.head?, ∀ b, g.Adjacent a b → b ∈ (g.lengthen level seen).2) := by
  -- trail by trail: what one trail leads to counts as seen for the trails behind it
  induction level generalizing seen with
  | nil => simp [lengthen]
  | cons trail rest ih =>
      rw [lengthen]
      set fresh := unseen seen ((trail.take 1).flatMap g.targetsOf) with hfresh
      have hmem : ∀ b, b ∈ fresh ↔ (∃ a ∈ trail.head?, g.Adjacent a b) ∧ b ∉ seen := fun b => by
        rw [hfresh, mem_unseen]
        cases trail <;> simp [Adjacent]
      obtain ⟨ih1, ih2, ih3⟩ := @ih (fresh ++ seen)
      refine ⟨fun t ht => ?_, fun q => ?_, fun t ht a ha b hb => ?_⟩
      · rcases List.mem_append.1 ht with ht | ht
        · obtain ⟨b, hb, rfl⟩ := List.mem_map.1 ht
          obtain ⟨hadj, hn⟩ := (hmem b).1 hb
          exact ⟨b, trail, rfl, List.mem_cons_self, hn, hadj⟩
        · obtain ⟨b, r, rfl, hr, hn, hadj⟩ := ih1 t ht
          exact ⟨b, r, rfl, List.mem_cons_of_mem _ hr,
            fun h => hn (List.mem_append_right _ h), hadj⟩
      · have hheads : (fresh.map (· :: trail)).filterMap List.head? = fresh := by
          simp [List.filterMap_map, Function.comp_def]
        simp only [List.filterMap_append, hheads, List.mem_append]
        rw [ih2 q, List.mem_append]
        tauto
      · rcases List.mem_cons.1 ht with rfl | ht
        · rw [ih2 b]
          by_cases hs : b ∈ seen
          · exact .inl (List.mem_append_right _ hs)
          · exact .inl (List.mem_append_left _ ((hmem b).2 ⟨⟨a, ha, hb⟩, hs⟩))
        · exact ih3 t ht a ha b hb

theorem leadsTo_iff {goal : String} {trail : List String} :
    g.leadsTo goal trail = true ↔ ∃ a ∈ trail.head?, g.Adjacent a goal := by
  cases trail <;> simp [leadsTo, Adjacent]

theorem cycleSearch_succ (goal : String) (n : Nat) (level : List (List String))
    (seen : List String) : g.cycleSearch goal (n + 1) level seen =
      match level.find? (g.leadsTo goal) with
      | some trail => some trail.reverse
      | none =>
          if (g.lengthen level seen).1.isEmpty then none
          else g.cycleSearch goal n (g.lengthen level seen).1 (g.lengthen level seen).2 := rfl

theorem transGen_of_cycleSearch {goal : String} {n : Nat} {level : List (List String)}
    {seen : List String} {c : List String}
    (hlevel : ∀ trail ∈ level, ∀ a ∈ trail.head?, ReflTransGen g.Adjacent goal a)
    (h : g.cycleSearch goal n level seen = some c) : TransGen g.Adjacent goal goal := by
  induction n generalizing level seen with
  | zero => cases h
  | succ n ih =>
      rw [cycleSearch_succ] at h
      split at h
      · next trail hfind =>
          obtain ⟨a, ha, hadj⟩ := leadsTo_iff.1 (List.find?_some hfind)
          exact .tail' (hlevel trail (List.mem_of_find?_eq_some hfind) a ha) hadj
      · split at h
        · cases h
        · refine ih (fun trail ht a ha => ?_) h
          obtain ⟨b, rest, rfl, hrest, -, a', ha', hadj⟩ := lengthen_spec.1 trail ht
          obtain rfl : b = a := by simpa using ha
          exact (hlevel rest hrest a' ha').tail hadj

/-- A cycle is found through a node only if there is one. -/
theorem transGen_of_cycleThrough? {p : String} {c : List String} (h : g.cycleThrough? p = some c) :
    TransGen g.Adjacent p p := by
  refine transGen_of_cycleSearch (fun trail ht a ha => ?_) h
  obtain rfl := List.mem_singleton.1 ht
  obtain rfl : p = a := by simpa using ha
  exact .refl

/-- Nothing leads out of a closed list of paths. -/
theorem mem_of_reflTransGen {r : String → String → Prop} {l : List String}
    (hl : ∀ a ∈ l, ∀ b, r a b → b ∈ l) {p q : String} (hp : p ∈ l) (h : ReflTransGen r p q) :
    q ∈ l := by
  induction h with
  | refl => exact hp
  | tail _ hbc ih => exact hl _ ih _ hbc

/-- A level with one behind it has a node whose targets had not been looked at. -/
theorem unfinished_lengthen_lt {level : List (List String)} {seen : List String}
    (hlevel : ∀ trail ∈ level, ∀ a ∈ trail.head?, a ∈ seen) (hne : (g.lengthen level seen).1 ≠ []) :
    unfinished g.nodes ((g.lengthen level seen).1.filterMap List.head?) (g.lengthen level seen).2
      < unfinished g.nodes (level.filterMap List.head?) seen := by
  obtain ⟨h1, h2, -⟩ := @lengthen_spec g level seen
  obtain ⟨trail, ht⟩ := List.exists_mem_of_ne_nil _ hne
  obtain ⟨b, rest, rfl, hrest, -, a, ha, e, he, rfl⟩ := by simpa only [adjacent_iff] using h1 trail ht
  have haf : a ∈ level.filterMap List.head? := List.mem_filterMap.2 ⟨rest, hrest, ha⟩
  have hsame : unfinished g.nodes ((g.lengthen level seen).1.filterMap List.head?) (g.lengthen level seen).2
      = unfinished g.nodes ((g.lengthen level seen).1.filterMap List.head?)
          ((g.lengthen level seen).1.filterMap List.head? ++ seen) := by
    unfold unfinished
    congr 1
    funext c
    have : c ∈ (g.lengthen level seen).2 ↔ c ∈ (g.lengthen level seen).1.filterMap List.head? ++ seen := by
      rw [h2 c, List.mem_append, or_comm]
    simp only [List.contains_eq_mem, this]
  rw [hsame]
  refine unfinished_lt (fun c hc => ?_) (fun c hc => ?_) haf (mem_nodes_of_mem_edgesOf he)
  · obtain ⟨t, ht, htc⟩ := List.mem_filterMap.1 hc
    exact hlevel t ht c htc
  · obtain ⟨t, ht, htc⟩ := List.mem_filterMap.1 hc
    obtain ⟨b, r, rfl, -, hn, -⟩ := h1 t ht
    obtain rfl : b = c := by simpa using htc
    exact hn

theorem not_reflTransGen_of_cycleSearch {goal : String} {n : Nat} {level : List (List String)}
    {seen : List String}
    (hlevel : ∀ trail ∈ level, ∀ a ∈ trail.head?, a ∈ seen)
    (hseen : ∀ a ∈ seen, a ∉ level.filterMap List.head? →
      ¬ g.Adjacent a goal ∧ ∀ b, g.Adjacent a b → b ∈ seen)
    (hn : unfinished g.nodes (level.filterMap List.head?) seen < n)
    (h : g.cycleSearch goal n level seen = none) {p q : String} (hp : p ∈ seen)
    (hpq : ReflTransGen g.Adjacent p q) : ¬ g.Adjacent q goal := by
  induction n generalizing level seen with
  | zero => exact absurd hn (Nat.not_lt_zero _)
  | succ n ih =>
      rw [cycleSearch_succ] at h
      split at h
      · cases h
      · next hfind =>
          have hleads : ∀ a ∈ level.filterMap List.head?, ¬ g.Adjacent a goal := fun a ha hadj => by
            obtain ⟨trail, ht, hta⟩ := List.mem_filterMap.1 ha
            exact List.find?_eq_none.1 hfind trail ht (leadsTo_iff.2 ⟨a, hta, hadj⟩)
          obtain ⟨h1, h2, h3⟩ := @lengthen_spec g level seen
          have hheads : ∀ a ∈ level.filterMap List.head?, ∀ b, g.Adjacent a b →
              b ∈ (g.lengthen level seen).2 := fun a ha b hb => by
            obtain ⟨trail, ht, hta⟩ := List.mem_filterMap.1 ha
            exact h3 trail ht a hta b hb
          split at h
          · next hempty =>
              -- nothing new: what is seen is closed, and none of it needs the goal
              have hnil : (g.lengthen level seen).1 = [] := List.isEmpty_iff.1 hempty
              have hclosed : ∀ a ∈ seen, ¬ g.Adjacent a goal ∧ ∀ b, g.Adjacent a b → b ∈ seen := by
                intro a ha
                by_cases hl : a ∈ level.filterMap List.head?
                · refine ⟨hleads a hl, fun b hb => ?_⟩
                  have := (h2 b).1 (hheads a hl b hb)
                  simpa [hnil] using this
                · exact hseen a ha hl
              exact (hclosed q (mem_of_reflTransGen (fun a ha => (hclosed a ha).2) hp hpq)).1
          · next hempty =>
              have hlt := unfinished_lengthen_lt hlevel (by simpa using hempty)
              refine ih (fun t ht c hc => ?_) (fun c hc hcl => ?_) (by omega) h ((h2 p).2 (.inl hp))
              · exact (h2 c).2 (.inr (List.mem_filterMap.2 ⟨t, ht, hc⟩))
              · rcases (h2 c).1 hc with hc | hc
                · by_cases hl : c ∈ level.filterMap List.head?
                  · exact ⟨hleads c hl, hheads c hl⟩
                  · exact ⟨(hseen c hc hl).1, fun d hd => (h2 d).2 (.inl ((hseen c hc hl).2 d hd))⟩
                · exact absurd hc hcl

/-- A cycle through a node is found if there is one. -/
theorem not_transGen_of_cycleThrough?_eq_none {p : String} (h : g.cycleThrough? p = none) :
    ¬ TransGen g.Adjacent p p := by
  intro hc
  obtain ⟨q, hpq, hq⟩ := TransGen.tail'_iff.1 hc
  have hlen : g.nodes.length = g.size := by simp [nodes, size, PathMap.keys, PathMap.size]
  refine not_reflTransGen_of_cycleSearch (fun t ht a ha => ?_) (fun a ha hn => ?_) ?_ h
    (List.mem_singleton.2 rfl) hpq hq
  · obtain rfl := List.mem_singleton.1 ht
    simpa [eq_comm] using ha
  · exact absurd (by simpa using ha) (by simpa using hn)
  · have := List.countP_le_length (l := g.nodes)
      (p := fun a => !([p].contains a && !([[p]].filterMap List.head?).contains a))
    unfold unfinished
    omega

/-! ### Graphs without cycles -/

/-- No node is on a cycle. -/
def Acyclic (g : Graph) : Prop := ∀ p, ¬ TransGen g.Adjacent p p

theorem Acyclic.empty : Acyclic ∅ := fun p h => by
  obtain ⟨q, -, hq⟩ := TransGen.tail'_iff.1 h
  obtain ⟨e, he, -⟩ := adjacent_iff.1 hq
  cases he

theorem Acyclic.mono {g' : Graph} (h : g.Acyclic) (hsub : ∀ p q, g'.Adjacent p q → g.Adjacent p q) :
    g'.Acyclic := fun p hc => h p (TransGen.mono hsub _ _ hc)

theorem Acyclic.setEdges_nil (h : g.Acyclic) (p : String) : (g.setEdges p []).Acyclic := by
  refine h.mono fun a b hab => ?_
  rw [adjacent_iff] at hab ⊢
  obtain ⟨e, he, ht⟩ := hab
  rw [edgesOf_setEdges_nil] at he
  split at he
  · cases he
  · exact ⟨e, he, ht⟩

/-- A path either avoids a node, but for its end, or leads to it and on from it. -/
theorem transGen_avoids_or {r : String → String → Prop} (p : String) {a b : String}
    (h : TransGen r a b) :
    TransGen (fun x y => x ≠ p ∧ r x y) a b ∨ (ReflTransGen r a p ∧ TransGen r p b) := by
  induction h with
  | @single b hab =>
      by_cases ha : a = p
      · subst ha; exact .inr ⟨.refl, .single hab⟩
      · exact .inl (.single ⟨ha, hab⟩)
  | @tail b c hab hbc ih =>
      rcases ih with ih | ⟨h1, h2⟩
      · by_cases hb : b = p
        · subst hb; exact .inr ⟨hab.to_reflTransGen, .single hbc⟩
        · exact .inl (ih.tail ⟨hb, hbc⟩)
      · exact .inr ⟨h1, h2.tail hbc⟩

/-- New edges of a node through which no cycle is found make no cycle. -/
theorem Acyclic.setEdges (h : g.Acyclic) {p : String} {es : List Edge} (hes : Edge.Sorted p es)
    (hp : (g.setEdges p es).cycleThrough? p = none) : (g.setEdges p es).Acyclic := by
  intro q hq
  rcases transGen_avoids_or p hq with hq' | ⟨h1, h2⟩
  · refine h q (TransGen.mono (fun a b hab => ?_) _ _ hq')
    obtain ⟨ha, hab⟩ := hab
    rw [adjacent_iff] at hab ⊢
    simpa only [edgesOf_setEdges hes, if_neg ha] using hab
  · exact not_transGen_of_cycleThrough?_eq_none hp (h2.trans_left h1)

end HashedAssets.Graph
