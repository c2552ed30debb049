import HashedAssets.Graph.Roster.Search
import HashedAssets.Proofs.Graph.Levels
import HashedAssets.Proofs.Graph.Roster

/-!
# A shortest cycle, found with a queue

The queue holds the rest of one level and the beginning of the next one, and the parents tell the trails of both. So
the search with a queue finds what the search by levels finds.

* `Traced`, `run_back`: the way that the parents tell, and the walk along it;
* `Grounded`, `exists_run_chase`: each node that is found has such a way, and the search ends;
* `Follows`, `run_level`: a queue beside a level, and what becomes of it while the level is gone through;
* `shortest_of_chase`: the search with a queue ends, with a shortest cycle if there is one.
-/

namespace HashedAssets.Roster

variable {r : Roster} {goal p q x : String} {es : List Edge} {queue way trail t dom seen : List String}
  {parent parent' : PathMap String} {level later : List (List String)} {k n : Nat}

namespace Chase

/-! ### The way back -/

/-- The way from the path in front back to `goal`, as the parents tell it. -/
def Traced (goal : String) (parent : PathMap String) : List String → Prop
  | [] => False
  | [p] => p = goal
  | p :: q :: rest => p ≠ goal ∧ parent.get? p = some q ∧ Traced goal parent (q :: rest)

theorem Traced.mono (h : Traced goal parent trail) (hsub : ∀ a b, parent.get? a = some b → parent'.get? a = some b) :
    Traced goal parent' trail := by
  induction trail with
  | nil => exact h
  | cons p t ih =>
      cases t with
      | nil => exact h
      | cons q t => exact ⟨h.1, hsub p q h.2.1, ih h.2.2⟩

theorem Traced.found (h : Traced goal parent (p :: t)) : p = goal ∨ parent.contains p = true := by
  cases t with
  | nil => exact .inl h
  | cons q t =>
      obtain ⟨-, hq, -⟩ := h
      right
      rw [PathMap.contains, hq]
      rfl

/-- The walk back takes one step for each path on the way. -/
theorem run_back (h : Traced goal parent (p :: t)) (way : List String) :
    Loop.run (step r goal) (t.length + 1) (.back p way parent) = some (.ok (some ((p :: t).reverse ++ way))) := by
  induction t generalizing p way with
  | nil =>
      obtain rfl : p = goal := h
      exact Loop.run_of_inr (by simp [step]) 0
  | cons q t ih =>
      obtain ⟨hne, hq, hrest⟩ := h
      have hstep : step r goal (.back p way parent) = .inl (.back q (p :: way) parent) := by
        simp only [step, if_neg hne, hq]
      rw [Loop.run_of_inl hstep, List.length_cons, ih hrest, List.reverse_cons (a := p), List.append_assoc]
      rfl

/-! ### The search ends -/

/-- A node that has been found: the goal, or one that has a parent. -/
def Found (goal : String) (parent : PathMap String) (q : String) : Prop := q = goal ∨ parent.contains q = true

/-- The paths that have no parent yet. -/
def orphans (dom : List String) (parent : PathMap String) : Nat := dom.countP fun q => !parent.contains q

/-- From each node that was found there is a way back, and it grows only when a path gets a parent. -/
def Grounded (goal : String) (dom : List String) (parent : PathMap String) : Prop :=
  ∀ q, Found goal parent q → ∃ t, Traced goal parent (q :: t) ∧ t.length + orphans dom parent ≤ dom.length

theorem contains_insert : (parent.insert p q).contains x = true ↔ x = p ∨ parent.contains x = true := by
  unfold PathMap.contains
  rw [PathMap.get?_insert]
  split <;> simp_all

/-- A path that gets its parent keeps all that is known. -/
theorem get?_insert_of_not_contains (hnew : parent.contains p = false) (a b : String)
    (h : parent.get? a = some b) : (parent.insert p q).get? a = some b := by
  rw [PathMap.get?_insert, if_neg, h]
  rintro rfl
  rw [PathMap.contains, h] at hnew
  cases hnew

theorem orphans_insert_lt (hp : p ∈ dom) (hnew : parent.contains p = false) :
    orphans dom (parent.insert p q) < orphans dom parent := by
  refine Graph.countP_lt_of_mem (fun x _ hx => ?_) hp ?_ (by simpa using hnew)
  · rw [Bool.not_eq_true', Bool.eq_false_iff] at hx ⊢
    exact fun h => hx (contains_insert.2 (.inr h))
  · rw [Bool.not_eq_false']
    exact contains_insert.2 (.inl rfl)

theorem Grounded.insert (h : Grounded goal dom parent) (hq : Found goal parent q) (hp : p ∈ dom)
    (hgoal : p ≠ goal) (hnew : parent.contains p = false) : Grounded goal dom (parent.insert p q) := by
  have hlt : orphans dom (parent.insert p q) < orphans dom parent := orphans_insert_lt hp hnew
  have hmono := get?_insert_of_not_contains (q := q) hnew
  intro x hx
  by_cases hxp : x = p
  · subst hxp
    obtain ⟨t, ht, hle⟩ := h q hq
    refine ⟨q :: t, ⟨hgoal, PathMap.get?_insert_self parent x q, ht.mono hmono⟩, ?_⟩
    rw [List.length_cons]
    omega
  · have hold : Found goal parent x := hx.imp_right fun hx => (contains_insert.1 hx).resolve_left hxp
    obtain ⟨t, ht, hle⟩ := h x hold
    exact ⟨t, ht.mono hmono, by omega⟩

/-- What holds of a search that has `k` steps ahead of it at most. -/
def Sound (goal : String) (dom : List String) (k : Nat) : Chase → Prop
  | .out queue parent => Grounded goal dom parent ∧ (∀ q ∈ queue, Found goal parent q) ∧
      orphans dom parent + queue.length + dom.length + 2 ≤ k
  | .back p _ parent => ∃ t, Traced goal parent (p :: t) ∧ t.length < k

theorem Sound.look (hes : ∀ e ∈ es, e.target ∈ dom) (hp : Found goal parent p)
    (h : Sound goal dom k (.out queue parent)) : Sound goal dom k (look goal p es queue parent) := by
  induction es generalizing queue parent with
  | nil => exact h
  | cons e rest ih =>
      obtain ⟨hground, hqueue, hle⟩ := h
      have hrest : ∀ e ∈ rest, e.target ∈ dom := fun f hf => hes f (List.mem_cons_of_mem _ hf)
      unfold Chase.look
      split
      · obtain ⟨t, ht, hlength⟩ := hground p hp
        exact ⟨t, ht, by omega⟩
      · next hgoal =>
          split
          · exact ih hrest hp ⟨hground, hqueue, hle⟩
          · next hnew =>
              have hnew : parent.contains e.target = false := by simpa using hnew
              have he : e.target ∈ dom := hes e List.mem_cons_self
              have hlt : orphans dom (parent.insert e.target p) < orphans dom parent := orphans_insert_lt he hnew
              have hfound : ∀ x, Found goal parent x → Found goal (parent.insert e.target p) x := fun x hx =>
                hx.imp_right fun hx => contains_insert.2 (.inr hx)
              refine ih hrest (hfound p hp) ⟨hground.insert hp he hgoal hnew, fun x hx => ?_, ?_⟩
              · rcases List.mem_append.1 hx with hx | hx
                · exact hfound x (hqueue x hx)
                · exact .inr (contains_insert.2 (.inl (List.mem_singleton.1 hx)))
              · rw [List.length_append, List.length_singleton]
                omega

/-- Each step leaves fewer ahead. -/
theorem Sound.next {s s' : Chase} (hdom : ∀ p, ∀ e ∈ r.edgesOf p, e.target ∈ dom) (h : Sound goal dom k s)
    (hs : step r goal s = .inl s') : ∃ j < k, Sound goal dom j s' := by
  match s with
  | .out [] _ => cases hs
  | .out (p :: queue) parent =>
      obtain rfl := Sum.inl.inj hs
      obtain ⟨hground, hqueue, hle⟩ := h
      rw [List.length_cons] at hle
      refine ⟨k - 1, by omega, Sound.look (hdom p) (hqueue p List.mem_cons_self) ⟨hground, fun q hq => ?_, by omega⟩⟩
      exact hqueue q (List.mem_cons_of_mem _ hq)
  | .back p way parent =>
      obtain ⟨t, ht, hlt⟩ := h
      cases t with
      | nil =>
          obtain rfl : p = goal := ht
          simp [step] at hs
      | cons q t =>
          obtain ⟨hne, hq, hrest⟩ := ht
          simp only [step, if_neg hne, hq, Sum.inl.injEq] at hs
          exact ⟨(q :: t).length, hlt, hs ▸ ⟨t, hrest, Nat.lt_succ_self _⟩⟩

/-- The search does not come to a node without a parent. -/
theorem Sound.last {s : Chase} {a : Except String (Option (List String))} (h : Sound goal dom k s)
    (hs : step r goal s = .inr a) : ∃ c?, a = .ok c? := by
  match s with
  | .out [] _ => exact ⟨none, (Sum.inr.inj hs).symm⟩
  | .out (p :: queue) parent => cases hs
  | .back p way parent =>
      obtain ⟨t, ht, -⟩ := h
      cases t with
      | nil =>
          obtain rfl : p = goal := ht
          simp only [step, if_true, Sum.inr.injEq] at hs
          exact ⟨_, hs.symm⟩
      | cons q t =>
          obtain ⟨hne, hq, -⟩ := ht
          simp [step, hne, hq] at hs

/-- The search and the walk back end. -/
theorem exists_run_chase (r : Roster) (p : String) :
    ∃ c?, Loop.run (step r p) r.patience (.out [p] ∅) = some (.ok c?) := by
  let dom := (r.entries.flatMap (·.2)).map (·.target)
  have hdom : ∀ p, ∀ e ∈ r.edgesOf p, e.target ∈ dom := fun p e he => target_mem_of_mem_edgesOf he
  have hlength : dom.length = (r.entries.flatMap (·.2)).length := List.length_map _
  have hinit : Sound p dom (2 * dom.length + 3) (.out [p] ∅) := by
    refine ⟨fun q hq => ?_, fun q hq => .inl (List.mem_singleton.1 hq), ?_⟩
    · have hqp : q = p := hq.resolve_right (by simp [PathMap.contains])
      have hle : orphans dom ∅ ≤ dom.length := List.countP_le_length
      exact ⟨[], hqp, by simpa using hle⟩
    · have hle : orphans dom ∅ ≤ dom.length := List.countP_le_length
      rw [List.length_singleton]
      omega
  have hpatience : 2 * dom.length + 3 < r.patience := by
    rw [hlength, patience]
    omega
  obtain ⟨a, ha, c?, rfl⟩ := Loop.exists_run (Sound p dom) (fun k s s' => Sound.next hdom)
    (fun k s a => Sound.last) hinit hpatience
  exact ⟨c?, ha⟩

/-! ### The queue beside the levels -/

/-- The nodes of a level, in the order of their trails. -/
def heads (level : List (List String)) : List String := level.filterMap List.head?

theorem heads_map_cons (trail fresh : List String) : heads (fresh.map (· :: trail)) = fresh := by
  simp [heads, List.filterMap_map, Function.comp_def]

/-- The parents tell the trails of a level, and of what is seen. -/
structure Follows (goal : String) (level : List (List String)) (seen : List String) (parent : PathMap String) :
    Prop where
  traced : ∀ t ∈ level, Traced goal parent t
  seen_iff : ∀ q, q ∈ seen ↔ Found goal parent q

/-- If no edge leads to the goal, what is new goes to the end of the queue. -/
theorem look_eq_out (hgoal : ∀ e ∈ es, e.target ≠ goal) (hseen : ∀ q, q ∈ seen ↔ Found goal parent q)
    (queue : List String) : ∃ parent', look goal p es queue parent
        = .out (queue ++ Graph.unseen seen (Edge.targets es)) parent' ∧
      (∀ a b, parent.get? a = some b → parent'.get? a = some b) ∧
      (∀ q ∈ Graph.unseen seen (Edge.targets es), q ≠ goal ∧ parent'.get? q = some p) ∧
      ∀ q, q ∈ Graph.unseen seen (Edge.targets es) ++ seen ↔ Found goal parent' q := by
  induction es generalizing seen queue parent with
  | nil =>
      have hnone : Graph.unseen seen (Edge.targets []) = [] := rfl
      rw [hnone]
      exact ⟨parent, by simp [look], fun _ _ => id, by simp, hseen⟩
  | cons e rest ih =>
      have hne : e.target ≠ goal := hgoal e List.mem_cons_self
      have hrest : ∀ e ∈ rest, e.target ≠ goal := fun f hf => hgoal f (List.mem_cons_of_mem _ hf)
      have hcontains : e.target ∈ seen ↔ parent.contains e.target = true :=
        (hseen e.target).trans (or_iff_right hne)
      have htargets : Edge.targets (e :: rest) = e.target :: Edge.targets rest := rfl
      rw [look, if_neg hne, htargets, Graph.unseen]
      -- a target that was found before is passed over, a new one keeps the path it was found from
      by_cases hold : e.target ∈ seen
      · rw [if_pos (hcontains.1 hold), if_pos (by simpa using hold)]
        exact ih hrest hseen queue
      · have hnew : parent.contains e.target = false := by simpa using mt hcontains.2 hold
        rw [if_neg (mt hcontains.2 hold), if_neg (by simpa using hold)]
        have hseen' : ∀ q, q ∈ e.target :: seen ↔ Found goal (parent.insert e.target p) q := fun q => by
          rw [List.mem_cons, hseen q, Found, Found, contains_insert]
          tauto
        obtain ⟨parent', hlook, hmono, hfresh, hfound⟩ := ih hrest hseen' (queue ++ [e.target])
        refine ⟨parent', by rw [hlook, List.append_assoc]; rfl, fun a b hab => ?_, fun q hq => ?_, fun q => ?_⟩
        · exact hmono a b (get?_insert_of_not_contains hnew a b hab)
        · rcases List.mem_cons.1 hq with rfl | hq
          · exact ⟨hne, hmono _ _ (PathMap.get?_insert_self parent e.target p)⟩
          · exact hfresh q hq
        · rw [← hfound q]
          simp only [List.mem_append, List.mem_cons]
          tauto

/-- If an edge leads to the goal, the way back begins. -/
theorem look_eq_back (hgoal : ∃ e ∈ es, e.target = goal) (queue : List String) (parent : PathMap String) :
    ∃ parent', look goal p es queue parent = .back p [] parent' ∧
      ∀ a b, parent.get? a = some b → parent'.get? a = some b := by
  induction es generalizing queue parent with
  | nil => obtain ⟨e, he, -⟩ := hgoal; cases he
  | cons e rest ih =>
      unfold look
      split
      · exact ⟨parent, rfl, fun _ _ => id⟩
      · next hne =>
          have hrest : ∃ e ∈ rest, e.target = goal := by
            obtain ⟨f, hf, hfgoal⟩ := hgoal
            rcases List.mem_cons.1 hf with rfl | hf
            · exact absurd hfgoal hne
            · exact ⟨f, hf, hfgoal⟩
          split
          · exact ih hrest queue parent
          · next hnew =>
              obtain ⟨parent', hlook, hmono⟩ := ih hrest (queue ++ [e.target]) (parent.insert e.target p)
              have hnew : parent.contains e.target = false := by simpa using hnew
              exact ⟨parent', hlook, fun a b hab => hmono a b (get?_insert_of_not_contains hnew a b hab)⟩

theorem Traced.exists_cons (h : Traced goal parent trail) : ∃ p t, trail = p :: t := by
  cases trail with
  | nil => cases h
  | cons p t => exact ⟨p, t, rfl⟩

/-- A node that does not need the goal is looked at: its trail is made longer. -/
theorem Follows.advance (h : Follows goal (trail :: level) seen parent)
    (hleads : ¬ r.sorted.leadsTo goal trail = true) :
    ∃ parent', Follows goal
          (level ++ (Graph.unseen seen ((trail.take 1).flatMap r.sorted.targetsOf)).map (· :: trail))
          (Graph.unseen seen ((trail.take 1).flatMap r.sorted.targetsOf) ++ seen) parent' ∧
      step r goal (.out (heads (trail :: level)) parent) = .inl (.out (heads
          (level ++ (Graph.unseen seen ((trail.take 1).flatMap r.sorted.targetsOf)).map (· :: trail))) parent') := by
  have htraced := h.traced trail List.mem_cons_self
  obtain ⟨p, t, rfl⟩ := htraced.exists_cons
  have htargets : ((p :: t).take 1).flatMap r.sorted.targetsOf = Edge.targets (r.edgesOf p) := by
    simp [targetsOf]
  have hgoal : ∀ e ∈ r.edgesOf p, e.target ≠ goal := fun e he hgoal => by
    refine hleads (Graph.leadsTo_iff.2 ⟨p, rfl, adjacent_sorted.2 ?_⟩)
    exact hgoal ▸ List.mem_map_of_mem he
  obtain ⟨parent', hlook, hmono, hfresh, hseen⟩ := look_eq_out (p := p) hgoal h.seen_iff (heads level)
  rw [htargets]
  refine ⟨parent', ⟨fun t' ht' => ?_, hseen⟩, ?_⟩
  · rcases List.mem_append.1 ht' with ht' | ht'
    · exact (h.traced t' (List.mem_cons_of_mem _ ht')).mono hmono
    · obtain ⟨q, hq, rfl⟩ := List.mem_map.1 ht'
      exact ⟨(hfresh q hq).1, (hfresh q hq).2, htraced.mono hmono⟩
  · have hheads : heads (level ++ (Graph.unseen seen (Edge.targets (r.edgesOf p))).map (· :: p :: t))
        = heads level ++ Graph.unseen seen (Edge.targets (r.edgesOf p)) :=
      List.filterMap_append.trans (congrArg (heads level ++ ·) (heads_map_cons (p :: t) _))
    rw [hheads, ← hlook]
    rfl

/-- A node that needs the goal is looked at: the way back begins. -/
theorem Follows.arrive (h : Follows goal (trail :: level) seen parent) (hleads : r.sorted.leadsTo goal trail = true) :
    ∃ n, Loop.run (step r goal) n (.out (heads (trail :: level)) parent) = some (.ok (some trail.reverse)) := by
  have htraced := h.traced trail List.mem_cons_self
  obtain ⟨p, t, rfl⟩ := htraced.exists_cons
  obtain ⟨q, hq, hgoal⟩ := Graph.leadsTo_iff.1 hleads
  obtain rfl : p = q := by simpa using hq
  obtain ⟨e, he, rfl⟩ := List.mem_map.1 (adjacent_sorted.1 hgoal)
  obtain ⟨parent', hlook, hmono⟩ := look_eq_back (p := p) ⟨e, he, rfl⟩ (heads level) parent
  have hstep : step r e.target (.out (heads ((p :: t) :: level)) parent) = .inl (.back p [] parent') := by
    rw [← hlook]
    rfl
  refine ⟨t.length + 1 + 1, ?_⟩
  rw [Loop.run_of_inl hstep, run_back (htraced.mono hmono), List.append_nil]

/-- A level on which no node needs the goal is gone through, and the next one is on the queue. -/
theorem Follows.next (h : Follows goal (level ++ later) seen parent)
    (hnone : level.find? (r.sorted.leadsTo goal) = none) :
    ∃ parent', Follows goal (later ++ (r.sorted.lengthen level seen).1) (r.sorted.lengthen level seen).2 parent' ∧
      ∀ n, Loop.run (step r goal) (n + level.length) (.out (heads (level ++ later)) parent)
        = Loop.run (step r goal) n (.out (heads (later ++ (r.sorted.lengthen level seen).1)) parent') := by
  induction level generalizing later seen parent with
  | nil => exact ⟨parent, by simpa [Graph.lengthen] using h, fun n => by simp [Graph.lengthen]⟩
  | cons trail level ih =>
      rw [List.find?_cons] at hnone
      split at hnone
      · cases hnone
      · next hleads =>
          -- what the front one finds goes behind the later ones, as the next level begins there
          have hfront : Follows goal (trail :: (level ++ later)) seen parent := h
          obtain ⟨middle, hmiddle, hstep⟩ := hfront.advance (by simpa using hleads)
          rw [List.append_assoc] at hmiddle hstep
          obtain ⟨parent', hfollows, hrun⟩ := ih hmiddle hnone
          rw [List.append_assoc] at hfollows
          refine ⟨parent', hfollows, fun n => ?_⟩
          rw [List.length_cons, ← Nat.add_assoc, List.cons_append, Loop.run_of_inl hstep, hrun, List.append_assoc]
          rfl

/-- The first node of a level that needs the goal is come to. -/
theorem Follows.found (h : Follows goal (level ++ later) seen parent)
    (hsome : level.find? (r.sorted.leadsTo goal) = some trail) :
    ∃ n, Loop.run (step r goal) n (.out (heads (level ++ later)) parent) = some (.ok (some trail.reverse)) := by
  induction level generalizing later seen parent with
  | nil => cases hsome
  | cons front level ih =>
      have hfront : Follows goal (front :: (level ++ later)) seen parent := h
      rw [List.find?_cons] at hsome
      split at hsome
      · next hleads =>
          obtain rfl := Option.some.inj hsome
          exact hfront.arrive hleads
      · next hleads =>
          obtain ⟨middle, hmiddle, hstep⟩ := hfront.advance (by simpa using hleads)
          rw [List.append_assoc] at hmiddle hstep
          obtain ⟨n, hn⟩ := ih hmiddle hsome
          exact ⟨n + 1, (Loop.run_of_inl hstep n).trans hn⟩

/-- The search with a queue comes to what the search by levels comes to. -/
theorem Follows.exists_run (h : Follows goal level seen parent)
    (hn : Graph.unfinished r.sorted.nodes (level.filterMap List.head?) seen < n) :
    ∃ m, Loop.run (step r goal) m (.out (heads level) parent)
      = some (.ok (r.sorted.cycleSearch goal n level seen)) := by
  induction n generalizing level seen parent with
  | zero => exact absurd hn (Nat.not_lt_zero _)
  | succ n ih =>
      have hall : Follows goal (level ++ []) seen parent := by rwa [List.append_nil]
      rw [Graph.cycleSearch_succ]
      split
      · next trail hsome =>
          obtain ⟨m, hm⟩ := hall.found hsome
          rw [List.append_nil] at hm
          exact ⟨m, hm⟩
      · next hnone =>
          obtain ⟨parent', hnext, hrun⟩ := hall.next hnone
          rw [List.nil_append] at hnext hrun
          rw [List.append_nil] at hrun
          split
          · next hempty =>
              rw [List.isEmpty_iff.1 hempty] at hrun
              exact ⟨1 + level.length, (hrun 1).trans rfl⟩
          · next hempty =>
              have hseen : ∀ t ∈ level, ∀ a ∈ t.head?, a ∈ seen := fun t ht a ha => by
                obtain ⟨t, rfl⟩ := List.head?_eq_some_iff.1 ha
                exact (h.seen_iff a).2 (h.traced _ ht).found
              have hlt := Graph.unfinished_lengthen_lt hseen (by simpa using hempty)
              obtain ⟨m, hm⟩ := ih hnext (by omega)
              exact ⟨m + level.length, (hrun m).trans hm⟩

end Chase

/-! ### Both searches -/

/-- The search with a queue ends, with the cycle that the graph gives. -/
theorem run_chase (r : Roster) (p : String) (hn : r.patience ≤ n) :
    Loop.run (Chase.step r p) n (.out [p] ∅) = some (.ok (r.sorted.cycleThrough? p)) := by
  have hfollows : Chase.Follows p [[p]] [p] ∅ := by
    refine ⟨fun t ht => ?_, fun q => ?_⟩
    · obtain rfl := List.mem_singleton.1 ht
      rfl
    · simp [Chase.Found, PathMap.contains]
  have hcount : Graph.unfinished r.sorted.nodes ([[p]].filterMap List.head?) [p] < r.sorted.size + 1 := by
    have hlength : r.sorted.nodes.length = r.sorted.size := List.length_map _
    exact Nat.lt_succ_of_le (hlength ▸ List.countP_le_length)
  -- it ends soon enough by the counting of orphans, and what it ends with by the levels
  obtain ⟨m, hm⟩ := hfollows.exists_run hcount
  obtain ⟨c?, hc⟩ := Chase.exists_run_chase r p
  rw [Loop.run_of_le hc hn, Loop.run_unique hc hm]
  rfl

theorem cycleThrough?_sorted (r : Roster) (p : String) : r.sorted.cycleThrough? p = r.cycleThrough? p := by
  rw [cycleThrough?, run_chase r p (Nat.le_refl _)]

/-- The search for a cycle through a node ends, and so does the walk back. What is found is a cycle that begins with the
node, and none through it has fewer nodes; nothing is found just if there is no cycle through it. It is the cycle that
the graph gives. -/
theorem shortest_of_chase (r : Roster) (p : String) :
    (∃ n, ∀ m ≥ n, Loop.run (Chase.step r p) m (.out [p] ∅) = some (.ok (r.cycleThrough? p))) ∧
      (r.cycleThrough? p = none ↔ ∀ c, r.sorted.IsCycle c → p ∉ c) ∧
      (∀ c, r.cycleThrough? p = some c → r.sorted.IsCycle c ∧ c.head? = some p ∧
        ∀ c', r.sorted.IsCycle c' → p ∈ c' → c.length ≤ c'.length) ∧
      r.sorted.cycleThrough? p = r.cycleThrough? p := by
  refine ⟨⟨r.patience, fun m hm => ?_⟩, ?_, fun c hc => ?_, r.cycleThrough?_sorted p⟩
  · rw [run_chase r p hm, cycleThrough?_sorted]
  · rw [← cycleThrough?_sorted]
    exact Graph.cycleThrough?_eq_none_iff
  · rw [← cycleThrough?_sorted] at hc
    exact Graph.shortest_of_cycleThrough? hc

end HashedAssets.Roster
