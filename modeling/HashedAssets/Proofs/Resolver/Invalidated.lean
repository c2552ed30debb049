import HashedAssets.Proofs.Resolver.Meanwhile
import HashedAssets.Proofs.Resolver.Published

/-!
# What an invalidation names and touches

When the source of an asset changes, what includes it is dropped, what else depends on it is marked, and
all else stays as it is. This is so in every state that a resolver can come to, whatever its graph is and
whatever is in flight.

* `Reachable`: the states that a resolver can come to; `Reachable.coherent`, `Reachable.inUse`: what is so
  in all of them;
* `Graph.Includes`, `Covers`, `covers_affected`: what is named, as paths in the graph;
* `bare`, `Untouched`, `Invalidation`: what becomes of a resolver; `edgesOf_invalidate`, `index_invalidate`,
  `bare_invalidate`: its edges, its index, and all else;
* `invalidated_of_reachable`: an invalidation covers exactly the dependents.
-/

namespace HashedAssets

open SingleFlight Relation

namespace Graph

variable {g : Graph} {p q : String}

/-- Whether an asset includes another one itself. -/
def Includes (g : Graph) (p q : String) : Prop :=
  ∃ e ∈ g.edgesOf p, e.kind = .include ∧ e.target = q

/-- The includers of a node are the other nodes from which includes lead to it. -/
theorem mem_includers (hg : g.WellFormed) :
    q ∈ g.includers p ↔ q ≠ p ∧ TransGen g.Includes q p := by
  have hreaches : g.Reaches (· == .include) q p ↔ ReflTransGen g.Includes q p := by
    rw [reaches_iff]
    simp only [beq_iff_eq]
    rfl
  rw [includers, mem_dependentsBy hg, hreaches, reflTransGen_iff_eq_or_transGen]
  exact and_congr_right fun hne => or_iff_right fun he => hne he.symm

theorem pairwise_includers (g : Graph) (p : String) : (g.includers p).Pairwise (· < ·) :=
  pairwise_ascending _

end Graph

namespace Resolver

variable {s : Resolver} {p q : String}

/-! ### States that can be reached -/

/-- The states that a resolver can come to: whatever can happen may happen, in any order, and the host may
register assets at any time. -/
inductive Reachable : Resolver → Prop
  | make (x : Context) {c : Catalog} (keyed : c.Keyed) (watch : Option Watch) :
      Reachable (Resolver.make x c watch)
  | act {s : Resolver} {a : Action} : Reachable s → s.Admits a → Reachable (s.act a)
  | register {s : Resolver} {c : Catalog} : Reachable s → c.Keyed → Reachable { s with catalog := c }

theorem Reachable.coherent (h : Reachable s) : Coherent s := by
  induction h with
  | make x keyed watch => exact .make keyed watch
  | act _ hadm ih => exact ih.act hadm
  | register _ keyed ih => exact ⟨keyed, ih.graph, ih.wired, ih.tended⟩

/-- What is kept, and what the index holds, is what some history says. -/
theorem Reachable.exists_chronicled (h : Reachable s) : ∃ l, Chronicled s l := by
  induction h with
  | make x _ watch => exact ⟨[], chronicled_make x _ watch⟩
  | @act _ a _ _ ih => exact ⟨_, ih.choose_spec.act a⟩
  | register _ _ ih =>
      obtain ⟨l, hl⟩ := ih
      exact ⟨l, hl.kept, hl.index, hl.inUse, hl.paired⟩

/-- The index holds no path but those of kept results, for their own public paths. -/
theorem Reachable.inUse (h : Reachable s) {u : String} (hu : s.byPublic.get? u = some p) :
    s.publicOf p = some u := by
  obtain ⟨_, hl⟩ := h.exists_chronicled
  exact hl.inUse u p hu

theorem Reachable.play (h : Reachable s) {as : List Action} (has : s.Playable as)
    (lost : List String) : Reachable (s.play lost as).1 := by
  induction as generalizing s lost with
  | nil => exact h
  | cons a rest ih => exact ih (h.act has.1) has.2 _

/-! ### What is named -/

/-- What is said to be dropped and marked is what a change of an asset concerns. Dropped are the asset and,
ascending, all that includes it, itself or by way of others; both together are the asset and all that
depends on it in any way. Nothing is said twice. -/
structure Covers (s : Resolver) (p : String) (dropped marked : List String) : Prop where
  includers : ∃ includers, dropped = p :: includers ∧ includers.Pairwise (· < ·) ∧
    ∀ q, q ∈ includers ↔ q ≠ p ∧ TransGen s.graph.Includes q p
  ascends : marked.Pairwise (· < ·)
  nodup : (dropped ++ marked).Nodup
  dependents : ∀ q, q ∈ dropped ∨ q ∈ marked ↔ q = p ∨ TransGen s.graph.Adjacent q p

theorem covers_affected (hg : s.graph.WellFormed) (p : String) :
    Covers s p (s.affected p).1 (s.affected p).2 := by
  have hmarked : (s.affected p).2.Pairwise (· < ·) := (pairwise_ascending _).filter _
  have hincluders : (s.graph.includers p).Nodup := (s.graph.pairwise_includers p).imp String.ne_of_lt
  refine ⟨⟨s.graph.includers p, rfl, s.graph.pairwise_includers p, fun q => Graph.mem_includers hg⟩,
    hmarked, ?_, fun q => ?_⟩
  · refine List.nodup_append'.2 ⟨?_, hmarked.imp String.ne_of_lt, fun q hq hq' => not_mem_affected hq' hq⟩
    exact List.nodup_cons.2 ⟨fun hp => ((Graph.mem_includers hg).1 hp).1 rfl, hincluders⟩
  · rw [mem_affected hg, reflTransGen_iff_eq_or_transGen, eq_comm]

/-! ### What is touched -/

/-- All of a resolver but what is kept, its public paths and edges, and what is noted to be dropped. -/
def bare (s : Resolver) : Resolver :=
  { s with entries := ∅, byPublic := ∅, graph := ∅, dropOnLanding := [] }

/-- What is kept of a path, marked or not, and its edges are the same. -/
def Untouched (s t : Resolver) (q : String) : Prop :=
  t.entries.get? q = s.entries.get? q ∧ t.graph.edgesOf q = s.graph.edgesOf q

/-- Some paths were dropped, and some were marked. What was dropped and not in flight is gone, what was
dropped in flight is noted, and what was kept of the marked paths is to be checked. The index has forgotten
the public paths of what is gone; one invalidation more is counted; and that is all. -/
structure Invalidation (s t : Resolver) (dropped marked : List String) : Prop where
  gone : ∀ q ∈ dropped, s.flights.inFlight q = false →
    t.entries.get? q = none ∧ t.graph.edgesOf q = [] ∧ ∀ u, t.byPublic.get? u ≠ some q
  pending : ∀ q ∈ dropped, s.flights.inFlight q = true → q ∈ t.dropOnLanding ∧ Untouched s t q
  unchecked : ∀ q ∈ marked, t.graph.edgesOf q = s.graph.edgesOf q ∧
    t.entries.get? q = (s.entries.get? q).map fun e => { e with needsCheck := true }
  others : ∀ q, q ∉ dropped → q ∉ marked → Untouched s t q
  noted : ∀ q, q ∉ dropped ∨ s.flights.inFlight q = false →
    (q ∈ t.dropOnLanding ↔ q ∈ s.dropOnLanding)
  index : ∀ u, (∀ q ∈ dropped, s.flights.inFlight q = false → s.publicOf q ≠ some u) →
    t.byPublic.get? u = s.byPublic.get? u
  rest : t.bare = { s.bare with stats := { s.stats with invalidations := s.stats.invalidations + 1 } }

/-! ### Edges -/

theorem edgesOf_foldl_dropOrDefer (s : Resolver) (ps : List String) (q : String) :
    (ps.foldl dropOrDefer s).graph.edgesOf q =
      if q ∈ ps ∧ s.flights.slots.get? q = none then [] else s.graph.edgesOf q := by
  induction ps generalizing s with
  | nil => simp
  | cons p rest ih =>
      rw [List.foldl_cons, ih]
      by_cases hp : s.flights.slots.get? p = none
      · rw [dropOrDefer_of_idle hp, drop]
        dsimp only
        rw [Graph.edgesOf_setEdges_nil]
        by_cases hq : q = p
        · simp [hq, hp]
        · simp [hq]
      · rw [dropOrDefer_of_busy hp]
        by_cases hq : q = p
        · simp [hq, hp]
        · simp [hq]

/-- What an invalidation drops and is not in flight has no edges any more, and all else has its own. -/
theorem edgesOf_invalidate (hp : s.catalog.contains p = true) (q : String) :
    (s.invalidate p).2.graph.edgesOf q =
      if q ∈ (s.affected p).1 ∧ s.flights.slots.get? q = none then [] else s.graph.edgesOf q := by
  rw [invalidate_of_contains hp, eq_of_foldl (g := Resolver.graph) (f := mark) fun _ _ => rfl,
    edgesOf_foldl_dropOrDefer]

/-! ### The index, and all else -/

/-- The index forgets no public path but those of results that are dropped. -/
theorem index_invalidate (hp : s.catalog.contains p = true) {u : String}
    (hu : ∀ q ∈ (s.affected p).1, s.flights.slots.get? q = none → s.publicOf q ≠ some u) :
    (s.invalidate p).2.byPublic.get? u = s.byPublic.get? u := by
  refine (thinned_invalidate s p).left u fun q hq => ?_
  rcases (thinned_invalidate s p).kept q with he | hnone
  · rw [he, hq]
  · rw [publicOf, entries_invalidate_get? hp] at hnone
    split at hnone
    · next hgone => exact absurd hq (hu q hgone.1 hgone.2)
    · rw [publicOf] at hq
      split at hnone
      · rw [Option.map_map] at hnone
        obtain ⟨e, he, -⟩ := Option.map_eq_some_iff.1 hq
        rw [he] at hnone
        cases hnone
      · rw [hq] at hnone
        cases hnone

/-- An invalidation is counted, and nothing else but what is kept and noted is touched. -/
theorem bare_invalidate (hp : s.catalog.contains p = true) : (s.invalidate p).2.bare =
    { s.bare with stats := { s.stats with invalidations := s.stats.invalidations + 1 } } := by
  have hdrop : ∀ (s : Resolver) p, (s.dropOrDefer p).bare = s.bare := fun s p => by
    unfold dropOrDefer
    split <;> rfl
  rw [invalidate_of_contains hp, eq_of_foldl (g := bare) (f := mark) fun _ _ => rfl, eq_of_foldl hdrop]
  rfl

/-! ### A sample

`a` includes `b`, and `r` refers to `a`; all of them are kept. `d` includes `b`, too, and is in flight, since
the source of `e`, which it refers to, waits at a gate. -/

namespace Spread

/-- An asset of a text. -/
def asset (path text : String) (h : path ≠ "") : Definition :=
  ⟨path, .static (Bytes.ofText text), ({} : Choices).options true, h⟩

/-- The five assets. -/
def catalog : Catalog :=
  (((((∅ : Catalog).add (asset "a" "{{: include:b :}}" Pair.a_ne_empty)).add
    (asset "b" "one" Pair.b_ne_empty)).add
    (asset "r" "{{: path:a :}}" (by decide))).add
    (asset "d" "{{: include:b :}}{{: path:e :}}" (by decide))).add
    ⟨"e", .dynamic (.varying (fun _ => .ok (Bytes.ofText "two")) (some "gate")) none,
      ({} : Choices).options true, by decide⟩

theorem keyed_catalog : catalog.Keyed := ((((Catalog.keyed_empty.add _).add _).add _).add _).add _

/-- The request for `r` is served, and then `d` is asked for. -/
def actions : List Action :=
  [.ask (.logical "r"), .step (.request 0), .step (.flight 0), .step (.request 1), .step (.flight 1),
    .step (.request 2), .step (.flight 2), .step (.request 2), .step (.flight 1), .step (.request 1),
    .step (.flight 0), .step (.request 0), .step (.forget 0), .step (.forget 1), .step (.forget 2),
    .ask (.logical "d"), .step (.request 3), .step (.flight 3), .step (.request 4), .step (.request 5),
    .step (.flight 4)]

/-- The state in which `b` changes. -/
def held : Resolver := ((make Sample.context catalog none).play [] actions).1

theorem reachable_held : Reachable held :=
  (Reachable.make Sample.context keyed_catalog none).play (by decide +kernel) []

end Spread

/-! ### The result -/

theorem Reachable.invalidation (h : Reachable s) (hp : s.catalog.contains p = true) :
    Invalidation s (s.invalidate p).2 (s.affected p).1 (s.affected p).2 := by
  have hidle : ∀ {q}, s.flights.inFlight q = false ↔ s.flights.slots.get? q = none :=
    Table.inFlight_eq_false_iff
  have hbusy : ∀ {q}, s.flights.inFlight q = true → s.flights.slots.get? q ≠ none := fun hq hnone => by
    rw [hidle.2 hnone] at hq
    cases hq
  -- what is not gone has its edges, and is kept as it was unless it is marked
  have huntouched : ∀ q, ¬ (q ∈ (s.affected p).1 ∧ s.flights.slots.get? q = none) →
      q ∉ (s.affected p).2 → Untouched s (s.invalidate p).2 q := fun q hq hmarked =>
    ⟨by rw [entries_invalidate_get? hp, if_neg hq, if_neg hmarked],
      by rw [edgesOf_invalidate hp, if_neg hq]⟩
  constructor
  case gone =>
    intro q hq hfree
    have hgone : q ∈ (s.affected p).1 ∧ s.flights.slots.get? q = none := ⟨hq, hidle.1 hfree⟩
    have hnone : (s.invalidate p).2.entries.get? q = none := by
      rw [entries_invalidate_get? hp, if_pos hgone]
    refine ⟨hnone, by rw [edgesOf_invalidate hp, if_pos hgone], fun u hu => ?_⟩
    -- the state afterwards can be reached, too, and its index holds paths of kept results only
    have hafter : Reachable (s.invalidate p).2 := h.act (a := .invalidate p) trivial
    have hkept := hafter.inUse hu
    rw [publicOf, hnone] at hkept
    cases hkept
  case pending =>
    intro q hq hflight
    exact ⟨(mem_dropOnLanding_invalidate hp).2 (.inr ⟨hq, hbusy hflight⟩),
      huntouched q (fun hgone => hbusy hflight hgone.2) fun hmarked => not_mem_affected hmarked hq⟩
  case unchecked =>
    intro q hq
    have hnot : ¬ (q ∈ (s.affected p).1 ∧ s.flights.slots.get? q = none) :=
      fun hgone => not_mem_affected hq hgone.1
    exact ⟨by rw [edgesOf_invalidate hp, if_neg hnot],
      by rw [entries_invalidate_get? hp, if_neg hnot, if_pos hq]⟩
  case others => exact fun q hq => huntouched q fun hgone => hq hgone.1
  case noted =>
    intro q hq
    rw [mem_dropOnLanding_invalidate hp]
    refine or_iff_left fun hdropped => ?_
    rcases hq with hq | hfree
    · exact hq hdropped.1
    · exact hdropped.2 (hidle.1 hfree)
  case index => exact fun u hu => index_invalidate hp fun q hq hnone => hu q hq (hidle.2 hnone)
  case rest => exact bare_invalidate hp

/-- **An invalidation covers exactly the dependents.** In every state that a resolver can come to: when the
source of a registered asset changes, the asset and all that includes it are dropped, and all else that
depends on it is marked, each once and nothing but these. What is dropped and not in flight is not kept any
more, has no edges, and no public path stands for it. What is dropped in flight is noted, and goes when its
flight ends. What is kept of the marked paths is to be checked. Of all other paths what is kept, marked or
not, and the edges are the same. If no asset is registered for the path, nothing changes. -/
theorem invalidated_of_reachable (h : Reachable s) (p : String) :
    (s.catalog.contains p = true → ∃ dropped marked t, s.invalidate p = (.ok (dropped, marked), t) ∧
      Covers s p dropped marked ∧ Invalidation s t dropped marked) ∧
    (s.catalog.contains p = false → s.invalidate p = (.error (.fault (.notFound p)), s)) := by
  refine ⟨fun hp => ⟨_, _, _, ?_, covers_affected h.coherent.graph p, h.invalidation hp⟩, fun hp => ?_⟩
  · rw [invalidate_of_contains hp]
  · have hnone : s.catalog.entries.get? p = none := by simpa [Catalog.contains, PathMap.contains] using hp
    rw [invalidate, Catalog.get, hnone]

/-- In the sample: `b` changes. Then `a` is gone, `d` is noted, and `r` is marked. -/
theorem invalidated_spread : Reachable Spread.held ∧
    (∃ t, Spread.held.invalidate "b" = (.ok (["b", "a", "d"], ["r"]), t) ∧
      Covers Spread.held "b" ["b", "a", "d"] ["r"] ∧
      Invalidation Spread.held t ["b", "a", "d"] ["r"] ∧ t.entries.get? "a" = none ∧
      "d" ∈ t.dropOnLanding ∧ (t.entries.get? "r").map (·.needsCheck) = some true) ∧
    Spread.held.invalidate "z" = (.error (.fault (.notFound "z")), Spread.held) := by
  have hreach := Spread.reachable_held
  obtain ⟨dropped, marked, t, ht, hcovers, hinv⟩ :=
    (invalidated_of_reachable hreach "b").1 (by decide +kernel)
  have hnamed : (Spread.held.invalidate "b").1.toOption = some (["b", "a", "d"], ["r"]) := by
    decide +kernel
  rw [ht] at hnamed
  obtain ⟨rfl, rfl⟩ := Prod.mk.inj (Option.some.inj hnamed)
  have hkept : (Spread.held.entries.get? "r").isSome = true := by decide +kernel
  obtain ⟨e, he⟩ := Option.isSome_iff_exists.1 hkept
  refine ⟨hreach, ⟨t, ht, hcovers, hinv, (hinv.gone "a" (by decide) (by decide +kernel)).1,
    (hinv.pending "d" (by decide) (by decide +kernel)).1, ?_⟩,
    (invalidated_of_reachable hreach "z").2 (by decide +kernel)⟩
  rw [(hinv.unchecked "r" (by decide)).2, he]
  rfl

end Resolver

end HashedAssets
