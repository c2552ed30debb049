import HashedAssets.Proofs.Resolver.Abreast
import HashedAssets.Proofs.Resolver.Host

/-!
# Results that the host says are outdated

Before a kept result is used the host is asked about all that is kept of what it needs. An outdated result
is dropped with all that includes it, and what else depends on these is marked.

* `Guarded`: what holds while an asset is resolved with a host that says what is outdated;
* `Guarded.abreast_left`: what is left when an outdated result is found;
* `Guarded.checkPath`, `Guarded.along_of_closure`: once the host has been asked about all that a path
  needs, all that a kept result of it needs has come up;
* `Guarded.kept?`: so it is when a request has looked for a kept result.
-/

namespace HashedAssets.Resolver

open SingleFlight Relation

variable {x : Context} {c k : Catalog} {len : Nat} {n₀ n : CallId} {i₀ i : RequestId}
  {asked : List String} {s t u : Resolver} {f : Flight} {r : Request} {p q y : String} {v : Resolved}

/-! ### States -/

/-- Whoever has not ended asks for a logical path. -/
def Logical (s : Resolver) : Prop :=
  ∀ (i : Nat) r, s.requests[i]? = some r → r.caller.isDone = true ∨ ∃ p, r.target = .logical p

theorem Logical.congr (h : Logical s) (hr : u.requests = s.requests) : Logical u :=
  fun i r hr' => h i r (hr ▸ hr')

/-- What holds while an asset is resolved and the host is asked about kept results, as long as nothing
fails. -/
structure Guarded (x : Context) (c k : Catalog) (len : Nat) (n₀ : CallId) (i₀ : RequestId)
    (asked : List String) (s : Resolver) : Prop where
  abreast : Abreast x c k len n₀ i₀ asked s
  coherent : Coherent s
  unhurried : Unhurried s
  spotless : Spotless i₀ s
  mirrored : Mirrored s []
  constant : k.Steady
  watched : ∃ w, s.watch = some w ∧ w.Exact k
  logical : Logical s

theorem Guarded.keyed (h : Guarded x c k len n₀ i₀ asked s) : k.Keyed := fun p d hd =>
  h.coherent.keyed p d (h.abreast.catalog ▸ hd)

theorem flown_congr (h : u.flights = s.flights) : u.Flown n₀ = s.Flown n₀ := by
  funext p
  unfold Flown
  rw [h]

theorem seen_congr (h : u.flights = s.flights) : u.Seen n₀ asked = s.Seen n₀ asked := by
  funext p
  rw [Seen, Seen, flown_congr h]

theorem Spotless.congr (h : Spotless i₀ s) (hf : u.flights = s.flights)
    (hr : u.requests = s.requests) : Spotless i₀ u where
  flights n f g hf' := h.flights n f g (hf ▸ hf')
  requests i g hi ho := h.requests i g hi (by unfold outcome? at ho ⊢; rwa [hr] at ho)

/-- The edges in the graph are those of the bytes that a path was last read with. -/
theorem Mirrored.reads (h : Mirrored s []) (hs : Coherent s) (hun : Unhurried s)
    (hspot : Spotless i₀ s)
    (hreads : ∀ p e, s.entries.get? p = some e → x.Reads c p e.asset e.resolved.edges)
    (htracks : ∀ n f, s.flights.call? n = some f → Tracks x c f.key f.status)
    (hp : s.graph.edgesOf p ≠ []) : ∃ a, x.Reads c p a (s.graph.edgesOf p) := by
  cases he : s.entries.get? p with
  | some e =>
      rw [h.entry p e he, if_neg (by simp)]
      exact ⟨e.asset, hreads p e he⟩
  | none =>
      obtain ⟨n, f, hf, rfl, ⟨a, es, kept, children, hst⟩ | ⟨g, hst, -⟩⟩ := h.other p he hp
      · rw [h.gathering hs hf (hun.calls n f hf).1 hst, if_neg (by simp)]
        have hread := htracks n f hf
        rw [hst] at hread
        exact ⟨a, hread⟩
      · exact absurd hst (hspot.flights n f g hf)

theorem Guarded.reads (h : Guarded x c k len n₀ i₀ asked s) (hp : s.graph.edgesOf p ≠ []) :
    ∃ a, x.Reads c p a (s.graph.edgesOf p) :=
  h.mirrored.reads h.coherent h.unhurried h.spotless h.abreast.sound.held.reads
    h.abreast.sound.held.tracks hp

theorem Guarded.edgesOf (h : Guarded x c k len n₀ i₀ asked s) {e : Entry}
    (he : s.entries.get? p = some e) : s.graph.edgesOf p = e.resolved.edges :=
  (h.mirrored.entry p e he).trans (if_neg (by simp))

/-- What a kept result refers to follows its path in the graph. -/
theorem Guarded.adjacent (h : Guarded x c k len n₀ i₀ asked s) {e : Entry}
    (he : s.entries.get? p = some e) (hq : q ∈ Edge.targets e.resolved.edges) :
    s.graph.Adjacent p q := by
  rw [Graph.Adjacent, Graph.targetsOf, h.edgesOf he]
  exact hq

/-- What includes a path in the graph does so by its bytes. -/
theorem Guarded.embeds (h : Guarded x c k len n₀ i₀ asked s)
    (hqp : s.graph.Reaches (· == .include) q p) : ReflTransGen (x.Embeds c) q p := by
  refine ReflTransGen.mono (fun a b ⟨e, he, hk, ht⟩ => ?_) _ _ (Graph.reaches_iff.1 hqp)
  obtain ⟨b, hr⟩ := h.reads (p := a) (List.ne_nil_of_mem he)
  exact ⟨b, _, hr, e, he, ht, by simpa using hk⟩

theorem Guarded.needs (h : Guarded x c k len n₀ i₀ asked s)
    (hqp : ReflTransGen s.graph.Adjacent q p) : ReflTransGen (x.Needs c) q p :=
  ReflTransGen.mono (fun a b hab => h.abreast.sound.held.edges a b hab) _ _ hqp

/-! ### Outdated results -/

/-- Where the source gives something else than what is kept was made of, nothing has come up that depends
on it; so what includes it is not in flight, if it is kept. -/
theorem Guarded.not_along (h : Guarded x c k len n₀ i₀ asked s) (hy : ¬ c.Same k y)
    (hq : q ∈ (s.affected y).1 ∨ q ∈ (s.affected y).2) :
    ¬ Along (x.Needs c) (s.Seen n₀ asked) q := fun hseen =>
  hy (h.abreast.seen y (hseen y (h.needs ((mem_affected h.coherent.graph).1 hq))))

theorem Guarded.idle_of_mem_affected (h : Guarded x c k len n₀ i₀ asked s) (hy : ¬ c.Same k y)
    (hq : q ∈ (s.affected y).1) (hkept : s.entries.get? q ≠ none) : s.flights.slots.get? q = none := by
  by_contra hbusy
  obtain ⟨n, hn⟩ := Option.ne_none_iff_exists'.1 hbusy
  obtain ⟨f, hf, rfl, -⟩ := h.coherent.wired.slot q n hn
  match hst : f.status with
  | .running w =>
      -- what is kept is being checked, so all that it includes has come up
      have hchecks := h.abreast.checks n f hf (isRunning_of_status hst) hkept
      exact hy (h.abreast.seen y (hchecks y (h.embeds ((mem_affected_fst h.coherent.graph).1 hq))))
  | .finished .cancelled => exact (h.unhurried.calls n f hf).2 hst
  | .finished (.result (.error g)) => exact h.spotless.flights n f g hf hst
  | .finished (.result (.ok v)) =>
      have htold := h.abreast.answers.flights n f _ (h.abreast.sound.scope.slots _ n hn) hf hst
      exact h.not_along hy (.inl hq) (htold v rfl).2.1

theorem Guarded.contains (h : Guarded x c k len n₀ i₀ asked s) (hp : s.entries.get? p ≠ none) :
    s.catalog.contains p = true := by
  obtain ⟨e, he⟩ := Option.ne_none_iff_exists'.1 hp
  exact (h.abreast.alike_catalog.contains p).trans (h.abreast.sound.held.reads p e he).contains

/-- What is left is not one of those that include the path. -/
theorem Guarded.entry_left (h : Guarded x c k len n₀ i₀ asked s) (hkept : s.entries.get? y ≠ none)
    (hy : ¬ c.Same k y) {e : Entry} (he : (s.invalidate y).2.entries.get? q = some e) :
    q ∉ (s.affected y).1 ∧ ∃ e₀, s.entries.get? q = some e₀ ∧ e₀.asset = e.asset ∧
      e₀.resolved = e.resolved ∧ (e.needsCheck = false → q ∉ (s.affected y).2 ∧ e₀ = e) := by
  obtain ⟨hbusy, e₀, he₀, hrest⟩ := entry_invalidate (h.contains hkept) he
  exact ⟨fun hq => hbusy hq (h.idle_of_mem_affected hy hq (by rw [he₀]; simp)), e₀, he₀, hrest⟩

/-- What is left unmarked is as it was, and does not depend on the path. -/
theorem Guarded.unmarked_left (h : Guarded x c k len n₀ i₀ asked s) (hkept : s.entries.get? y ≠ none)
    (hy : ¬ c.Same k y) {e : Entry} (he : (s.invalidate y).2.entries.get? q = some e)
    (hn : e.needsCheck = false) :
    s.entries.get? q = some e ∧ ¬ ReflTransGen s.graph.Adjacent q y := by
  obtain ⟨hq, e₀, he₀, -, -, hun⟩ := h.entry_left hkept hy he
  obtain ⟨hq', rfl⟩ := hun hn
  exact ⟨he₀, fun hqy => ((mem_affected h.coherent.graph).2 hqy).elim hq hq'⟩

theorem Guarded.entries_left (h : Guarded x c k len n₀ i₀ asked s) (hkept : s.entries.get? y ≠ none)
    (hq : ¬ ReflTransGen s.graph.Adjacent q y) :
    (s.invalidate y).2.entries.get? q = s.entries.get? q := by
  rw [← mem_affected h.coherent.graph, not_or] at hq
  rw [entries_invalidate_get? (h.contains hkept), if_neg fun hmem => hq.1 hmem.1, if_neg hq.2]

theorem Guarded.kept_left (h : Guarded x c k len n₀ i₀ asked s) (hkept : s.entries.get? y ≠ none)
    (hq : q ∉ (s.affected y).1) (hne : s.entries.get? q ≠ none) :
    (s.invalidate y).2.entries.get? q ≠ none := by
  rw [entries_invalidate_get? (h.contains hkept), if_neg fun hmem => hq hmem.1]
  split
  · rwa [Ne, Option.map_eq_none_iff]
  · exact hne

theorem Guarded.get?_renew (h : Guarded x c k len n₀ i₀ asked s)
    (hq : q ∈ (s.affected y).1 → s.entries.get? q = none) :
    (c.renew k (s.affected y).1).entries.get? q = c.entries.get? q := by
  rw [Catalog.get?_renew h.abreast.alike]
  split
  · next hmem => exact (h.abreast.absent q (hq hmem)).symm
  · rfl

/-- What has come up comes from the same sources. -/
theorem Guarded.same_of_seen (h : Guarded x c k len n₀ i₀ asked s) {r : String → String → Prop}
    (hseen : Along r (s.Seen n₀ asked) q) :
    Along r (c.Same (c.renew k (s.affected y).1)) q :=
  hseen.mono fun q hq => (h.abreast.seen q hq).renew h.abreast.alike

/-- So does all that a result needs that can be used, if the path is not among it. -/
theorem Guarded.same_of_usable (h : Guarded x c k len n₀ i₀ asked s) (hu : s.Usable q v)
    (hq : ¬ ReflTransGen s.graph.Adjacent q y) :
    Along (x.Needs c) (c.Same (c.renew k (s.affected y).1)) q := by
  intro b hqb
  -- along what the path needs, each can be used until all the rest has come up
  induction hqb using ReflTransGen.head_induction_on generalizing v with
  | refl =>
      refine .of_eq (h.get?_renew fun hmem => ?_)
      exact absurd ((mem_affected h.coherent.graph).1 (.inl hmem)) hq
  | @head a a' haa' ha'b ih =>
      obtain ⟨e, he, hn, rfl⟩ := hu
      rcases h.abreast.stands a e he with ⟨-, hseen⟩ | ⟨-, hnext⟩
      · exact h.same_of_seen hseen b (.head haa' ha'b)
      · obtain ⟨_, _, hr, hmem⟩ := haa'
        obtain ⟨-, rfl⟩ := hr.unique (h.abreast.sound.held.reads a e he)
        obtain ⟨v', hv'⟩ := hnext hn a' hmem
        exact ih hv' fun ha'y => hq (.head (h.adjacent he hmem) ha'y)

theorem Guarded.reads_left (h : Guarded x c k len n₀ i₀ asked s) (hkept : s.entries.get? y ≠ none)
    (hy : ¬ c.Same k y) {e : Entry} (he : (s.invalidate y).2.entries.get? p = some e) :
    x.Reads (c.renew k (s.affected y).1) p e.asset e.resolved.edges := by
  obtain ⟨hp, e₀, he₀, ha, hr, -⟩ := h.entry_left hkept hy he
  rw [← ha, ← hr]
  exact (h.abreast.sound.held.reads p e₀ he₀).of_eq h.abreast.alike.renew
    (h.get?_renew fun hmem => absurd hmem hp)

/-- What is dropped is not in flight, so a flight goes on with the source that it has read. -/
theorem Guarded.tracks_left (h : Guarded x c k len n₀ i₀ asked s) (hy : ¬ c.Same k y)
    (hf : s.flights.call? n = some f) : Tracks x (c.renew k (s.affected y).1) f.key f.status := by
  have htr := h.abreast.sound.held.tracks n f hf
  have hsource : ∀ w, f.status = .running w →
      (c.renew k (s.affected y).1).entries.get? f.key = c.entries.get? f.key := fun w hst =>
    h.get?_renew fun hmem => by
      by_contra hne
      have hslot := h.coherent.wired.held n f hf (isRunning_of_status hst) (h.unhurried.calls n f hf).1
      rw [h.idle_of_mem_affected hy hmem hne] at hslot
      cases hslot
  match hst : f.status with
  | .running .launched => trivial
  | .running (.loading fetched) =>
      rw [hst] at htr
      obtain ⟨d, hd, hgive⟩ := htr
      exact ⟨d, (hsource _ hst).trans hd, hgive⟩
  | .running (.gathering a es kept children) =>
      rw [hst] at htr
      exact Context.Reads.of_eq htr h.abreast.alike.renew (hsource _ hst)
  | .finished _ => trivial

/-- The edges that are left come from the same sources. -/
theorem Guarded.edges_left (h : Guarded x c k len n₀ i₀ asked s) (hkept : s.entries.get? y ≠ none)
    (hy : ¬ c.Same k y) (hpq : (s.invalidate y).2.graph.Adjacent p q) :
    x.Needs (c.renew k (s.affected y).1) p q := by
  obtain ⟨-, -, hflights, hrequests⟩ := frame_of_lapses (lapses_invalidate s y)
  obtain ⟨hs', hmir⟩ := h.mirrored.lapses h.coherent (lapses_invalidate s y)
  obtain ⟨a, hr⟩ := hmir.reads (p := p) hs' (h.unhurried.congr hflights hrequests)
    (h.spotless.congr hflights hrequests) (fun p e he => h.reads_left hkept hy he)
    (fun n f hf => h.tracks_left hy (hflights ▸ hf))
    fun hnil => by rw [Graph.Adjacent, Graph.targetsOf, hnil] at hpq; cases hpq
  exact ⟨a, _, hr, hpq⟩

/-- An answer all of whose sources have come up goes on to be correct. -/
theorem Guarded.correct_left (h : Guarded x c k len n₀ i₀ asked s) {a : Answer}
    (ha : x.Correct c p a) (ht : Told x c n₀ asked s p a) (hne : ∀ g, a ≠ .error g) :
    x.Correct (c.renew k (s.affected y).1) p a := by
  cases a with
  | error g => exact absurd rfl (hne g)
  | ok v => exact Context.Solves.same ha h.abreast.alike.renew (h.same_of_seen (ht v rfl).2.1)

/-- What is left when an outdated result is found is correct with the sources that it was made of. -/
theorem Guarded.sound_left (h : Guarded x c k len n₀ i₀ asked s) (hkept : s.entries.get? y ≠ none)
    (hy : ¬ c.Same k y) :
    Sound x (c.renew k (s.affected y).1) n₀ i₀
      ((s.invalidate y).2.upon (c.renew k (s.affected y).1)) := by
  obtain ⟨hcontext, -, hflights, hrequests⟩ := frame_of_lapses (lapses_invalidate s y)
  have hsound := h.abreast.sound
  refine ⟨⟨hcontext.trans hsound.held.context, rfl, fun p q hpq => h.edges_left hkept hy hpq,
    fun p e he => h.reads_left hkept hy he, fun p e he hn => ?_,
    fun n f hf => h.tracks_left hy (hflights ▸ hf)⟩, ?_,
    ⟨fun n f a hn hf hst => ?_, fun i r a p hi hr hd ht => ?_⟩⟩
  · obtain ⟨he₀, hpy⟩ := h.unmarked_left hkept hy he hn
    exact Context.Solves.same (hsound.held.solves p e he₀ hn) h.abreast.alike.renew
      (h.same_of_usable ⟨e, he₀, hn, rfl⟩ hpy)
  · show Scope n₀ i₀ (s.invalidate y).2.flights (s.invalidate y).2.requests
    rw [hflights, hrequests]
    exact hsound.scope
  · have hf' : s.flights.call? n = some f := hflights ▸ hf
    exact h.correct_left (hsound.answers.flights n f a hn hf' hst)
      (h.abreast.answers.flights n f a hn hf' hst) fun g hg => h.spotless.flights n f g hf' (hg ▸ hst)
  · have hr' : s.requests[i]? = some r := hrequests ▸ hr
    exact h.correct_left (hsound.answers.requests i r a p hi hr' hd ht)
      (h.abreast.answers.requests i r a p hi hr' hd ht) fun g hg =>
        h.spotless.requests i g hi (outcome?_eq_some_iff.2 ⟨r, hr', hg ▸ hd⟩)

/-- Where all that a path needs has come up, so it has with the sources as they are for what is dropped;
and the path does not depend on what is outdated. -/
theorem Guarded.seen_left (h : Guarded x c k len n₀ i₀ asked s) (hy : ¬ c.Same k y)
    (hseen : Along (x.Needs c) (s.Seen n₀ asked) p) :
    Along (x.Needs (c.renew k (s.affected y).1)) ((s.invalidate y).2.Seen n₀ asked) p ∧
      ¬ ReflTransGen s.graph.Adjacent p y := by
  rw [seen_congr (frame_of_lapses (lapses_invalidate s y)).2.2.1]
  exact ⟨fun q hq => hseen q (Context.needs_of_same h.abreast.alike.renew (h.same_of_seen hseen) hq),
    fun hpy => h.not_along hy ((mem_affected h.coherent.graph).2 hpy) hseen⟩

theorem Guarded.stands_left (h : Guarded x c k len n₀ i₀ asked s) (hkept : s.entries.get? y ≠ none)
    (hy : ¬ c.Same k y) {e : Entry} (he : (s.invalidate y).2.entries.get? p = some e) :
    Stands x (c.renew k (s.affected y).1) n₀ asked (s.invalidate y).2 p e := by
  obtain ⟨hp, e₀, he₀, -, hr, -⟩ := h.entry_left hkept hy he
  rcases h.abreast.stands p e₀ he₀ with ⟨hn, hseen⟩ | ⟨hinc, husable⟩
  · obtain ⟨hseen', hpy⟩ := h.seen_left hy hseen
    rw [h.entries_left hkept hpy, he₀] at he
    cases he
    exact .inl ⟨hn, hseen'⟩
  · refine .inr ⟨fun d hd hk => ?_, fun hn q hq => ?_⟩
    · -- what includes what is dropped is dropped itself
      refine h.kept_left hkept (fun hmem => hp ?_) (hinc d (hr ▸ hd) hk)
      exact mem_affected_of_include h.coherent.graph ((h.edgesOf he₀).symm ▸ hr ▸ hd) hk hmem
    · obtain ⟨he', hpy⟩ := h.unmarked_left hkept hy he hn
      rw [he₀] at he'; cases he'
      obtain ⟨v, e', he', hn', hv⟩ := husable hn q hq
      refine ⟨v, e', ?_, hn', hv⟩
      rw [h.entries_left hkept fun hqy => hpy (.head (h.adjacent he₀ hq) hqy)]
      exact he'

theorem Guarded.met_left (h : Guarded x c k len n₀ i₀ asked s) (hkept : s.entries.get? y ≠ none)
    (hq : ¬ ReflTransGen s.graph.Adjacent q y) (hmet : s.Met n₀ q) : (s.invalidate y).2.Met n₀ q :=
  hmet.of_entry (fun hflown => flown_congr (frame_of_lapses (lapses_invalidate s y)).2.2.1 ▸ hflown)
    (h.entries_left hkept hq)

theorem Guarded.made_left (h : Guarded x c k len n₀ i₀ asked s) (hkept : s.entries.get? y ≠ none)
    (hy : ¬ c.Same k y) {e : Entry} (he : (s.invalidate y).2.entries.get? p = some e) :
    x.Made (c.renew k (s.affected y).1) s.Results e.asset e.resolved := by
  obtain ⟨hp, e₀, he₀, hasset, hr, -⟩ := h.entry_left hkept hy he
  rw [← hasset, ← hr]
  refine (h.abreast.made p e₀ he₀).same h.abreast.alike.renew fun d hd hk =>
    .of_eq (h.get?_renew fun hmem => ?_)
  exact absurd (mem_affected_of_include h.coherent.graph ((h.edgesOf he₀).symm ▸ hd) hk hmem) hp

/-- Nothing is kept of what is to be dropped on landing: what the invalidation adds is dropped by it. -/
theorem Guarded.noted_left (h : Guarded x c k len n₀ i₀ asked s) (hkept : s.entries.get? y ≠ none)
    (hy : ¬ c.Same k y) (hp : p ∈ (s.invalidate y).2.dropOnLanding) :
    (s.invalidate y).2.entries.get? p = none := by
  by_contra hne
  obtain ⟨e, he⟩ := Option.ne_none_iff_exists'.1 hne
  obtain ⟨hmem, e₀, he₀, -⟩ := h.entry_left hkept hy he
  rcases (mem_dropOnLanding_invalidate (h.contains hkept)).1 hp with hp | ⟨hp, -⟩
  · rw [h.abreast.noted p hp] at he₀; cases he₀
  · exact hmem hp

theorem Guarded.told_left (h : Guarded x c k len n₀ i₀ asked s) (hkept : s.entries.get? y ≠ none)
    (hy : ¬ c.Same k y) {a : Answer} (ht : Told x c n₀ asked s p a) :
    Told x (c.renew k (s.affected y).1) n₀ asked (s.invalidate y).2 p a := fun v hv => by
  obtain ⟨hres, hseen, hmet⟩ := ht v hv
  obtain ⟨hseen', hpy⟩ := h.seen_left hy hseen
  refine ⟨?_, hseen', h.met_left hkept hpy hmet⟩
  rw [results_congr (frame_of_lapses (lapses_invalidate s y)).2.2.1]
  exact hres

/-- What is left when an outdated result is found is abreast, with the sources as they are for what is
dropped. -/
theorem Guarded.abreast_left (h : Guarded x c k len n₀ i₀ asked s) (hkept : s.entries.get? y ≠ none)
    (hy : ¬ c.Same k y) :
    Abreast x (c.renew k (s.affected y).1) k len n₀ i₀ asked (s.invalidate y).2 := by
  obtain ⟨-, hcatalog, hflights, hrequests⟩ := frame_of_lapses (lapses_invalidate s y)
  have ha := h.abreast
  have halike : c.Alike (c.renew k (s.affected y).1) := ha.alike.renew
  have hresults : (s.invalidate y).2.Results = s.Results := results_congr hflights
  have hseens : (s.invalidate y).2.Seen n₀ asked = s.Seen n₀ asked :=
    seen_congr hflights
  refine
    { lengths := ha.lengths
      keyed := ha.keyed.renew h.keyed ha.alike
      steady := ha.steady.renew h.constant ha.alike
      alike := halike.symm.trans ha.alike
      catalog := (congrArg _ hcatalog).trans ha.catalog
      sound := h.sound_left hkept hy
      absent := fun p hp => ?_
      seen := fun p hp => ?_
      noted := fun p hp => h.noted_left hkept hy hp
      results := fun p e he => ?_
      made := fun p e he => hresults ▸ h.made_left hkept hy he
      formed := fun v hv => (ha.formed v (hresults ▸ hv)).alike halike
      answers := ?_
      stands := fun p e he => h.stands_left hkept hy he
      met := fun p v hv q hq => ?_
      checks := fun n f hf hrun hkey => ?_ }
  · rw [Catalog.get?_renew ha.alike]
    split
    · rfl
    · next hmem => exact ha.absent p (not_not.1 fun hne => h.kept_left hkept hmem hne hp)
  · rw [hseens] at hp
    exact .of_renew ha.alike (.inr (ha.seen p hp))
  · obtain ⟨-, e₀, he₀, -, hr, -⟩ := h.entry_left hkept hy he
    rw [hresults, ← hr]
    exact ha.results p e₀ he₀
  · rw [hflights, hrequests]
    exact ha.answers.mono fun p a ht => h.told_left hkept hy ht
  · obtain ⟨e, he, hn, rfl⟩ := hv
    obtain ⟨he', hpy⟩ := h.unmarked_left hkept hy he hn
    exact h.met_left hkept (fun hqy => hpy (.head (h.adjacent he' hq) hqy))
      (ha.met p _ ⟨e, he', hn, rfl⟩ q hq)
  · rw [hseens]
    have hkey' : s.entries.get? f.key ≠ none := by
      obtain ⟨e, he⟩ := Option.ne_none_iff_exists'.1 hkey
      obtain ⟨-, e₀, he₀, -⟩ := h.entry_left hkept hy he
      rw [he₀]; simp
    have hchecks := ha.checks n f (hflights ▸ hf) hrun hkey'
    exact fun q hq => hchecks q (Context.embeds_of_same halike (h.same_of_seen hchecks) hq)

theorem Guarded.invalidate (h : Guarded x c k len n₀ i₀ asked s) (hkept : s.entries.get? y ≠ none)
    (hy : ¬ c.Same k y) :
    Guarded x (c.renew k (s.affected y).1) k len n₀ i₀ asked (s.invalidate y).2 := by
  obtain ⟨-, -, hflights, hrequests⟩ := frame_of_lapses (lapses_invalidate s y)
  obtain ⟨hs', hmir⟩ := h.mirrored.lapses h.coherent (lapses_invalidate s y)
  refine ⟨h.abreast_left hkept hy, hs', h.unhurried.congr hflights hrequests,
    h.spotless.congr hflights hrequests, hmir, h.constant, ?_, h.logical.congr hrequests⟩
  rw [(Prod.mk.inj (host_invalidate s y)).1]
  exact h.watched

/-! ### Asking the host -/

theorem Seen.append (h : s.Seen n₀ asked p) (new : List String) : s.Seen n₀ (asked ++ new) p :=
  h.imp_left (List.mem_append_left new)

/-- A path comes up when the host is asked about it and its source gives the same. -/
theorem Abreast.see (h : Abreast x c k len n₀ i₀ asked s) (hq : c.Same k q) :
    Abreast x c k len n₀ i₀ (asked ++ [q]) s := by
  have hmono : ∀ {r : String → String → Prop} {p}, Along r (s.Seen n₀ asked) p →
      Along r (s.Seen n₀ (asked ++ [q])) p := fun hseen => hseen.mono fun _ hp => hp.append [q]
  refine
    { lengths := h.lengths
      keyed := h.keyed
      steady := h.steady
      alike := h.alike
      catalog := h.catalog
      sound := h.sound
      absent := h.absent
      seen := fun p hp => ?_
      noted := h.noted
      results := h.results
      made := h.made
      formed := h.formed
      answers := h.answers.mono fun p a ht v hv => (ht v hv).imp_right (And.imp_left hmono)
      stands := fun p e he => (h.stands p e he).imp_left (And.imp_right hmono)
      met := h.met
      checks := fun n f hf hrun hkey => hmono (h.checks n f hf hrun hkey) }
  rcases hp with hp | hp
  · rcases List.mem_append.1 hp with hp | hp
    · exact h.seen p (.inl hp)
    · exact List.mem_singleton.1 hp ▸ hq
  · exact h.seen p (.inr hp)

theorem Guarded.quiet (h : Guarded x c k len n₀ i₀ asked s) (hq : Quiet s u)
    (hwatch : ∃ w, u.watch = some w ∧ w.Exact k) : Guarded x c k len n₀ i₀ asked u := by
  have hlapse : Lapse s u := .quiet hq
  obtain ⟨-, -, hflights, hrequests⟩ := hlapse.frame
  exact ⟨h.abreast.quiet hq, h.coherent.lapse hlapse, h.unhurried.congr hflights hrequests,
    h.spotless.congr hflights hrequests, h.mirrored.lapse h.coherent hlapse, h.constant, hwatch,
    h.logical.congr hrequests⟩

theorem Guarded.see (h : Guarded x c k len n₀ i₀ asked s) (hq : c.Same k q) :
    Guarded x c k len n₀ i₀ (asked ++ [q]) s :=
  ⟨h.abreast.see hq, h.coherent, h.unhurried, h.spotless, h.mirrored, h.constant, h.watched, h.logical⟩

/-- The sources give for a path what is kept of it was made of, or they do not. -/
theorem Guarded.same_iff (h : Guarded x c k len n₀ i₀ asked s) {e : Entry}
    (he : s.entries.get? q = some e) {d : Definition} (hd : k.entries.get? q = some d) :
    c.Same k q ↔ d.give 0 = .ok e.asset.raw := by
  obtain ⟨d₀, raw, hd₀, hraw, hprep⟩ := h.abreast.sound.held.reads q e he
  obtain ⟨ds, -, -, hasset, -⟩ := Context.prepare_eq_ok_iff.1 hprep
  rw [Catalog.Same, hd, hd₀, Option.map_some, Option.map_some, hraw, hasset]
  exact Option.some_inj

/-- A path that is in flight has come up. -/
theorem Guarded.seen_of_slot (h : Guarded x c k len n₀ i₀ asked s)
    (hq : s.flights.slots.get? q ≠ none) : s.Seen n₀ asked q := by
  obtain ⟨n, hn⟩ := Option.ne_none_iff_exists'.1 hq
  obtain ⟨f, hf, hk, -⟩ := h.coherent.wired.slot q n hn
  exact .inr ⟨n, f, h.abreast.sound.scope.slots q n hn, hf, hk⟩

/-- Once the host has been asked about a path, what is kept of it is not outdated. -/
theorem Guarded.checkPath (h : Guarded x c k len n₀ i₀ asked s) (q : String) :
    ∃ c' new, Guarded x c' k len n₀ i₀ (asked ++ new) (s.checkPath q) ∧
      (s.checkPath q).checked = s.checked ++ new ∧
      ((s.checkPath q).entries.get? q ≠ none → (s.checkPath q).Seen n₀ (asked ++ new) q) := by
  have hsame : s.checkPath q = s → (s.entries.get? q ≠ none → s.Seen n₀ asked q) →
      ∃ c' new, Guarded x c' k len n₀ i₀ (asked ++ new) (s.checkPath q) ∧
        (s.checkPath q).checked = s.checked ++ new ∧
        ((s.checkPath q).entries.get? q ≠ none → (s.checkPath q).Seen n₀ (asked ++ new) q) :=
    fun hs hseen => ⟨c, [], by rw [hs, List.append_nil, List.append_nil]; exact ⟨h, rfl, hseen⟩⟩
  obtain ⟨w, hw, hexact⟩ := h.watched
  cases he : s.entries.get? q with
  | none => exact hsame (by unfold Resolver.checkPath; rw [he, hw]) fun hne => absurd he hne
  | some e =>
      by_cases hbusy : s.flights.slots.get? q = none
      · have hidle := Table.inFlight_eq_false_iff.2 hbusy
        -- the question is noted in either case; only the answer decides whether the path is invalidated
        set s₁ : Resolver := { s with watch := some (w.ask q e).2, checked := s.checked ++ [q] } with hs₁
        have hcheck : s.checkPath q = if (w.ask q e).1 then (s₁.invalidate q).2 else s₁ := by
          unfold Resolver.checkPath
          rw [he, hw]
          dsimp only
          rw [hidle]
          rfl
        have h₁ : Guarded x c k len n₀ i₀ asked s₁ :=
          h.quiet (.intro _ _ _ _ _ _ fun hnone => by rw [hw] at hnone; cases hnone)
            ⟨_, rfl, fun n p e d => hexact n p e d⟩
        have hkept : s₁.entries.get? q ≠ none := by
          show s.entries.get? q ≠ none
          rw [he]
          simp
        obtain ⟨d, hd⟩ := Catalog.contains_iff.1 (h₁.contains hkept)
        have hstale : (w.ask q e).1 = true ↔ ¬ c.Same k q := by
          rw [h₁.abreast.catalog] at hd
          rw [h.same_iff he hd]
          exact hexact _ q e d hd
        rw [hcheck]
        by_cases hq : c.Same k q
        · rw [if_neg fun ht => hstale.1 ht hq]
          exact ⟨c, [q], h₁.see hq, rfl, fun _ => .inl (by simp)⟩
        · rw [if_pos (hstale.2 hq)]
          refine ⟨_, [q], (h₁.invalidate hkept hq).see (.of_renew h.abreast.alike (.inl ?_)), ?_,
            fun _ => .inl (by simp)⟩
          · exact self_mem_affected s₁ q
          · exact (Prod.mk.inj (host_invalidate s₁ q)).2
      · refine hsame ?_ fun _ => h.seen_of_slot hbusy
        unfold Resolver.checkPath
        rw [he, hw]
        dsimp only
        rw [if_pos (Bool.not_eq_false _ ▸ fun hf => hbusy (Table.inFlight_eq_false_iff.1 hf))]

/-! ### Asking the host about all that a path needs -/

theorem entry_of_lapses (hl : ReflTransGen Lapse s t) {e : Entry} (he : t.entries.get? q = some e) :
    ∃ e₀, s.entries.get? q = some e₀ ∧ e₀.resolved = e.resolved ∧
      (e.needsCheck = false → e₀.needsCheck = false) := by
  induction hl generalizing e with
  | refl => exact ⟨e, he, rfl, id⟩
  | tail _ hm ih =>
      obtain ⟨e₁, he₁, -, hr₁, hn₁⟩ := hm.entry he
      obtain ⟨e₀, he₀, hr, hn⟩ := ih he₁
      exact ⟨e₀, he₀, hr.trans hr₁, fun h => hn (hn₁ h)⟩

theorem Guarded.foldl_checkPath (h : Guarded x c k len n₀ i₀ asked s) (ps : List String) :
    ∃ c' new, Guarded x c' k len n₀ i₀ (asked ++ new) (ps.foldl Resolver.checkPath s) ∧
      (ps.foldl Resolver.checkPath s).checked = s.checked ++ new ∧
      ∀ q ∈ ps, (ps.foldl Resolver.checkPath s).entries.get? q ≠ none →
        (ps.foldl Resolver.checkPath s).Seen n₀ (asked ++ new) q := by
  induction ps generalizing c asked s with
  | nil => exact ⟨c, [], by rw [List.append_nil, List.append_nil]; exact ⟨h, rfl, by simp⟩⟩
  | cons p rest ih =>
      obtain ⟨c₁, new₁, h₁, hchecked₁, hp⟩ := h.checkPath p
      obtain ⟨c₂, new₂, h₂, hchecked₂, hrest⟩ := ih h₁
      have hl : ReflTransGen Lapse (s.checkPath p) (rest.foldl Resolver.checkPath (s.checkPath p)) :=
        lapses_foldl lapses_checkPath _ _
      rw [List.append_assoc] at h₂ hrest
      refine ⟨c₂, new₁ ++ new₂, h₂, by rw [List.foldl_cons, hchecked₂, hchecked₁, List.append_assoc],
        fun q hq hne => ?_⟩
      rcases List.mem_cons.1 hq with rfl | hq
      · -- nothing is kept anew
        obtain ⟨e, he⟩ := Option.ne_none_iff_exists'.1 hne
        obtain ⟨e₀, he₀, -⟩ := entry_of_lapses hl he
        rw [List.foldl_cons, seen_congr (frame_of_lapses hl).2.2.1, ← List.append_assoc]
        exact (hp (by rw [he₀]; simp)).append new₂
      · exact hrest q hq hne

/-- Where all that a path needed before and that is still kept has come up, so has all that a kept result
of it needs: what is not kept any more has been dropped, and all that includes it. -/
theorem Guarded.along_of_closure {c' : Catalog} {asked' : List String}
    (h : Guarded x c k len n₀ i₀ asked s) (h' : Guarded x c' k len n₀ i₀ asked' t)
    (hl : ReflTransGen Lapse s t) (hseen : ∀ q, ReflTransGen s.graph.Adjacent p q →
      t.entries.get? q ≠ none → t.Seen n₀ asked' q) (hp : t.entries.get? p ≠ none) :
    Along (x.Embeds c') (t.Seen n₀ asked') p ∧
      ∀ v, t.Usable p v → Along (x.Needs c') (t.Seen n₀ asked') p := by
  have hadj : ∀ {a e q}, t.entries.get? a = some e → q ∈ Edge.targets e.resolved.edges →
      s.graph.Adjacent a q := fun he hq => by
    obtain ⟨e₀, he₀, hr, -⟩ := entry_of_lapses hl he
    exact h.adjacent he₀ (hr ▸ hq)
  -- both go along what was needed before, from one path that is still kept to the next
  have hembeds : ∀ {a b}, ReflTransGen (x.Embeds c') a b → ReflTransGen s.graph.Adjacent p a →
      t.entries.get? a ≠ none → t.Seen n₀ asked' b := by
    intro a b hab
    induction hab using ReflTransGen.head_induction_on with
    | refl => exact hseen b
    | @head a a' haa' ha'b ih =>
        intro hpa hne
        obtain ⟨e, he⟩ := Option.ne_none_iff_exists'.1 hne
        rcases h'.abreast.stands a e he with ⟨-, hall⟩ | ⟨hinc, -⟩
        · exact hall.of_imp (fun _ _ => Context.Embeds.needs) b (.head haa' ha'b)
        · obtain ⟨_, _, hr, d, hd, rfl, hk⟩ := haa'
          obtain ⟨-, rfl⟩ := hr.unique (h'.abreast.sound.held.reads a e he)
          exact ih (hpa.tail (hadj he (Edge.mem_targets.2 ⟨d, hd, rfl⟩))) (hinc d hd hk)
  have hneeds : ∀ {a b v}, ReflTransGen (x.Needs c') a b → ReflTransGen s.graph.Adjacent p a →
      t.Usable a v → t.Seen n₀ asked' b := by
    intro a b v hab
    induction hab using ReflTransGen.head_induction_on generalizing v with
    | refl => exact fun hpa ⟨e, he, _⟩ => hseen b hpa (by rw [he]; simp)
    | @head a a' haa' ha'b ih =>
        rintro hpa ⟨e, he, hn, rfl⟩
        rcases h'.abreast.stands a e he with ⟨-, hall⟩ | ⟨-, hnext⟩
        · exact hall b (.head haa' ha'b)
        · obtain ⟨_, _, hr, hmem⟩ := haa'
          obtain ⟨-, rfl⟩ := hr.unique (h'.abreast.sound.held.reads a e he)
          obtain ⟨v', hv'⟩ := hnext hn a' hmem
          exact ih (hpa.tail (hadj he hmem)) hv'
  exact ⟨fun b hpb => hembeds hpb .refl hp, fun v hv b hpb => hneeds hpb .refl hv⟩

/-- A path is vetted when the host has been asked about all that it needs. -/
theorem Guarded.dropStale (h : Guarded x c k len n₀ i₀ asked s) (p : String) :
    ∃ c' new, Guarded x c' k len n₀ i₀ (asked ++ new) (s.dropStale p) ∧
      (s.dropStale p).checked = s.checked ++ new ∧
      Vetted x c' n₀ (asked ++ new) (s.dropStale p) p := by
  obtain ⟨c', new, h', hchecked, hseen⟩ := h.foldl_checkPath (s.graph.closure p)
  refine ⟨c', new, h', hchecked, fun _ e he => ?_⟩
  obtain ⟨hembeds, hneeds⟩ := h.along_of_closure (p := p) h' (lapses_dropStale s p)
    (fun q hq => hseen q (Graph.mem_closure.2 hq)) (by
      show (s.dropStale p).entries.get? p ≠ none
      rw [he]; simp)
  exact ⟨hembeds, fun hn => hneeds e.resolved ⟨e, he, hn, rfl⟩⟩

/-- So it is when a request has looked for a kept result of it. -/
theorem Guarded.kept? (h : Guarded x c k len n₀ i₀ asked s) (p : String) :
    ∃ c' new, Guarded x c' k len n₀ i₀ (asked ++ new) (s.kept? p).2 ∧
      (s.kept? p).2.checked = s.checked ++ new ∧
      Vetted x c' n₀ (asked ++ new) (s.kept? p).2 p := by
  obtain ⟨w, hw, -⟩ := h.watched
  by_cases hlook : (!s.entries.contains p || s.flights.inFlight p) = true
  · have hkept : (s.kept? p).2 = s := by
      unfold Resolver.kept?
      rw [if_pos hlook]
    refine ⟨c, [], by rw [hkept, List.append_nil]; exact h, by rw [hkept, List.append_nil], ?_⟩
    rw [hkept]
    intro hidle e he
    simp [PathMap.contains, he, Table.inFlight_eq_false_iff.2 hidle] at hlook
  · have hkept : (s.kept? p).2 = s.dropStale p := by
      unfold Resolver.kept?
      rw [if_neg hlook, hw]
      dsimp only [Option.isSome_some, if_true]
      split <;> rfl
    rw [hkept]
    exact h.dropStale p

end HashedAssets.Resolver
