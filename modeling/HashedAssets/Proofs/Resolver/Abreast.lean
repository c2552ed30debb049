import HashedAssets.Proofs.Resolver.Current
import HashedAssets.Proofs.Resolver.Labels
import HashedAssets.Proofs.Resolver.Overlay

/-!
# Keeping abreast of sources

Sources change without a word, and what is kept may have been made of sources as they were. While an
asset is resolved the host is asked about all that is to be used, so each result goes with the sources as
they are.

* `Seen`: a path that has come up: the host was asked about it, or it has had a flight (`Flown`);
* `Met`: a path of which what is kept can be used, if anything is;
* `Spotless`: nothing has failed;
* `Abreast`: what holds of kept results and of answers meanwhile, with the sources that kept results were
  made of apart from those as they are;
* `Vetted`: whether what is kept of a path may be used or checked;
* `Abreast.flight`, `Abreast.request`: flights keep this, and so do requests for paths that are vetted.
-/

namespace HashedAssets.Resolver

open SingleFlight Relation

variable {x : Context} {c k : Catalog} {len : Nat} {n₀ n : CallId} {i₀ i : RequestId}
  {asked : List String} {s u : Resolver} {f : Flight} {r : Request} {p q : String} {v : Resolved}

/-! ### What has come up, and what has failed -/

/-- There was a flight for a path, from the flight of a given number on. -/
def Flown (s : Resolver) (n₀ : CallId) (p : String) : Prop :=
  ∃ n f, n₀ ≤ n ∧ s.flights.call? n = some f ∧ f.key = p

/-- A path has come up: the host was asked about it, or there was a flight for it. -/
def Seen (s : Resolver) (n₀ : CallId) (asked : List String) (p : String) : Prop :=
  p ∈ asked ∨ s.Flown n₀ p

/-- What is kept of a path can be used; or there was a flight for it, and nothing is kept of it. -/
def Met (s : Resolver) (n₀ : CallId) (p : String) : Prop :=
  (∃ v, s.Usable p v) ∨ s.entries.get? p = none ∧ s.Flown n₀ p

/-- No flight has failed, and no request from a given number on. -/
structure Spotless (i₀ : RequestId) (s : Resolver) : Prop where
  flights : ∀ n f g, s.flights.call? n = some f → f.status ≠ .finished (.result (.error g))
  requests : ∀ i g, i₀ ≤ i → s.outcome? i ≠ some (.result (.error g))

theorem Flown.move (h : s.Flown n₀ p) (hm : Move s u) : u.Flown n₀ p := by
  obtain ⟨n, f, hn, hf, hk⟩ := h
  obtain ⟨f', hf', hk', -⟩ := hm.exists_call? hf
  exact ⟨n, f', hn, hf', hk'.trans hk⟩

theorem Seen.move (h : s.Seen n₀ asked p) (hm : Move s u) : u.Seen n₀ asked p :=
  h.imp_right fun hp => hp.move hm

theorem Met.of_entry (h : s.Met n₀ p) (hflown : s.Flown n₀ p → u.Flown n₀ p)
    (hentry : u.entries.get? p = s.entries.get? p) : u.Met n₀ p := by
  unfold Met Usable
  rw [hentry]
  exact h.imp_right (And.imp_right hflown)

/-- Only a request that begins a flight brings up a path. -/
theorem Seen.of_flight (h : u.Seen n₀ asked p) (hf : s.flights.call? n = some f)
    (hm : FlightMove s n f u) : s.Seen n₀ asked p := by
  refine h.imp_right fun ⟨m, f', hn, hf', hk⟩ => ?_
  rcases hm.call?_cases hf hf' with ⟨rfl, st, rfl, -⟩ | ⟨-, hold⟩
  · exact ⟨m, f, hn, hf, hk⟩
  · exact ⟨m, f', hn, hold, hk⟩

/-- What has not failed has not failed before. -/
theorem Spotless.of_move (h : Spotless i₀ u) (hm : Move s u) : Spotless i₀ s where
  flights n f g hf hst := by
    obtain ⟨f', hf', -, hst'⟩ := hm.finished hf hst
    exact h.flights n f' g hf' hst'
  requests i g hi ho := h.requests i g hi (hm.outcome? ho)

/-! ### States -/

/-- What holds of a result that a flight or a request for a path has ended with: all that the asset needs
has come up, and what is kept of the path can be used, if anything is. -/
def Told (x : Context) (c : Catalog) (n₀ : CallId) (asked : List String) (s : Resolver) (p : String)
    (a : Answer) : Prop :=
  ∀ v, a = .ok v → s.Results v ∧ Along (x.Needs c) (s.Seen n₀ asked) p ∧ s.Met n₀ p

/-- How a kept result stands with those that it was made of: it can be used and all that it needs has come
up; or what it includes is kept, and what it needs can be used if it can itself. -/
def Stands (x : Context) (c : Catalog) (n₀ : CallId) (asked : List String) (s : Resolver) (p : String)
    (e : Entry) : Prop :=
  e.needsCheck = false ∧ Along (x.Needs c) (s.Seen n₀ asked) p ∨
    (∀ d ∈ e.resolved.edges, d.kind = .include → s.entries.get? d.target ≠ none) ∧
      (e.needsCheck = false → ∀ q ∈ Edge.targets e.resolved.edges, ∃ v, s.Usable q v)

/-- What holds while an asset is resolved. The sources `c` are those that kept results were made of, and
`k` the sources as they are: they give the same for what is not kept and for what has come up. With the
sources `c` all is correct. -/
structure Abreast (x : Context) (c k : Catalog) (len : Nat) (n₀ : CallId) (i₀ : RequestId)
    (asked : List String) (s : Resolver) : Prop where
  lengths : ∀ b, (x.hash b).length = len
  keyed : c.Keyed
  steady : c.Steady
  alike : c.Alike k
  catalog : s.catalog.entries = k.entries
  sound : Sound x c n₀ i₀ (s.upon c)
  absent : ∀ p, s.entries.get? p = none → c.entries.get? p = k.entries.get? p
  seen : ∀ p, s.Seen n₀ asked p → c.Same k p
  noted : ∀ p ∈ s.dropOnLanding, s.entries.get? p = none
  results : ∀ p e, s.entries.get? p = some e → s.Results e.resolved
  made : ∀ p e, s.entries.get? p = some e → x.Made c s.Results e.asset e.resolved
  formed : ∀ r, s.Results r → x.Formed c len r
  answers : Answers (Told x c n₀ asked s) n₀ i₀ s.flights s.requests
  stands : ∀ p e, s.entries.get? p = some e → Stands x c n₀ asked s p e
  met : ∀ p r, s.Usable p r → ∀ q ∈ Edge.targets r.edges, s.Met n₀ q
  checks : ∀ n f, s.flights.call? n = some f → f.isRunning = true → s.entries.get? f.key ≠ none →
    Along (x.Embeds c) (s.Seen n₀ asked) f.key

/-- Whether what is kept of a path without a flight may be used or checked: all that its bytes are made of
has come up, and so has all that it needs if it can be used. -/
def Vetted (x : Context) (c : Catalog) (n₀ : CallId) (asked : List String) (s : Resolver) (p : String) :
    Prop :=
  s.flights.slots.get? p = none → ∀ e, s.entries.get? p = some e →
    Along (x.Embeds c) (s.Seen n₀ asked) p ∧
      (e.needsCheck = false → Along (x.Needs c) (s.Seen n₀ asked) p)

/-! ### The sources of what is kept -/

theorem Abreast.alike_catalog (h : Abreast x c k len n₀ i₀ asked s) : c.Alike s.catalog :=
  h.alike.trans (.of_entries h.catalog)

theorem Abreast.absent_catalog (h : Abreast x c k len n₀ i₀ asked s) (p : String)
    (hp : s.entries.get? p = none) : c.entries.get? p = s.catalog.entries.get? p :=
  (h.absent p hp).trans (by rw [h.catalog])

theorem Abreast.coherent_upon (h : Abreast x c k len n₀ i₀ asked s) (hs : Coherent s) :
    Coherent (s.upon c) := ⟨h.keyed, hs.graph, hs.wired, hs.tended⟩

/-- What a flight gets from the requests that it waits for. -/
theorem Abreast.collect (h : Abreast x c k len n₀ i₀ asked s) (hs : Coherent s)
    (hf : s.flights.call? n = some f) {a : Prepared} {es : List Edge} {kept : Option Resolved}
    {children : List RequestId} (hst : f.status = .running (.gathering a es kept children))
    {m : PathMap Resolved} (hm : s.collect children = .result (.ok m)) :
    (∀ q ∈ Edge.targets es, Along (x.Needs c) (s.Seen n₀ asked) q ∧ s.Met n₀ q) ∧
    ∀ q v, m.get? q = some v → s.Results v := by
  obtain ⟨hall, hfrom⟩ := collect_eq_ok hm
  have htold : ∀ i ∈ children, ∀ q r v, s.requests[i]? = some r → r.target = .logical q →
      s.outcome? i = some (.result (.ok v)) → Told x c n₀ asked s q (.ok v) := by
    intro i hi q r v hr ht ho
    obtain ⟨r', hr', hdone⟩ := outcome?_eq_some_iff.1 ho
    rw [hr] at hr'; cases hr'
    have hi₀ := h.sound.scope.children n f a es kept children hf hst i hi
    exact h.answers.requests i r _ q hi₀ hr hdone ht
  refine ⟨fun q hq => ?_, fun q v hv => ?_⟩
  · obtain ⟨i, hi, r, hr, ht⟩ := hs.wired.exists_mem_children hf hst hq
    obtain ⟨v, ho, -⟩ := hall i hi
    exact (htold i hi q r v hr ht ho v rfl).2
  · obtain ⟨-, i, hi, ho⟩ := hfrom q v hv
    obtain ⟨r, q', hr, ht, -⟩ := hs.wired.exists_child hf hst hi
    exact (htold i hi q' r v hr ht ho v rfl).1

theorem Abreast.gathered (h : Abreast x c k len n₀ i₀ asked s) (hs : Coherent s) :
    (s.upon c).Gathered := fun _ _ _ _ _ _ _ q v hf hst hm hv =>
  (h.collect hs hf hst ((collect_upon s c _).symm.trans hm)).2 q v hv

theorem Abreast.reuses (h : Abreast x c k len n₀ i₀ asked s) (hs : Coherent s)
    (hfree : CollisionFree x s) : Reuses x c (s.upon c) :=
  h.sound.reuses h.keyed (h.coherent_upon hs) hfree (h.gathered hs) h.made h.formed

/-- All that an asset needs has come up when its flight gets a result. -/
theorem Landing.seen (h : Abreast x c k len n₀ i₀ asked s) (hs : Coherent s)
    (hf : s.flights.call? n = some f) (hgo : f.cancelled = false) {m : PathMap Entry}
    (hl : Landing s f m v) : Along (x.Needs c) (s.Seen n₀ asked) f.key ∧
      ∀ q ∈ Edge.targets v.edges, s.Met n₀ q := by
  obtain ⟨-, e, -, -, -, kept, children, hst⟩ := hl.get? hs hf hgo
  obtain ⟨_, _, _, _, m', hst', hans⟩ := hl.collect
  rw [hst] at hst'; cases hst'
  obtain ⟨hall, -⟩ := h.collect hs hf hst hans
  have hn : n₀ ≤ n := h.sound.scope.slots f.key n (hs.wired.held n f hf hl.isRunning hgo)
  refine ⟨.intro (.inr ⟨n, f, hn, hf, rfl⟩) fun q ⟨a, es, hr, hq⟩ => ?_, fun q hq => (hall q hq).2⟩
  obtain ⟨-, rfl⟩ := hr.unique (h.sound.held.reads_of_gathering hf hst)
  exact (hall q hq).1

/-! ### Flights -/

/-- What a flight that does not fail leaves: what was kept before, or its result besides. -/
inductive Keeps (s : Resolver) (n : CallId) (f : Flight) (u : Resolver) : Prop
  | same (entries : ∀ q, u.entries.get? q = s.entries.get? q) : Keeps s n f u
  | lands {e : Entry} {m : PathMap Entry} (others : ∀ q, q ≠ f.key → u.entries.get? q = s.entries.get? q)
      (entry : u.entries.get? f.key = some e) (unmarked : e.needsCheck = false)
      (wanted : f.key ∉ s.dropOnLanding) (ended : u.Ended n) (going : f.cancelled = false)
      (landing : Landing s f m e.resolved) : Keeps s n f u

theorem FlightMove.keeps (hm : FlightMove s n f u) (hs : Coherent s)
    (hnoted : ∀ p ∈ s.dropOnLanding, s.entries.get? p = none) (hf : s.flights.call? n = some f)
    (hspot : Spotless i₀ u) (hun : Unhurried u) : Keeps s n f u := by
  rcases hm.leaves hs hf with ⟨w, -, hentries, -⟩ | ⟨o, hu, hleaves, hothers, -⟩
  · exact .same fun q => by rw [hentries]
  · match o, hu, hleaves with
    | .cancelled, hu, _ => exact absurd rfl (hun.calls n _ hu).2
    | .result (.error g), hu, _ => exact absurd rfl (hspot.flights n _ g hu)
    | .result (.ok v), hu, hleaves =>
        rcases hleaves.of_ok with ⟨hmem, hnone⟩ | ⟨hwanted, e, he, hn, rfl⟩
        · -- nothing was kept of what is dropped
          refine .same fun q => ?_
          by_cases hq : q = f.key
          · rw [hq, hnone, hnoted _ hmem]
          · exact hothers q hq
        · cases hm.stage hf hu with
          | landed hgo hl _ => exact .lands hothers he hn hwanted ⟨_, hu, rfl⟩ hgo hl

theorem Keeps.entry (h : Keeps s n f u) {e : Entry} (he : u.entries.get? q = some e) :
    e.needsCheck = false ∨ s.entries.get? q = some e := by
  cases h with
  | same hsame => exact .inr (hsame q ▸ he)
  | lands hothers he' hn _ _ _ _ =>
      by_cases hq : q = f.key
      · subst hq
        rw [he] at he'; cases he'
        exact .inl hn
      · exact .inr (hothers q hq ▸ he)

theorem Keeps.kept (h : Keeps s n f u) (hq : s.entries.get? q ≠ none) : u.entries.get? q ≠ none := by
  cases h with
  | same hsame => rwa [hsame q]
  | lands hothers he' _ _ _ _ _ =>
      by_cases hqf : q = f.key
      · rw [hqf, he']; simp
      · rwa [hothers q hqf]

theorem Keeps.usable (h : Keeps s n f u) (hq : s.Usable q v) : ∃ v', u.Usable q v' := by
  obtain ⟨e, he, hn, -⟩ := hq
  obtain ⟨e', he'⟩ := Option.ne_none_iff_exists'.1 (h.kept (q := q) (by rw [he]; simp))
  rcases h.entry he' with hn' | heq
  · exact ⟨_, e', he', hn', rfl⟩
  · rw [he] at heq; cases heq
    exact ⟨_, e, he', hn, rfl⟩

/-- A result that has just been kept can be used. -/
theorem Met.keeps (h : s.Met n₀ p) (hm : Move s u) (hk : Keeps s n f u) : u.Met n₀ p := by
  rcases h with ⟨v, hv⟩ | ⟨hnone, hflown⟩
  · exact .inl (hk.usable hv)
  · cases he : u.entries.get? p with
    | none => exact .inr ⟨he, hflown.move hm⟩
    | some e =>
        rcases hk.entry he with hn | he'
        · exact .inl ⟨_, e, he, hn, rfl⟩
        · rw [hnone] at he'; cases he'

theorem Told.move {a : Answer} (h : Told x c n₀ asked s p a) (hm : Move s u)
    (hmet : s.Met n₀ p → u.Met n₀ p) : Told x c n₀ asked u p a := by
  intro v hv
  obtain ⟨hres, hseen, hp⟩ := h v hv
  exact ⟨hres.move hm, hseen.mono fun q hq => hq.move hm, hmet hp⟩

theorem Stands.move {e : Entry} (h : Stands x c n₀ asked s p e) (hm : Move s u)
    (hkept : ∀ q, s.entries.get? q ≠ none → u.entries.get? q ≠ none)
    (husable : ∀ q v, s.Usable q v → ∃ v', u.Usable q v') : Stands x c n₀ asked u p e := by
  rcases h with ⟨hn, hseen⟩ | ⟨hinc, hus⟩
  · exact .inl ⟨hn, hseen.mono fun q hq => hq.move hm⟩
  · exact .inr ⟨fun d hd hk => hkept _ (hinc d hd hk), fun hn q hq => by
      obtain ⟨v, hv⟩ := hus hn q hq
      exact husable q v hv⟩

/-- What holds of what is kept when a flight has gone on. -/
theorem Abreast.stands_flight (h : Abreast x c k len n₀ i₀ asked s) (hs : Coherent s)
    (hf : s.flights.call? n = some f) (hm : FlightMove s n f u) (hkeeps : Keeps s n f u) {e : Entry}
    (he : u.entries.get? p = some e) : Stands x c n₀ asked u p e := by
  have hmove : Move s u := .inr ⟨n, .inr ⟨f, hf, hm⟩⟩
  have hold : s.entries.get? p = some e → Stands x c n₀ asked u p e := fun he₀ =>
    (h.stands p e he₀).move hmove (fun _ => hkeeps.kept) fun _ _ => hkeeps.usable
  cases hkeeps with
  | same hsame => exact hold (hsame p ▸ he)
  | lands hothers he' hn _ _ hgo hl =>
      by_cases hp : p = f.key
      · subst hp
        rw [he] at he'; cases he'
        exact .inl ⟨hn, (hl.seen h hs hf hgo).1.mono fun q hq => hq.move hmove⟩
      · exact hold (hothers p hp ▸ he)

theorem Abreast.met_flight (h : Abreast x c k len n₀ i₀ asked s) (hs : Coherent s)
    (hf : s.flights.call? n = some f) (hm : FlightMove s n f u) (hkeeps : Keeps s n f u)
    (hp : u.Usable p v) (hq : q ∈ Edge.targets v.edges) : u.Met n₀ q := by
  have hmove : Move s u := .inr ⟨n, .inr ⟨f, hf, hm⟩⟩
  refine Met.keeps ?_ hmove hkeeps
  obtain ⟨e, he, hn, rfl⟩ := hp
  have hold : s.entries.get? p = some e → s.Met n₀ q := fun he₀ => h.met p _ ⟨e, he₀, hn, rfl⟩ q hq
  cases hkeeps with
  | same hsame => exact hold (hsame p ▸ he)
  | lands hothers he' _ _ _ hgo hl =>
      by_cases hp : p = f.key
      · subst hp
        rw [he] at he'; cases he'
        exact (hl.seen h hs hf hgo).2 q hq
      · exact hold (hothers p hp ▸ he)

theorem Abreast.checks_flight (h : Abreast x c k len n₀ i₀ asked s) (hs : Coherent s)
    (hf : s.flights.call? n = some f) (hm : FlightMove s n f u) (hkeeps : Keeps s n f u)
    (hun : Unhurried u) {m : CallId} {g : Flight} (hg : u.flights.call? m = some g)
    (hrun : g.isRunning = true) (hkey : u.entries.get? g.key ≠ none) :
    Along (x.Embeds c) (s.Seen n₀ asked) g.key := by
  rcases hm.call?_cases hf hg with ⟨rfl, st, rfl, -⟩ | ⟨hmn, hold⟩
  · cases hkeeps with
    | same hsame => exact h.checks m f hf hm.isRunning (hsame f.key ▸ hkey)
    | lands _ _ _ _ hended _ _ =>
        obtain ⟨g', hg', hend⟩ := hended
        rw [hg] at hg'; cases hg'
        rw [hend] at hrun; cases hrun
  · cases hkeeps with
    | same hsame => exact h.checks m g hold hrun (hsame g.key ▸ hkey)
    | lands hothers _ _ _ _ hgo' _ =>
        -- there is one flight for a path at a time
        have hne : g.key ≠ f.key := fun he =>
          hmn (hs.wired.eq_of_key hf hm.isRunning hgo' hold hrun (hun.calls m g hg).1 he)
        exact h.checks m g hold hrun (hothers g.key hne ▸ hkey)

theorem Abreast.answers_flight (h : Abreast x c k len n₀ i₀ asked s) (hs : Coherent s)
    (hf : s.flights.call? n = some f) (hm : FlightMove s n f u) (hkeeps : Keeps s n f u) :
    Answers (Told x c n₀ asked u) n₀ i₀ u.flights u.requests := by
  have hmove : Move s u := .inr ⟨n, .inr ⟨f, hf, hm⟩⟩
  refine (h.answers.mono fun p a ht => ht.move hmove fun hp => hp.keeps hmove hkeeps).flight
    hf hm fun a ha v hv => ?_
  subst hv
  cases hm.stage hf ha with
  | landed hgo hl _ =>
      refine ⟨⟨n, _, ha, rfl⟩, (hl.seen h hs hf hgo).1.mono fun q hq => hq.move hmove, ?_⟩
      have hn : n₀ ≤ n := h.sound.scope.slots f.key n (hs.wired.held n f hf hl.isRunning hgo)
      -- the result is kept, unless it is dropped
      rcases hm.leaves hs hf with ⟨w, hu, -⟩ | ⟨o, hu, hleaves, -⟩
      · rw [hu] at ha; cases ha
      · rw [hu] at ha; cases ha
        rcases hleaves.of_ok with ⟨-, hnone⟩ | ⟨-, e, he, hunmarked, -⟩
        · exact .inr ⟨hnone, n, _, hn, hu, rfl⟩
        · exact .inl ⟨_, e, he, hunmarked, rfl⟩

theorem Abreast.flight (h : Abreast x c k len n₀ i₀ asked s) (hs : Coherent s)
    (hfree : CollisionFree x s) (hf : s.flights.call? n = some f) (hm : FlightMove s n f u)
    (hspot : Spotless i₀ u) (hun : Unhurried u) : Abreast x c k len n₀ i₀ asked u := by
  have hmove : Move s u := .inr ⟨n, .inr ⟨f, hf, hm⟩⟩
  have hmono : ∀ v, s.Results v → u.Results v := fun v hv => hv.move hmove
  -- with the sources that kept results were made of, the flight makes the same move
  have hupon : Move (s.upon c) (u.upon c) :=
    .inr ⟨n, .inr ⟨f, hf, hm.upon h.alike_catalog hs h.absent_catalog hf⟩⟩
  have hs' := h.coherent_upon hs
  have hkeeps := hm.keeps hs h.noted hf hspot hun
  have hland : ∀ {j} {g : Flight} {m v e}, s.flights.call? j = some g → g.cancelled = false →
      Landing s g m v → m.get? g.key = some e →
      x.Made c s.Results e.asset v ∧ x.Formed c len v := fun hg hgo hl he =>
    (hl.upon h.alike_catalog).made h.sound h.keyed hs' h.lengths (h.gathered hs) h.results h.made
      h.formed hg hgo he
  refine
    { lengths := h.lengths
      keyed := h.keyed
      steady := h.steady
      alike := h.alike
      catalog := hmove.frame.2.trans h.catalog
      sound := h.sound.move h.keyed h.steady hs' (h.reuses hs hfree) hupon
      absent := fun p hp => h.absent p (not_not.1 fun hne => hkeeps.kept hne hp)
      seen := fun p hp => h.seen p (hp.of_flight hf hm)
      noted := fun p hp => ?_
      results := fun p e he => ?_
      made := fun p e he => ?_
      formed := fun r hr => ?_
      answers := h.answers_flight hs hf hm hkeeps
      stands := fun p e he => h.stands_flight hs hf hm hkeeps he
      met := fun p r hr q hq => h.met_flight hs hf hm hkeeps hr hq
      checks := fun m g hg hrun hkey =>
        (h.checks_flight hs hf hm hkeeps hun hg hrun hkey).mono fun q hq => hq.move hmove }
  · have hmem := hm.of_mem_dropOnLanding hp
    cases hkeeps with
    | same hsame => exact (hsame p).trans (h.noted p hmem)
    | lands hothers _ _ hwanted _ _ _ =>
        exact (hothers p fun hpf => hwanted (hpf ▸ hmem)).trans (h.noted p hmem)
  · -- what is kept was kept before, or is the result of a flight that ends
    rcases hmove.entry hs he with ⟨e₀, he₀, -, hr, -⟩ | ⟨m, g, _, -, -, -, -, -, hg⟩
    · exact hr ▸ hmono _ (h.results p e₀ he₀)
    · exact ⟨m, _, hg, rfl⟩
  · rcases hmove.entry hs he with ⟨e₀, he₀, ha, hr, -⟩ | ⟨m, g, _, hg, hgo, rfl, hl, hme, -⟩
    · exact ha ▸ hr ▸ (h.made p e₀ he₀).mono hmono
    · exact (hland hg hgo hl hme).1.mono hmono
  · rcases hr.of_move hmove with hr | ⟨m, g, _, hg, hgo, hl⟩
    · exact h.formed r hr
    · obtain ⟨-, e, he, -⟩ := hl.get? hs hg hgo
      exact (hland hg hgo hl he).2

/-! ### Requests -/

/-- Moves that leave all that is kept as it is, where each flight that they begin may begin. -/
theorem Abreast.shift (h : Abreast x c k len n₀ i₀ asked s) (hs : Coherent s)
    (hfree : CollisionFree x s) (hm : Shift s u) (hupon : Shift (s.upon c) (u.upon c))
    (hentries : u.entries = s.entries) (hnoted : u.dropOnLanding = s.dropOnLanding)
    (hnew : ∀ g, u.flights.call? s.flights.calls.length = some g → c.Same k g.key ∧
      (s.entries.get? g.key ≠ none → Along (x.Embeds c) (s.Seen n₀ asked) g.key))
    (hanswers : Answers (Told x c n₀ asked u) n₀ i₀ u.flights u.requests) :
    Abreast x c k len n₀ i₀ asked u := by
  have hmove : Move s u := .inl hm
  have hresults : ∀ v, s.Results v → u.Results v := fun v hv => hv.move hmove
  refine
    { lengths := h.lengths
      keyed := h.keyed
      steady := h.steady
      alike := h.alike
      catalog := hmove.frame.2.trans h.catalog
      sound := h.sound.move h.keyed h.steady (h.coherent_upon hs) (h.reuses hs hfree) (.inl hupon)
      absent := fun p hp => h.absent p (hentries ▸ hp)
      seen := fun p hp => ?_
      noted := fun p hp => hentries ▸ h.noted p (hnoted ▸ hp)
      results := fun p e he => hresults _ (h.results p e (hentries ▸ he))
      made := fun p e he => (h.made p e (hentries ▸ he)).mono hresults
      formed := fun v ⟨m, g, hg, hst⟩ => ?_
      answers := hanswers
      stands := fun p e he => (h.stands p e (hentries ▸ he)).move hmove (fun q hq => hentries ▸ hq)
        fun q v hv => ⟨v, by rw [Usable, hentries]; exact hv⟩
      met := fun p r hr q hq =>
        (h.met p r (by rw [Usable, hentries] at hr; exact hr) q hq).of_entry (·.move hmove) (by rw [hentries])
      checks := fun m g hg hrun hkey => ?_ }
  · -- a path that comes up is that of a flight that begins
    rcases hp with hp | ⟨m, g, hn, hg, rfl⟩
    · exact h.seen p (.inl hp)
    · rcases hm.call? hg with ⟨g₀, hg₀, hk, -⟩ | ⟨rfl, -⟩
      · exact h.seen _ (.inr ⟨m, g₀, hn, hg₀, hk⟩)
      · exact (hnew g hg).1
  · rcases hm.call? hg with ⟨g₀, hg₀, -, hst₀, -⟩ | ⟨-, hl⟩
    · exact h.formed v ⟨m, g₀, hg₀, hst₀.trans hst⟩
    · rw [hst] at hl; cases hl
  · -- a flight that begins for what is kept is vetted by its request
    suffices hsuf : Along (x.Embeds c) (s.Seen n₀ asked) g.key from hsuf.mono fun q hq => hq.move hmove
    rw [hentries] at hkey
    rcases hm.call? hg with ⟨g₀, hg₀, hk, hst₀, -⟩ | ⟨rfl, -⟩
    · exact hk ▸ h.checks m g₀ hg₀ ((isRunning_congr hst₀).trans hrun) (hk ▸ hkey)
    · exact (hnew g hg).2 hkey

theorem Abreast.quiet (h : Abreast x c k len n₀ i₀ asked s) (hq : Quiet s u) :
    Abreast x c k len n₀ i₀ asked u := by
  have hsound := h.sound.quiet (hq.upon c)
  cases hq
  exact ⟨h.lengths, h.keyed, h.steady, h.alike, h.catalog, hsound, h.absent, h.seen, h.noted, h.results,
    h.made, h.formed, ⟨h.answers.flights, h.answers.requests⟩, h.stands, h.met, h.checks⟩

theorem Abreast.forget (h : Abreast x c k len n₀ i₀ asked s) (hs : Coherent s)
    (hfree : CollisionFree x s) (hf : s.flights.call? n = some f) (hdone : f.isRunning = false) :
    Abreast x c k len n₀ i₀ asked { s with flights := s.flights.forget n } := by
  have hm : Shift s { s with flights := s.flights.forget n } := .forget hf hdone
  refine h.shift hs hfree hm (.forget (s := s.upon c) hf hdone) rfl rfl (fun g hg => ?_) ?_
  · have hlt := Table.lt_of_call?_eq_some hg
    exact absurd ((Table.length_forget _ _).symm ▸ hlt) (Nat.lt_irrefl _)
  · refine (h.answers.mono fun p a ht => ht.move (.inl hm) fun hp => ?_).calls hm
    exact hp.of_entry (·.move (.inl hm)) rfl

/-- A request that goes on is not fresh any more. -/
theorem RequestMove.not_fresh (hm : RequestMove s i r u) (hr : s.requests[i]? = some r) {r' : Request}
    (hr' : u.requests[i]? = some r') : r'.target = r.target ∧ r'.caller ≠ .fresh := by
  have hset : ∀ {rs : List Request} {y : Caller Answer}, Hushed s.requests rs → y ≠ .fresh →
      u.requests = rs.modify i (fun r => { r with caller := y }) →
      r'.target = r.target ∧ r'.caller ≠ .fresh := fun {rs y} hrs hy hu => by
    rw [hu] at hr'
    obtain ⟨r₁, hr₁, ⟨-, rfl⟩ | ⟨hne, -⟩⟩ := request_of_modify hr'
    · obtain ⟨r₀, hr₀, htarget, -⟩ := hrs.exists_eq hr₁
      rw [hr] at hr₀; cases hr₀
      exact ⟨htarget.symm, hy⟩
    · exact absurd rfl hne
  cases hm with
  | take _ _ hrs _ => exact hset hrs (by simp) rfl
  | quit _ _ => exact hset (.refl _) (by simp) rfl
  | refuse _ _ _ => exact hset (.refl _) (by simp) rfl
  | hit _ _ _ _ _ _ _ => exact hset (.refl _) (by simp) rfl
  | join _ _ _ _ => exact hset (.refl _) (by simp) rfl
  | launch _ _ _ _ _ _ => exact hset (.refl _) (by simp) rfl

theorem RequestMove.entries (hm : RequestMove s i r u) :
    u.entries = s.entries ∧ u.dropOnLanding = s.dropOnLanding := by
  cases hm <;> exact ⟨rfl, rfl⟩

theorem Abreast.request (h : Abreast x c k len n₀ i₀ asked s) (hs : Coherent s)
    (hfree : CollisionFree x s) (hr : s.requests[i]? = some r) (ht : r.target = .logical p)
    (hvetted : r.caller = .fresh → Vetted x c n₀ asked s p) (hm : RequestMove s i r u) :
    Abreast x c k len n₀ i₀ asked u := by
  have hshift : Shift s u := .request hr hm
  obtain ⟨hentries, hnoted⟩ := hm.entries
  refine h.shift hs hfree hshift (.request (s := s.upon c) hr (hm.upon h.alike_catalog)) hentries
    hnoted (fun g hg => ?_) ?_
  · have hlaunch := hm.begins hg
    obtain rfl := hlaunch.target p ht
    have hkept : s.entries.get? g.key ≠ none → Along (x.Embeds c) (s.Seen n₀ asked) g.key := fun hne => by
      obtain ⟨e, he⟩ := Option.ne_none_iff_exists'.1 hne
      exact (hvetted hlaunch.fresh hlaunch.idle e he).1
    refine ⟨?_, hkept⟩
    by_cases hnone : s.entries.get? g.key = none
    · exact .of_eq (h.absent _ hnone).symm
    · exact h.seen _ (hkept hnone).self
  · have htold := h.answers.mono fun q a ha => ha.move (.inl hshift) fun hq =>
      hq.of_entry (·.move (.inl hshift)) (by rw [hentries])
    refine htold.request h.sound.scope hs hr hm (fun q g _ _ v hv => by cases hv)
      fun q e hq hfresh hidle he hn v hv => ?_
    rw [ht] at hq
    cases hq
    cases hv
    refine ⟨(h.results p e he).move (.inl hshift), ?_, .inl ⟨_, e, hentries ▸ he, hn, rfl⟩⟩
    exact ((hvetted hfresh hidle e he).2 hn).mono fun q hq => hq.move (.inl hshift)

/-! ### Pieces -/

theorem Abreast.flightSteps (h : Abreast x c k len n₀ i₀ asked s) (hs : Coherent s)
    (hun : Unhurried s) (hsteps : ReflTransGen (FlightStep n) s u) (hfree : CollisionFree x u)
    (hspot : Spotless i₀ u) : Abreast x c k len n₀ i₀ asked u := by
  suffices hall : Abreast x c k len n₀ i₀ asked u ∧ Coherent u ∧ Unhurried u from hall.1
  induction hsteps with
  | refl => exact ⟨h, hs, hun⟩
  | @tail t u _ hm ih =>
      have hmove : Move t u := .inr ⟨n, hm⟩
      have hfree' := hfree.of_results fun r hr => hr.move hmove
      obtain ⟨ht, hs', hun'⟩ := ih hfree' (hspot.of_move hmove)
      refine ⟨?_, hs'.move hmove, hun'.move hmove⟩
      rcases hm with hq | ⟨f, hf, hm⟩
      · exact ht.quiet hq
      · exact ht.flight hs' hfree' hf hm hspot (hun'.move hmove)

theorem Abreast.requestSteps (h : Abreast x c k len n₀ i₀ asked s) (hs : Coherent s)
    (hr : ∀ r, s.requests[i]? = some r → r.target = .logical p ∧
      (r.caller = .fresh → Vetted x c n₀ asked s p))
    (hsteps : ReflTransGen (RequestStep i) s u) (hfree : CollisionFree x u) :
    Abreast x c k len n₀ i₀ asked u := by
  suffices hall : Abreast x c k len n₀ i₀ asked u ∧ Coherent u ∧ ∀ r, u.requests[i]? = some r →
      r.target = .logical p ∧ (r.caller = .fresh → Vetted x c n₀ asked u p) from hall.1
  induction hsteps with
  | refl => exact ⟨h, hs, hr⟩
  | @tail t u _ hm ih =>
      rcases hm with hq | ⟨r, hreq, hm⟩
      · obtain ⟨ht, hs', hr'⟩ := ih (hfree.of_results fun v hv => hv.move (.inl (.lapse (.quiet hq))))
        refine ⟨ht.quiet hq, hs'.lapse (.quiet hq), ?_⟩
        cases hq; exact hr'
      · have hshift : Shift t u := .request hreq hm
        have hfree' := hfree.of_results fun v hv => hv.move (.inl hshift)
        obtain ⟨ht, hs', hr'⟩ := ih hfree'
        obtain ⟨htarget, hvetted⟩ := hr' r hreq
        refine ⟨ht.request hs' hfree' hreq htarget hvetted hm, hs'.shift hshift, fun r' hr'' => ?_⟩
        obtain ⟨htarget', hnot⟩ := hm.not_fresh hreq hr''
        exact ⟨htarget'.trans htarget, fun hfresh => absurd hfresh hnot⟩

end HashedAssets.Resolver
