import HashedAssets.Proofs.Resolution.Digests
import HashedAssets.Proofs.Resolver.Sound

/-!
# Kept results that are brought up to date

While requests are answered and nothing becomes outdated, a kept result that can be used goes on to be
of use, and so do those of all that it needs; a marked one is used again only when it is the solution.

* `Usable`: a kept result that can be used;
* `Results`, `CollisionFree`: what flights have ended with, and that no two of these share a digest;
* `Current`: what holds of kept results, marked or not;
* `Sound.reuses`: a kept result that is used again is the solution; `Landing.made`: it was made of
  results;
* `Current.advance`, `Run.current`: everything that goes on by itself keeps this.
-/

namespace HashedAssets.Resolver

open SingleFlight Relation

variable {x : Context} {c : Catalog} {len : Nat} {n₀ n : CallId} {i₀ : RequestId} {s u t : Resolver}
  {f : Flight} {p : String} {r : Resolved}

/-- A kept result that can be used. -/
def Usable (s : Resolver) (p : String) (r : Resolved) : Prop :=
  ∃ e, s.entries.get? p = some e ∧ e.needsCheck = false ∧ e.resolved = r

/-- A result that a flight has ended with. -/
def Results (s : Resolver) (r : Resolved) : Prop :=
  ∃ n c, s.flights.call? n = some c ∧ c.status = .finished (.result (.ok r))

theorem results_congr (h : u.flights = s.flights) : u.Results = s.Results := by
  funext v
  unfold Results
  rw [h]

/-- No two of the byte strings that were hashed for results have the same digest. -/
def CollisionFree (x : Context) (s : Resolver) : Prop :=
  ∀ r r', s.Results r → s.Results r' → x.hash r.preimage = x.hash r'.preimage →
    r.preimage = r'.preimage

/-- What holds of kept results while requests are answered: what a usable one needs is usable; each was
made of results, those included among them being made of the bytes as they are; and what flights and
requests have ended with can be used. -/
structure Current (x : Context) (c : Catalog) (len : Nat) (n₀ : CallId) (i₀ : RequestId)
    (s : Resolver) : Prop where
  lengths : ∀ b, (x.hash b).length = len
  sound : Sound x c n₀ i₀ s
  wanted : s.dropOnLanding = []
  closed : ∀ p r, s.Usable p r → ∀ q ∈ Edge.targets r.edges, ∃ v, s.Usable q v
  results : ∀ p e, s.entries.get? p = some e → s.Results e.resolved
  made : ∀ p e, s.entries.get? p = some e → x.Made c s.Results e.asset e.resolved
  formed : ∀ r, s.Results r → x.Formed c len r
  usable : Answers (fun p a => ∀ r, a = .ok r → s.Usable p r) n₀ i₀ s.flights s.requests

/-! ### Results before and after a move -/

theorem Results.move (h : s.Results r) (hm : Move s u) : u.Results r := by
  obtain ⟨n, c, hc, hst⟩ := h
  obtain ⟨c', hc', -, hst'⟩ := hm.finished hc hst
  exact ⟨n, c', hc', hst'⟩

theorem CollisionFree.of_results (h : CollisionFree x u) (hsub : ∀ r, s.Results r → u.Results r) :
    CollisionFree x s := fun r r' hr hr' => h r r' (hsub r hr) (hsub r' hr')

/-- A result was there before, or a flight has just ended with it. -/
theorem Results.of_move (h : u.Results r) (hm : Move s u) :
    s.Results r ∨ ∃ n c m, s.flights.call? n = some c ∧ c.cancelled = false ∧ Landing s c m r := by
  obtain ⟨k, c', hc', hst⟩ := h
  cases hm.before hc' with
  | same hc _ hst' _ => exact .inl ⟨k, _, hc, hst'.trans hst⟩
  | begun _ hl _ => rw [hst] at hl; cases hl
  | moved hc hm =>
      cases hst
      cases hm.stage hc hc' with
      | landed hgo hl _ => exact .inr ⟨k, _, _, hc, hgo, hl⟩

/-- A usable result stays: no flight for its path is under way. -/
theorem Usable.advance (h : s.Usable p r) (hs : Coherent s) (hwanted : s.dropOnLanding = [])
    (hm : Advance s u) : u.Usable p r := by
  obtain ⟨e, he, hn, hr⟩ := h
  have hland : ∀ {n c m v}, s.flights.call? n = some c → c.cancelled = false → Landing s c m v →
      m.get? p = some e := fun {n c m v} hc hgo hl => by
    obtain ⟨hother, -⟩ := hl.get? hs hc hgo
    rw [hother p ?_]
    · exact he
    · rintro rfl
      obtain ⟨a, es, kept, children, hst⟩ := hl.exists_gathering
      cases kept with
      | none => rw [hs.tended.absent hc hgo (.inr ⟨a, es, children, hst⟩)] at he; cases he
      | some k =>
          obtain ⟨e', he', hmarked, -⟩ := hs.tended.exists_entry hc hgo hst
          rw [he] at he'; cases he'
          rw [hn] at hmarked; cases hmarked
  cases hm with
  | calm hm =>
      cases hm with
      | quiet hq => cases hq; exact ⟨e, he, hn, hr⟩
      | request _ hm => cases hm <;> exact ⟨e, he, hn, hr⟩
  | forget _ _ => exact ⟨e, he, hn, hr⟩
  | flight hc hm =>
      cases hm with
      | land hgo hl _ => exact ⟨e, hland hc hgo hl, hn, hr⟩
      | discard _ _ hd => rw [hwanted] at hd; cases hd
      | _ => exact ⟨e, he, hn, hr⟩

theorem Advance.wanted (hm : Advance s u) (hwanted : s.dropOnLanding = []) :
    u.dropOnLanding = [] := by
  cases hm with
  | calm hm =>
      cases hm with
      | quiet hq => cases hq; exact hwanted
      | request _ hm => cases hm <;> exact hwanted
  | forget _ _ => exact hwanted
  | @flight n f _ hc hm =>
      have hback : s.dropOnLanding.filter (· != f.key) = [] := by rw [hwanted]; rfl
      cases hm <;> first | exact hwanted | exact hback

/-! ### Results that are used again -/

/-- What a flight gets from the requests it waits for can be used. -/
theorem Current.collect (h : Current x c len n₀ i₀ s) (hc : c.Keyed) (hs : Coherent s)
    (hf : s.flights.call? n = some f) {a : Prepared} {es : List Edge} {kept : Option Resolved}
    {children : List RequestId} (hst : f.status = .running (.gathering a es kept children))
    {m : PathMap Resolved} (hm : s.collect children = .result (.ok m)) {q : String} {v : Resolved}
    (hv : m.get? q = some v) : s.Usable q v := by
  obtain ⟨-, hsol⟩ := h.sound.collect hc hs hf hst hm
  obtain ⟨hpath, i, hi, ho⟩ := (collect_eq_ok hm).2 q v hv
  obtain ⟨r, q', hr, ht, -⟩ := hs.wired.exists_child hf hst hi
  obtain ⟨r', hr', hdone⟩ := outcome?_eq_some_iff.1 ho
  rw [hr] at hr'; cases hr'
  have hi₀ := h.sound.scope.children n f a es kept children hf hst i hi
  have hcorrect : x.Solves c q' v := h.sound.answers.requests i r _ q' hi₀ hr hdone ht
  have hq : q' = q := (hcorrect.path_eq hc).symm.trans hpath
  exact hq ▸ h.usable.requests i r _ q' hi₀ hr hdone ht v rfl

theorem Usable.results (h : Current x c len n₀ i₀ s) (hv : s.Usable p r) : s.Results r := by
  obtain ⟨e, he, -, rfl⟩ := hv
  exact h.results p e he

/-- What flights get from the requests they wait for are results. -/
def Gathered (s : Resolver) : Prop :=
  ∀ n f a es kept children m q v, s.flights.call? n = some f →
    f.status = .running (.gathering a es kept children) → s.collect children = .result (.ok m) →
      m.get? q = some v → s.Results v

/-- A kept result that is used again is the solution, as digests tell results apart. -/
theorem Sound.reuses (h : Sound x c n₀ i₀ s) (hc : c.Keyed) (hs : Coherent s)
    (hfree : CollisionFree x s) (hgathered : s.Gathered)
    (hmade : ∀ p e, s.entries.get? p = some e → x.Made c s.Results e.asset e.resolved)
    (hformed : ∀ r, s.Results r → x.Formed c len r) : Reuses x c s := by
  intro n f a es k children m hf hgo hst hans hcur
  obtain ⟨e, he, -, rfl, rfl, rfl⟩ := hs.tended.exists_entry hf hgo hst
  obtain ⟨hall, hsol⟩ := h.collect hc hs hf hst hans
  exact (hmade f.key e he).solves hc (h.held.reads f.key e he) hformed hfree hall
    (fun q v hv => ⟨hsol q v hv, hgathered n f _ _ _ _ m q v hf hst hans hv⟩) hcur

theorem Current.gathered (h : Current x c len n₀ i₀ s) (hc : c.Keyed) (hs : Coherent s) :
    s.Gathered :=
  fun _ _ _ _ _ _ _ _ _ hf hst hm hv => (h.collect hc hs hf hst hm hv).results h

theorem Current.reuses (h : Current x c len n₀ i₀ s) (hc : c.Keyed) (hs : Coherent s)
    (hfree : CollisionFree x s) : Reuses x c s :=
  h.sound.reuses hc hs hfree (h.gathered hc hs) h.made h.formed

/-! ### Moves -/

/-- What a result that a flight gets needs is usable. -/
theorem Landing.closed (h : Current x c len n₀ i₀ s) (hc : c.Keyed) (hs : Coherent s)
    (hf : s.flights.call? n = some f) (hgo : f.cancelled = false) {m : PathMap Entry}
    (hl : Landing s f m r) {q : String} (hq : q ∈ Edge.targets r.edges) : ∃ v, s.Usable q v := by
  obtain ⟨-, e, -, -, -, kept, children, hst⟩ := hl.get? hs hf hgo
  obtain ⟨a', es', kept', children', m', hst', hans⟩ := hl.collect
  rw [hst] at hst'; cases hst'
  obtain ⟨hall, -⟩ := h.sound.collect hc hs hf hst hans
  obtain ⟨v, hv⟩ := hall q hq
  exact ⟨v, h.collect hc hs hf hst hans hv⟩

/-- A result that a flight gets was made of results. -/
theorem Landing.made (h : Sound x c n₀ i₀ s) (hc : c.Keyed) (hs : Coherent s)
    (hlen : ∀ b, (x.hash b).length = len) (hgathered : s.Gathered)
    (hresults : ∀ p e, s.entries.get? p = some e → s.Results e.resolved)
    (hmade : ∀ p e, s.entries.get? p = some e → x.Made c s.Results e.asset e.resolved)
    (hformed : ∀ r, s.Results r → x.Formed c len r) (hf : s.flights.call? n = some f)
    (hgo : f.cancelled = false) {m : PathMap Entry} (hl : Landing s f m r) {e : Entry}
    (he : m.get? f.key = some e) : x.Made c s.Results e.asset r ∧ x.Formed c len r := by
  cases hl with
  | reuse hst hans hcur =>
      obtain ⟨e₀, he₀, -, rfl, rfl, rfl⟩ := hs.tended.exists_entry hf hgo hst
      rw [PathMap.get?_modify, if_pos rfl, he₀] at he
      cases he
      exact ⟨hmade f.key e₀ he₀, hformed _ (hresults f.key e₀ he₀)⟩
  | @renew a es kept children m' r hst hans _ hres =>
      rw [PathMap.get?_insert, if_pos rfl] at he
      cases he
      rw [h.held.context, Context.resolve_catalog_congr h.held.catalog] at hres
      have hedges : r.edges = es := (Context.resolve_eq_ok_iff.1 hres).2.2.2.2.2.2.1
      obtain ⟨hall, hsol⟩ := h.collect hc hs hf hst hans
      have hreads := h.held.reads_of_gathering hf hst
      refine ⟨⟨m', by rw [hedges]; exact hres, fun q hq v hv => ?_⟩, ?_⟩
      · have hv' := hsol q v hv
        refine ⟨hgathered n f _ _ _ _ m' q v hf hst hans hv, hv'.path_eq hc, fun _ _ _ _ => ?_⟩
        obtain ⟨hr, -, -, hvres⟩ := hv'
        exact ⟨_, (Context.resolve_eq_ok_iff.1 hvres).2.2.2.2.2.2.1 ▸ hr⟩
      · obtain ⟨d, raw, hd, -, hprep⟩ := hreads
        obtain ⟨ds, -, -, rfl, -⟩ := Context.prepare_eq_ok_iff.1 hprep
        exact Context.Formed.of_resolve hlen ((hc f.key d hd).symm ▸ hd)
          (fun q _ v hv => (hsol q v hv).exists_digest) hres

theorem Current.landing_made (h : Current x c len n₀ i₀ s) (hc : c.Keyed) (hs : Coherent s)
    (hf : s.flights.call? n = some f) (hgo : f.cancelled = false) {m : PathMap Entry}
    (hl : Landing s f m r) {e : Entry} (he : m.get? f.key = some e) :
    x.Made c s.Results e.asset r ∧ x.Formed c len r :=
  hl.made h.sound hc hs h.lengths (h.gathered hc hs) h.results h.made h.formed hf hgo he

theorem Current.advance (h : Current x c len n₀ i₀ s) (hc : c.Keyed) (hsteady : c.Steady)
    (hs : Coherent s) (hfree : CollisionFree x s) (hm : Advance s u) : Current x c len n₀ i₀ u where
  lengths := h.lengths
  sound := h.sound.move hc hsteady hs (h.reuses hc hs hfree) hm.move
  wanted := hm.wanted h.wanted
  closed p r hr q hq := by
    have hbefore : ∃ v, s.Usable q v := by
      obtain ⟨e, he, hn, rfl⟩ := hr
      rcases hm.move.entry hs he with ⟨e₀, he₀, -, hr, hn₀⟩ | ⟨n, f, m, hf, hgo, rfl, hl, -, -⟩
      · exact h.closed p _ ⟨e₀, he₀, hn₀ hn, hr⟩ q hq
      · exact hl.closed h hc hs hf hgo hq
    obtain ⟨v, hv⟩ := hbefore
    exact ⟨v, hv.advance hs h.wanted hm⟩
  results p e he := by
    rcases hm.move.entry hs he with ⟨e₀, he₀, -, hr, -⟩ | ⟨n, f, m, -, -, -, -, -, hf⟩
    · exact hr ▸ (h.results p e₀ he₀).move hm.move
    · exact ⟨n, _, hf, rfl⟩
  made p e he := by
    have hmono : ∀ v, s.Results v → u.Results v := fun v hv => hv.move hm.move
    rcases hm.move.entry hs he with ⟨e₀, he₀, ha, hr, -⟩ | ⟨n, f, m, hf, hgo, rfl, hl, hme, -⟩
    · exact ha ▸ hr ▸ (h.made p e₀ he₀).mono hmono
    · exact (h.landing_made hc hs hf hgo hl hme).1.mono hmono
  formed r hr := by
    rcases hr.of_move hm.move with hr | ⟨n, f, m, hf, hgo, hl⟩
    · exact h.formed r hr
    · obtain ⟨-, e, he, -⟩ := hl.get? hs hf hgo
      exact (h.landing_made hc hs hf hgo hl he).2
  usable := by
    have hmono : ∀ p (a : Answer), (∀ r, a = .ok r → s.Usable p r) → ∀ r, a = .ok r → u.Usable p r :=
      fun p a ha r hr => (ha r hr).advance hs h.wanted hm
    have hshift : Shift s u →
        Answers (fun p a => ∀ r, a = .ok r → u.Usable p r) n₀ i₀ u.flights u.requests := fun hm =>
      (h.usable.shift h.sound.scope hs (fun _ _ _ _ hr => by cases hr)
        (fun p e he hn r hr => by cases hr; exact ⟨e, he, hn, rfl⟩) hm).mono hmono
    cases hm with
    | calm hm => exact hshift hm.shift
    | forget hf hdone => exact hshift (.forget hf hdone)
    | flight hf hm =>
        refine (h.usable.mono hmono).flight hf hm fun a ha r hr => ?_
        cases hr
        cases hm.stage hf ha with
        | landed hgo hl hentries =>
            obtain ⟨-, e, he, hn, hr, -⟩ := hl.get? hs hf hgo
            rcases hentries with hentries | hd
            · exact ⟨e, hentries ▸ he, hn, hr⟩
            · rw [h.wanted] at hd; cases hd

/-- A whole run of what goes on by itself keeps it, if digests tell apart what is hashed until its
end. -/
theorem Run.current (hrun : Run Action.Internal s t) (hc : c.Keyed) (hsteady : c.Steady)
    (hw : s.watch = none) (hs : Coherent s) (h : Current x c len n₀ i₀ s)
    (hfree : CollisionFree x t) : t.watch = none ∧ Current x c len n₀ i₀ t := by
  obtain ⟨hwt, -, ht⟩ := hrun.induction_advance hw
    (P := fun u => Coherent u ∧ (CollisionFree x u → Current x c len n₀ i₀ u)) ⟨hs, fun _ => h⟩
    fun u v ⟨hu, hcur⟩ hm => ⟨hu.move hm.move, fun hfree => by
      have hfree' := hfree.of_results fun r hr => hr.move hm.move
      exact (hcur hfree').advance hc hsteady hu hfree' hm⟩
  exact ⟨hwt, ht hfree⟩

end HashedAssets.Resolver
