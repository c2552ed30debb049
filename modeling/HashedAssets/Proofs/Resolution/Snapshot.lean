import HashedAssets.Proofs.Graph.Edges
import HashedAssets.Proofs.Resolution.Solutions
import HashedAssets.Resolution.Snapshot

/-!
# Snapshots are solutions

* `get?_raw_loadAll`, `mem_order`: what loading and placing the nodes of the graph give;
* `solves_of_resolveAll`: without faults every asset is resolved, with what its targets resolve to;
* `solves_of_build`: a snapshot holds the solution of each registered path.
-/

namespace HashedAssets

variable {x : Context} {c : Catalog}

namespace PathMap

variable {α β : Type}

@[simp] theorem get?_mapValues (f : String → α → β) (m : PathMap α) (p : String) :
    (m.mapValues f).get? p = (m.get? p).map (f p) := by
  have key : ∀ l : List (String × α),
      (l.map fun x => (x.1, f x.1 x.2)).lookup p = (l.lookup p).map (f p) := by
    intro l
    induction l with
    | nil => rfl
    | cons y rest ih =>
        rw [List.map_cons, lookup_cons_ite, lookup_cons_ite, ih]
        by_cases h : p = y.1
        · simp [h]
        · simp [h]
  exact key m.bindings

end PathMap

/-! ### Loading -/

namespace Snapshot

@[simp] theorem entries_loadAll (c : Catalog) (ds : List Definition) :
    (loadAll c ds).2.entries = c.entries := by
  induction ds generalizing c with
  | nil => rfl
  | cons d rest ih =>
      rw [loadAll]
      dsimp only
      split <;> simp [ih]

theorem get?_raw_loadAll (hs : c.Steady) {ds : List Definition}
    (hds : ∀ d ∈ ds, c.entries.get? d.path = some d) (h : (loadAll c ds).1.faults = [])
    {d : Definition} (hd : d ∈ ds) :
    ∃ b, d.give 0 = .ok b ∧ (loadAll c ds).1.raw.get? d.path = some b := by
  induction ds generalizing c with
  | nil => cases hd
  | cons e rest ih =>
      have hentries : (c.fetch e).2.entries = c.entries := Catalog.entries_fetch c e
      have hgive : (c.fetch e).1.result = e.give 0 := by
        rw [Catalog.result_fetch, hs _ e (hds e List.mem_cons_self)]
      have hs' : (c.fetch e).2.Steady := fun p d hd => hs p d (hentries ▸ hd)
      have hrest : ∀ d ∈ rest, (c.fetch e).2.entries.get? d.path = some d := fun d hd => by
        rw [hentries]; exact hds d (List.mem_cons_of_mem _ hd)
      rw [loadAll] at h ⊢
      dsimp only at h ⊢
      rw [hgive] at h ⊢
      cases hg : e.give 0 with
      | error f => rw [hg] at h; cases h
      | ok b =>
          rw [hg] at h
          dsimp only at h ⊢
          rw [PathMap.get?_insert]
          rcases List.mem_cons.1 hd with rfl | hd
          · exact ⟨b, hg, by simp⟩
          · split
            · next he =>
                -- the definitions have different paths, so nothing is loaded over what was
                have : d = e := by
                  have h1 := hds d (List.mem_cons_of_mem _ hd)
                  rw [he, hds e List.mem_cons_self] at h1
                  exact (Option.some.inj h1).symm
                subst this
                exact ⟨b, hg, rfl⟩
            · exact ih hs' hrest h hd

end Snapshot

/-! ### The order -/

namespace Graph

theorem mem_settle {q : String} {ws : List Waiting} {w : Waiting} (h : w ∈ ws) (hq : w.1 ≠ q) :
    ∃ w' ∈ settle q ws, w'.1 = w.1 :=
  ⟨_, List.mem_map.2 ⟨w, List.mem_filter.2 ⟨h, by simpa using hq⟩, rfl⟩, rfl⟩

/-- Each node is placed or left over. -/
theorem mem_place {ws : List Waiting} {w : Waiting} (h : w ∈ ws) :
    w.1 ∈ (place ws).1 ∨ w.1 ∈ (place ws).2 := by
  induction ws using place.induct generalizing w with
  | case1 ws hnone =>
      rw [place]
      split
      · exact .inr (List.mem_map.2 ⟨w, h, rfl⟩)
      · next hsome => rw [hnone] at hsome; cases hsome
  | case2 ws v hsome placed left hplace ih =>
      rw [place]
      split
      · next hnone => rw [hsome] at hnone; cases hnone
      · next v' hsome' =>
          rw [hsome] at hsome'; cases hsome'
          by_cases he : w.1 = v.1
          · exact .inl (by rw [he]; exact List.mem_cons_self)
          · obtain ⟨w', hw', hp⟩ := mem_settle h he
            rw [← hp]
            rcases ih hw' with h' | h'
            · exact .inl (List.mem_cons_of_mem _ h')
            · exact .inr h'

theorem mem_order {g : Graph} {order : List String} (h : g.order = .ok order) {p : String}
    (hp : p ∈ g.nodes) : p ∈ order := by
  have hw : (p, ascending (g.targetsOf p)) ∈ g.waiting := List.mem_map.2 ⟨p, hp, rfl⟩
  unfold Graph.order at h
  split at h
  · next placed heq =>
      cases h
      have := mem_place hw
      rw [heq] at this
      simpa using this
  · cases h

end Graph

/-! ### Resolving one after the other -/

namespace Snapshot

/-- As long as there are no faults no asset has failed, and what is resolved is a solution. -/
structure Progress.Sound (x : Context) (c : Catalog) (p : Progress) : Prop where
  failed : p.failed ≠ [] → p.faults ≠ []
  solves : ∀ t r, p.resolved.get? t = some r → x.Solves c t r

variable {p p' : Progress} {a : Prepared} {es : List Edge} {events : List Event}

/-- An asset is resolved, or fails with a fault of its own or of an asset that failed before. -/
theorem Progress.add_cases {d : Definition} {raw : Bytes} (h : x.prepare c d raw = .ok (a, es))
    (ha : p.add x c a es = (.ok p', events)) :
    (∃ r, x.resolve c a es p.resolved = .ok r ∧ p'.failed = p.failed ∧ p'.faults = p.faults ∧
      p'.resolved = p.resolved.insert a.definition.path r) ∨
    p'.resolved = p.resolved ∧
      ((p.failed ≠ [] ∧ p'.faults = p.faults) ∨ ∃ f, p'.faults = p.faults ++ [f]) := by
  unfold Progress.add at ha
  dsimp only at ha
  split at ha
  · next hany =>
      cases ha
      refine .inr ⟨rfl, .inl ⟨fun hnil => ?_, by simp⟩⟩
      simp [hnil] at hany
  · split at ha
    · next r hr => cases ha; exact .inl ⟨r, hr, rfl, rfl, rfl⟩
    · next f hr =>
        split at ha
        · next hf =>
            cases ha
            obtain ⟨g, rfl⟩ := Context.exists_eq_fault_of_resolve h hr hf
            exact .inr ⟨rfl, .inr ⟨g, rfl⟩⟩
        · cases ha

theorem Progress.Sound.add (hp : p.Sound x c) (h : x.Reads c a.definition.path a es)
    (ha : p.add x c a es = (.ok p', events)) : p'.Sound x c ∧
      (p'.faults = [] → p.faults = [] ∧ p'.resolved.contains a.definition.path = true ∧
        ∀ t, p.resolved.contains t = true → p'.resolved.contains t = true) := by
  have hreads := h
  obtain ⟨d, raw, -, -, hprep⟩ := h
  rcases Progress.add_cases hprep ha with ⟨r, hr, hfailed, hfaults, hres⟩ | ⟨hres, hf⟩
  · have hsolves : x.Solves c a.definition.path r := .intro hreads
      (Context.resolve_eq_ok_iff.1 hr).1 (fun t _ r' ht => hp.solves t r' ht) hr
    refine ⟨⟨by rw [hfailed, hfaults]; exact hp.failed, fun t r' ht => ?_⟩, fun hnil =>
      ⟨hfaults ▸ hnil, ?_, fun t ht => ?_⟩⟩
    · rw [hres, PathMap.get?_insert] at ht
      split at ht
      · next he => cases ht; exact he ▸ hsolves
      · exact hp.solves t r' ht
    · simp [PathMap.contains, hres]
    · rw [PathMap.contains, hres, PathMap.get?_insert]
      split
      · rfl
      · exact ht
  · have hne : p'.faults ≠ [] := by
      rcases hf with ⟨hne, he⟩ | ⟨f, he⟩
      · rw [he]; exact hp.failed hne
      · simp [he]
    exact ⟨⟨fun _ => hne, by rw [hres]; exact hp.solves⟩, fun hnil => absurd hnil hne⟩

/-- If no fault was found, every asset is resolved, to its solution. -/
theorem solves_of_resolveAll {work : List (Prepared × List Edge)} (hp : p.Sound x c)
    (hwork : ∀ y ∈ work, x.Reads c y.1.definition.path y.1 y.2)
    (h : resolveAll x c p work = (.ok p', events)) : p'.Sound x c ∧
      (p'.faults = [] → p.faults = [] ∧
        (∀ y ∈ work, p'.resolved.contains y.1.definition.path = true) ∧
        ∀ t, p.resolved.contains t = true → p'.resolved.contains t = true) := by
  induction work generalizing p with
  | nil =>
      cases h
      exact ⟨hp, fun hnil => ⟨hnil, by simp, fun _ h => h⟩⟩
  | cons y rest ih =>
      obtain ⟨a, es⟩ := y
      rw [resolveAll] at h
      split at h
      · next q ev hadd =>
          obtain ⟨hq, hqf⟩ := hp.add (hwork (a, es) List.mem_cons_self) hadd
          obtain ⟨hp', hf⟩ := ih hq (fun y hy => hwork y (List.mem_cons_of_mem _ hy)) h
          refine ⟨hp', fun hnil => ?_⟩
          obtain ⟨hqnil, hrest, hmono⟩ := hf hnil
          obtain ⟨hpnil, ha, hmono'⟩ := hqf hqnil
          refine ⟨hpnil, fun y hy => ?_, fun t ht => hmono t (hmono' t ht)⟩
          rcases List.mem_cons.1 hy with rfl | hy
          · exact hmono _ ha
          · exact hrest y hy
      · cases h

/-! ### Snapshots -/

theorem finish_uncompressed (x : Context) (c : Catalog) {r : Resolved} (hr : r.compressed = none) :
    { finish x c r with compressed := none } = r := by
  unfold finish
  obtain ⟨_, _, _, _, z, _, _, _⟩ := r
  subst hr
  split
  · split <;> rfl
  · rfl

theorem ofLoaded_eq_ok {l : Loaded} {snap : Snapshot} (h : (ofLoaded x c l).1 = .ok snap) :
    ∃ g directives order p events,
      Graph.build (x.registered c) (l.raw.mapValues fun q b =>
        ⟨b, ((c.entries.get? q).map (·.options.template)).getD true⟩) = .ok (g, directives) ∧
      g.order = .ok order ∧
      resolveAll x c ⟨∅, [], [], []⟩ (work c l.raw g directives order) = (.ok p, events) ∧
      p.faults = [] ∧ snap.assets = p.resolved.mapValues fun _ r => finish x c r := by
  unfold ofLoaded at h
  dsimp only at h
  split at h
  · cases h
  · next g directives hg =>
      split at h
      · cases h
      · next order horder =>
          split at h
          · cases h
          · next p events hp =>
              split at h
              · next hf =>
                  cases h
                  exact ⟨g, directives, order, p, events, hg, horder, hp, hf, rfl⟩
              · cases h

theorem build_eq_ok {snap : Snapshot} (h : (build x c).1 = .ok snap) :
    (loadAll c c.definitions).1.faults = [] ∧
      (ofLoaded x (loadAll c c.definitions).2 (loadAll c c.definitions).1).1 = .ok snap := by
  unfold build at h
  dsimp only at h
  split at h
  · next hnil => exact ⟨hnil, h⟩
  · cases h

theorem mem_definitions {d : Definition} : d ∈ c.definitions ↔ ∃ p, c.entries.get? p = some d := by
  simp [Catalog.definitions, PathMap.values, PathMap.get?_eq_some_iff]

/-- When all is loaded, the bytes of each asset have the directives and the edges that were found. -/
theorem exists_reads_of_load (hc : c.Keyed) (hs : c.Steady)
    (hnil : (loadAll c c.definitions).1.faults = []) {g : Graph}
    {directives : PathMap (List Directive)} {order : List String}
    (hg : Graph.build (x.registered (loadAll c c.definitions).2)
      ((loadAll c c.definitions).1.raw.mapValues fun q b =>
        ⟨b, (((loadAll c c.definitions).2.entries.get? q).map (·.options.template)).getD true⟩) =
      .ok (g, directives))
    (horder : g.order = .ok order) {q : String} {d : Definition} (hd : c.entries.get? q = some d) :
    ∃ b ds, (loadAll c c.definitions).1.raw.get? q = some b ∧ directives.get? q = some ds ∧
      q ∈ order ∧ x.Reads (loadAll c c.definitions).2 q ⟨d, b, ds⟩ (g.edgesOf q) := by
  have hdefs : ∀ d ∈ c.definitions, c.entries.get? d.path = some d := fun d hd => by
    obtain ⟨q, hq⟩ := mem_definitions.1 hd
    rw [hc q d hq]; exact hq
  obtain ⟨b, hgive, hraw⟩ := get?_raw_loadAll hs hdefs hnil (mem_definitions.2 ⟨q, hd⟩)
  have hpath := hc q d hd
  rw [hpath] at hraw
  have hd' : (loadAll c c.definitions).2.entries.get? q = some d :=
    entries_loadAll c c.definitions ▸ hd
  obtain ⟨ds, hds, hf, hdir, hedges, hnode⟩ := Graph.build_eq_ok hg (p := q)
    (a := ⟨b, d.options.template⟩) (by rw [PathMap.get?_mapValues, hraw, hd']; rfl)
  refine ⟨b, ds, hraw, hdir, Graph.mem_order horder hnode, d, b, hd', hgive,
    Context.prepare_eq_ok_iff.2 ⟨ds, hpath ▸ hds, ?_, rfl, hpath ▸ hedges⟩⟩
  rw [hpath]
  simpa [edgesFor] using hf

/-- A snapshot holds the solution of each registered path. -/
theorem solves_of_build (hc : c.Keyed) (hs : c.Steady) {snap : Snapshot}
    (h : (build x c).1 = .ok snap) {q : String} (hq : c.contains q = true) :
    ∃ r, snap.resolve q = .ok r ∧ x.Solves c q { r with compressed := none } := by
  obtain ⟨hnil, h⟩ := build_eq_ok h
  have hentries := entries_loadAll c c.definitions
  set c' := (loadAll c c.definitions).2
  set l := (loadAll c c.definitions).1 with hl
  obtain ⟨g, directives, order, p, events, hg, horder, hres, hfaults, hassets⟩ := ofLoaded_eq_ok h
  have hone : ∀ {q d}, c.entries.get? q = some d → ∃ b ds, l.raw.get? q = some b ∧
      directives.get? q = some ds ∧ q ∈ order ∧ x.Reads c' q ⟨d, b, ds⟩ (g.edgesOf q) :=
    fun hd => exists_reads_of_load hc hs hnil hg horder hd
  -- what is resolved is what was loaded and drawn, in the order of evaluation
  have hreads : ∀ y ∈ work c' l.raw g directives order,
      x.Reads c' y.1.definition.path y.1 y.2 := fun y hy => by
    obtain ⟨q', hq', hy⟩ := List.mem_filterMap.1 hy
    split at hy
    · next d b hd hb =>
        rw [hentries] at hd
        obtain ⟨b', ds, hraw, hdir, -, hreads⟩ := hone hd
        rw [hb] at hraw; cases hraw
        rw [hdir] at hy; cases hy
        rw [Option.getD_some, hc q' d hd]
        exact hreads
    · cases hy
  obtain ⟨hsound, hall⟩ := solves_of_resolveAll (p := ⟨∅, [], [], []⟩)
    ⟨fun h => absurd rfl h, fun t r ht => by cases ht⟩ hreads hres
  obtain ⟨d, hd⟩ := Catalog.contains_iff.1 hq
  obtain ⟨b, ds, hraw, hdir, horder', -⟩ := hone hd
  have hwork : (⟨d, b, ds⟩, g.edgesOf q) ∈ work c' l.raw g directives order :=
    List.mem_filterMap.2 ⟨q, horder', by rw [hentries, hd, hraw, hdir]; rfl⟩
  have hcontains := (hall hfaults).2.1 _ hwork
  rw [hc q d hd] at hcontains
  obtain ⟨r, hr⟩ := Option.isSome_iff_exists.1 hcontains
  have hsol := hsound.solves q r hr
  refine ⟨finish x c' r, ?_, ?_⟩
  · rw [resolve, hassets, PathMap.get?_mapValues, hr]
    rfl
  · rw [finish_uncompressed x c' hsol.compressed]
    exact hsol.congr hentries

end Snapshot

end HashedAssets
