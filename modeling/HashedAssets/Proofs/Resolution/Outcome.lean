import HashedAssets.Proofs.Resolution.Pass

/-!
# How a build ends

A build ends with the faults of all loaders that fail, or with those of the graph, or with one fault for
each asset that is to blame for a missing variable, or with all assets resolved.

* `Snapshot.traced_of_build`: what a build comes to once there is a graph;
* `Snapshot.Solved`, `Snapshot.solved_of_build`: what is known of a snapshot that was built;
* `Snapshot.outcome_of_build`: the four ends, and when each of them is met.
-/

namespace HashedAssets.Snapshot

variable {x : Context} {c : Catalog} {g : Graph} {directives : PathMap (List Directive)}

/-- The graph of a build has the registered paths as its nodes. -/
theorem nodes_eq_paths (hg : Graph.build (x.registered c) c.rawAssets = .ok (g, directives)) :
    g.nodes = c.paths := by
  rw [← Catalog.keys_rawAssets]
  exact Graph.nodes_of_build hg fun q hq => Catalog.mem_rawAssets.2 (Context.isRegistered_iff.1 hq)

/-- Once there is a graph there is an order of evaluation, and a build resolves the assets in it. -/
theorem traced_of_build (hc : c.Keyed) (hload : c.loadFaults = [])
    (hg : Graph.build (x.registered c) c.rawAssets = .ok (g, directives)) :
    ∃ order, g.order = .ok order ∧ order.Perm c.paths ∧ g.Founded order.reverse ∧
      ((∃ q, Progress.Traced x c g order.reverse q ∧ (build x c).1 = match q.faults with
        | [] => .ok (ofProgress x c g order q)
        | faults => .error (.build faults)) ∨
      ¬ x.LongDigests ∧ ∃ f, (build x c).1 = .error f) := by
  rcases build_of_loaded hc hload with ⟨fs, hfs, -⟩ | ⟨g', _, order, line, hg', horder, hline, hbuild⟩
  · rw [hg] at hfs; cases hfs
  · rw [hg] at hg'
    cases hg'
    have hperm : order.Perm c.paths := nodes_eq_paths hg ▸ Graph.perm_of_order horder
    have hfounded := Graph.founded_reverse_of_order horder
    have hnodup : order.Nodup :=
      hperm.nodup_iff.2 (c.entries.pairwise_keys.imp String.ne_of_lt)
    refine ⟨order, horder, hperm, hfounded, ?_⟩
    rcases Progress.Traced.empty.resolveAll hc hline (by rwa [List.append_nil])
      (by rwa [List.append_nil, List.nodup_reverse]) with ⟨q, hq, htraced⟩ | ⟨hx, f, hf⟩
    · rw [List.append_nil] at htraced
      exact .inl ⟨q, htraced, by cases hfaults : q.faults <;> simp only [hbuild, hq, hfaults]⟩
    · exact .inr ⟨hx, f, by rw [hbuild, hf]⟩

/-- Without a fault all assets are resolved. -/
theorem keys_of_traced {order : List String} {q : Progress} (h : q.Traced x c g order.reverse)
    (hperm : order.Perm c.paths) (hfounded : g.Founded order.reverse) (hnil : q.faults = []) :
    q.resolved.keys = c.paths := by
  refine List.Pairwise.eq_of_mem_iff q.resolved.pairwise_keys c.entries.pairwise_keys fun p => ?_
  rw [PathMap.mem_keys, h.resolved, List.mem_reverse, hperm.mem_iff]
  refine ⟨fun hp => hp.1, fun hp => ⟨hp, fun hlacks => ?_⟩⟩
  obtain ⟨t, ht, hown⟩ := Context.exists_ownFault? hfounded p
    (List.mem_reverse.2 (hperm.mem_iff.2 hp)) hlacks
  rw [h.faults, List.reverse_reverse, List.filterMap_eq_nil_iff] at hnil
  exact hown (hnil t (List.mem_reverse.1 ht))

/-- What is known of a snapshot: its assets are the registered ones, in an order in which each stands
behind all that it needs, and each is what it resolves to if these are what they are in the snapshot. -/
structure Solved (x : Context) (c : Catalog) (s : Snapshot) : Prop where
  order : s.order.Perm c.paths
  founded : s.graph.Founded s.order.reverse
  keys : s.assets.keys = c.paths
  solved : ∀ p ∈ c.paths, ∃ a r, x.Prepares c p a (s.graph.edgesOf p) ∧
    x.resolve c a (s.graph.edgesOf p) s.assets = .ok r ∧ s.assets.get? p = some (finish x c r)

/-- To finish an asset changes its compressed content only. -/
theorem exists_finish (x : Context) (c : Catalog) (r : Resolved) :
    ∃ z, finish x c r = { r with compressed := z } := by
  unfold finish
  split
  · split <;> exact ⟨_, rfl⟩
  · exact ⟨_, rfl⟩

/-- Every snapshot that is built is solved. -/
theorem solved_of_build (hc : c.Keyed) {s : Snapshot} (h : (build x c).1 = .ok s) : s.Solved x c := by
  have hload : c.loadFaults = [] := by
    by_contra hne
    rw [build_of_loadFaults hc hne] at h
    cases h
  rcases build_of_loaded hc hload with ⟨fs, -, hbuild⟩ | ⟨g, directives, -, -, hg, -⟩
  · rw [hbuild] at h; cases h
  · obtain ⟨order, -, hperm, hfounded, ⟨q, htraced, hbuild⟩ | ⟨-, f, hbuild⟩⟩ :=
      traced_of_build hc hload hg
    · cases hnil : q.faults with
      | cons f rest => rw [hbuild, hnil] at h; cases h
      | nil =>
          rw [hbuild, hnil] at h
          cases h
          have hkeys := keys_of_traced htraced hperm hfounded hnil
          refine ⟨hperm, hfounded, ?_, fun p hp => ?_⟩
          · rw [← hkeys]
            simp [ofProgress, PathMap.keys, PathMap.mapValues]
          · have hmem : p ∈ q.resolved := by rwa [← PathMap.mem_keys, hkeys]
            obtain ⟨r, hr⟩ := Option.isSome_iff_exists.1 (PathMap.mem_iff_get?_isSome.1 hmem)
            obtain ⟨a, ha, hres⟩ := htraced.solved p r hr
            refine ⟨a, r, ha, ?_, by rw [ofProgress, PathMap.get?_mapValues, hr]; rfl⟩
            obtain ⟨-, -, -, -, hprep⟩ := ha.spec hc
            rw [← hres]
            -- resolved by way of uncompressed results, which differ in a field that nothing depends on
            refine Context.resolve_congr hprep fun e he => ?_
            obtain ⟨v, hv⟩ := (Context.resolve_eq_ok_iff.1 hres).1 _ (Edge.mem_targets.2 ⟨e, he, rfl⟩)
            obtain ⟨z, hz⟩ := exists_finish x c v
            refine ⟨{ v with compressed := z }, v, ?_, hv, rfl, rfl, fun _ => rfl⟩
            rw [ofProgress, PathMap.get?_mapValues, hv, Option.map_some, hz]
    · rw [hbuild] at h; cases h

theorem make_of_longDigests (hx : x.LongDigests) :
    Context.make x.settings (some x.hash) (some x.compress) = .ok x := by
  unfold Context.make
  exact if_neg (Nat.not_lt.2 (hx []))

/-! ### Samples -/

namespace Sample

/-- One variable has a value, and a digest is the beginning of what is hashed. -/
def context : Context where
  settings := { Settings.default with values := PathMap.ofList [("site", "Home")] }
  hash b := (b ++ List.replicate 64 0).take 64
  compress := id

theorem length_hash (b : Bytes) : (context.hash b).length = 64 := by
  simp [context]

theorem longDigests : context.LongDigests := fun b => by
  rw [length_hash]
  decide

/-- An asset of a text. -/
def asset (path text : String) (choices : Choices) (h : path ≠ "") : Definition :=
  ⟨path, .static (Bytes.ofText text), choices.options true, h⟩

/-- The snapshot of a catalog, if there is one. -/
def built? (c : Catalog) : Option Snapshot := (build context c).1.toOption

theorem build_of_built? {s : Snapshot} (h : built? c = some s) : (build context c).1 = .ok s := by
  unfold built? at h
  cases hb : (build context c).1 with
  | error f => rw [hb] at h; cases h
  | ok s' => rw [hb] at h; cases h; rfl

end Sample

namespace Lacking

/-- The asset `index` includes `menu`, and all but `style` ask for variables. -/
def catalog : Catalog :=
  ((((∅ : Catalog).add (Sample.asset "index" "{{: var:u :}}{{: include:menu :}}" {} (by decide))).add
    (Sample.asset "menu" "{{: var:site :}}{{: var:y :}}{{: var:z :}}" {} (by decide))).add
    (Sample.asset "news" "{{: path:style :}}{{: var:v :}}" {} (by decide))).add
    (Sample.asset "style" "plain" {} (by decide))

theorem keyed_catalog : catalog.Keyed :=
  (((Catalog.keyed_empty.add _).add _).add _).add _

/-- The draft of its graph. -/
def draft : Graph.Draft := Graph.draft (Sample.context.registered catalog) catalog.rawAssets

end Lacking

/-! ### The ends of a build -/

/-- A build fails with one fault for each asset whose loader fails, in the order of the paths; where there
is none, with the faults of the graph; where there is none either, with one fault for each asset that asks
for a variable without a value and needs no other such asset, in the order of evaluation; and otherwise it
gives all registered assets. -/
theorem outcome_of_build (hx : x.LongDigests) (hc : c.Keyed) :
    Context.make x.settings (some x.hash) (some x.compress) = .ok x ∧
    (c.loadFaults ≠ [] → (build x c).1 = .error (.build c.loadFaults)) ∧
    (c.loadFaults = [] → ∀ fs, Graph.build (x.registered c) c.rawAssets = .error fs →
      (build x c).1 = .error (.build fs)) ∧
    (c.loadFaults = [] → ∀ g directives,
      Graph.build (x.registered c) c.rawAssets = .ok (g, directives) →
      ∃ order, g.order = .ok order ∧ order.Perm c.paths ∧ g.Founded order.reverse ∧
        ((∃ p ∈ c.paths, x.undefined? (c.directives p) ≠ none) →
          order.filterMap (x.ownFault? g c.directives) ≠ [] ∧
          (build x c).1 = .error (.build (order.filterMap (x.ownFault? g c.directives)))) ∧
        ((∀ p ∈ c.paths, x.undefined? (c.directives p) = none) →
          ∃ s, (build x c).1 = .ok s ∧ s.order = order ∧ s.assets.keys = c.paths)) := by
  refine ⟨make_of_longDigests hx, build_of_loadFaults hc, fun hload fs hfs => ?_,
    fun hload g directives hg => ?_⟩
  · rcases build_of_loaded hc hload with ⟨fs', hfs', hbuild⟩ | ⟨g, ds, order, line, hg, -⟩
    · rw [hfs] at hfs'
      cases hfs'
      exact hbuild
    · rw [hfs] at hg; cases hg
  · obtain ⟨order, horder, hperm, hfounded, hend⟩ := traced_of_build hc hload hg
    obtain ⟨q, htraced, hbuild⟩ := hend.resolve_right fun h => h.1 hx
    have hfaults : q.faults = order.filterMap (x.ownFault? g c.directives) := by
      rw [htraced.faults, List.reverse_reverse]
    refine ⟨order, horder, hperm, hfounded, fun ⟨p, hp, hundef⟩ => ?_, fun hall => ?_⟩
    · have hne : order.filterMap (x.ownFault? g c.directives) ≠ [] := fun hnil => by
        obtain ⟨t, ht, hown⟩ := Context.exists_ownFault? hfounded p
          (List.mem_reverse.2 (hperm.mem_iff.2 hp))
          (Context.lacks_iff.2 (.inl (Option.isSome_iff_ne_none.2 hundef)))
        exact hown (List.filterMap_eq_nil_iff.1 hnil t (List.mem_reverse.1 ht))
      refine ⟨hne, ?_⟩
      rw [hbuild, hfaults]
      split
      · next hnil => exact absurd hnil hne
      · rfl
    · have hnil : q.faults = [] := by
        rw [hfaults, List.filterMap_eq_nil_iff]
        exact fun p hp => Context.ownFault?_eq_none_of_undefined? (hall p (hperm.mem_iff.1 hp))
      have hok : (build x c).1 = .ok (ofProgress x c g order q) := by rw [hbuild, hnil]
      exact ⟨_, hok, rfl, (solved_of_build hc hok).keys⟩

/-- In the sample `menu` and `news` are to blame, and `index` is not. -/
theorem outcome_lacking : Sample.context.LongDigests ∧ Lacking.catalog.Keyed ∧
    (build Sample.context Lacking.catalog).1 =
      .error (.build [.undefinedVariable "menu" "y", .undefinedVariable "news" "v"]) := by
  obtain ⟨-, -, -, h⟩ := outcome_of_build Sample.longDigests Lacking.keyed_catalog
  obtain ⟨order, horder, -, -, hlacks, -⟩ := h (by decide +kernel) Lacking.draft.graph
    Lacking.draft.directives (by decide +kernel)
  have hpass : Lacking.draft.graph.order = .ok ["menu", "index", "style", "news"] := by decide +kernel
  obtain rfl : order = ["menu", "index", "style", "news"] := Except.ok.inj (horder.symm.trans hpass)
  have hfaults : ["menu", "index", "style", "news"].filterMap
      (Sample.context.ownFault? Lacking.draft.graph Lacking.catalog.directives)
      = [.undefinedVariable "menu" "y", .undefinedVariable "news" "v"] := by decide +kernel
  refine ⟨Sample.longDigests, Lacking.keyed_catalog, ?_⟩
  rw [(hlacks ⟨"menu", by decide +kernel, by decide +kernel⟩).2, hfaults]

end HashedAssets.Snapshot
