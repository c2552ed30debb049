import HashedAssets.Proofs.Graph.Founded
import HashedAssets.Proofs.Resolution.Snapshot
import Mathlib.Data.List.Sort

/-!
# What a build starts from

A build asks each source once and draws the graph of what it was given.

* `Catalog.next`, `Catalog.loadFaults`, `Catalog.rawAssets`: what the sources give when they are asked the
  next time; `Snapshot.faults_loadAll`, `Snapshot.get?_raw_loadAll_next`: this is what is loaded;
* `Context.Prepares`: an asset as it is prepared from what its source gives next;
  `Context.exists_prepares_of_build`: where there is a graph, every asset can be prepared;
* `Snapshot.build_of_loadFaults`, `Snapshot.build_of_loaded`: a build in terms of all this.
-/

namespace HashedAssets

variable {x : Context} {c : Catalog}

/-! ### Sources -/

namespace Catalog

/-- What the source of a definition gives when it is asked the next time. -/
def next (c : Catalog) (d : Definition) : Except Fault Bytes :=
  d.give ((c.calls.get? d.path).getD 0)

/-- The fault of an asset whose loader fails when it is called the next time. -/
def loadFault? (c : Catalog) (d : Definition) : Option Fault :=
  match d.source with
  | .dynamic l _ => match l.deliver ((c.calls.get? d.path).getD 0) with
    | .ok _ => none
    | .error f => some (.unreadable d.path f.message)
  | _ => none

/-- The faults of the assets whose loaders fail, in ascending order of the paths. -/
def loadFaults (c : Catalog) : List Fault := c.definitions.filterMap c.loadFault?

/-- The assets with the bytes that their sources give next, where no source fails. -/
def rawAssets (c : Catalog) : PathMap RawAsset :=
  c.entries.mapValues fun _ d => ⟨(c.next d).toOption.getD [], d.options.template⟩

/-- The directives of an asset as its source gives it next. -/
def directives (c : Catalog) (p : String) : List Directive :=
  ((c.rawAssets.get? p).bind fun a => (a.directives p).toOption).getD []

theorem loadFault?_eq {d : Definition} :
    c.loadFault? d = match c.next d with | .ok _ => none | .error f => some f := by
  unfold loadFault? next Definition.give
  cases d.source with
  | static b => rfl
  | directory b => rfl
  | dynamic l held => dsimp only; cases l.deliver ((c.calls.get? d.path).getD 0) <;> rfl

/-- Asking one source does not change what the others give. -/
theorem next_fetch {d e : Definition} (h : d.path ≠ e.path) : (c.fetch e).2.next d = c.next d := by
  have hcalls : (c.fetch e).2.calls.get? d.path = c.calls.get? d.path := by
    unfold fetch
    split
    · rfl
    · rfl
    · dsimp only
      split
      · rw [PathMap.get?_insert, if_neg h]
      · rfl
  rw [next, hcalls, next]

theorem pairwise_definitions (hc : c.Keyed) : c.definitions.Pairwise (·.path ≠ ·.path) := by
  have hlt : c.entries.bindings.Pairwise fun y z => y.2.path ≠ z.2.path :=
    c.entries.ascending.imp_of_mem fun {y z} hy hz hyz => by
      rw [hc y.1 y.2 (PathMap.get?_eq_some_iff.2 hy), hc z.1 z.2 (PathMap.get?_eq_some_iff.2 hz)]
      exact String.ne_of_lt hyz
  simpa [definitions, PathMap.values, List.pairwise_map] using hlt

theorem mem_paths {p : String} : p ∈ c.paths ↔ ∃ d, c.entries.get? p = some d := by
  rw [paths, PathMap.mem_keys, PathMap.mem_iff_get?_isSome, Option.isSome_iff_exists]

theorem loadFaults_eq_nil_iff :
    c.loadFaults = [] ↔ ∀ p d, c.entries.get? p = some d → ∃ b, c.next d = .ok b := by
  have hnone : ∀ d, c.loadFault? d = none ↔ ∃ b, c.next d = .ok b := fun d => by
    rw [loadFault?_eq]
    cases c.next d <;> simp
  simp only [loadFaults, List.filterMap_eq_nil_iff, hnone, Snapshot.mem_definitions]
  exact ⟨fun h p d hd => h d ⟨p, hd⟩, fun h d ⟨p, hd⟩ => h p d hd⟩

end Catalog

/-! ### Loading -/

namespace Snapshot

/-- The faults of loading are those of the sources, in the order of the definitions. -/
theorem faults_loadAll {ds : List Definition} (hds : ds.Pairwise (·.path ≠ ·.path)) :
    (loadAll c ds).1.faults = ds.filterMap c.loadFault? := by
  induction ds generalizing c with
  | nil => rfl
  | cons e rest ih =>
      obtain ⟨he, hrest⟩ := List.pairwise_cons.1 hds
      have hsame : rest.filterMap (c.fetch e).2.loadFault? = rest.filterMap c.loadFault? :=
        List.filterMap_congr fun d hd => by
          rw [Catalog.loadFault?_eq, Catalog.next_fetch (he d hd).symm, Catalog.loadFault?_eq]
      rw [loadAll, List.filterMap_cons, Catalog.loadFault?_eq, Catalog.next, ← Catalog.result_fetch]
      dsimp only
      cases (c.fetch e).1.result with
      | ok b => exact (ih hrest).trans hsame
      | error f => exact congrArg (f :: ·) ((ih hrest).trans hsame)

theorem get?_raw_loadAll_of_not_mem {ds : List Definition} {p : String}
    (h : ∀ d ∈ ds, d.path ≠ p) : (loadAll c ds).1.raw.get? p = none := by
  induction ds generalizing c with
  | nil => rfl
  | cons e rest ih =>
      have hrest := ih (c := (c.fetch e).2) fun d hd => h d (List.mem_cons_of_mem _ hd)
      rw [loadAll]
      dsimp only
      split
      · rw [PathMap.get?_insert, if_neg (h e List.mem_cons_self).symm, hrest]
      · exact hrest

/-- What is loaded is what the sources give. -/
theorem get?_raw_loadAll_next {ds : List Definition} (hds : ds.Pairwise (·.path ≠ ·.path))
    {d : Definition} (hd : d ∈ ds) :
    (loadAll c ds).1.raw.get? d.path = (c.next d).toOption := by
  induction ds generalizing c with
  | nil => cases hd
  | cons e rest ih =>
      obtain ⟨he, hrest⟩ := List.pairwise_cons.1 hds
      have hnext : (c.fetch e).1.result = c.next e := Catalog.result_fetch c e
      rw [loadAll]
      dsimp only
      rw [hnext]
      rcases List.mem_cons.1 hd with rfl | hd
      · cases c.next d with
        | ok b => exact PathMap.get?_insert_self _ _ _
        | error f => exact get?_raw_loadAll_of_not_mem fun d' hd' => (he d' hd').symm
      · have hne : d.path ≠ e.path := (he d hd).symm
        have := ih hrest (c := (c.fetch e).2) hd
        rw [Catalog.next_fetch hne] at this
        cases c.next e with
        | ok b => exact (PathMap.get?_insert ..).trans ((if_neg hne).trans this)
        | error f => exact this

theorem get?_raw_loadAll_definitions (hc : c.Keyed) {p : String} {d : Definition}
    (hd : c.entries.get? p = some d) :
    (loadAll c c.definitions).1.raw.get? p = (c.next d).toOption := by
  rw [← hc p d hd]
  exact get?_raw_loadAll_next (Catalog.pairwise_definitions hc) (mem_definitions.2 ⟨p, hd⟩)

end Snapshot

/-! ### Prepared assets -/

/-- The asset of a path is prepared from what its source gives next. -/
def Context.Prepares (x : Context) (c : Catalog) (p : String) (a : Prepared) (es : List Edge) : Prop :=
  ∃ d b, c.entries.get? p = some d ∧ c.next d = .ok b ∧ x.prepare c d b = .ok (a, es)

variable {g : Graph} {directives : PathMap (List Directive)} {p : String} {a : Prepared}
  {es : List Edge}

namespace Catalog

theorem get?_rawAssets {d : Definition} {b : Bytes} (hd : c.entries.get? p = some d)
    (hb : c.next d = .ok b) : c.rawAssets.get? p = some ⟨b, d.options.template⟩ := by
  rw [rawAssets, PathMap.get?_mapValues, hd, Option.map_some, hb]
  rfl

theorem keys_rawAssets (c : Catalog) : c.rawAssets.keys = c.paths := by
  simp [rawAssets, PathMap.keys, PathMap.mapValues, paths]

theorem mem_rawAssets : p ∈ c.rawAssets ↔ p ∈ c.paths := by
  rw [← PathMap.mem_keys, keys_rawAssets]

theorem directives_eq {d : Definition} {b : Bytes} {ds : List Directive}
    (hd : c.entries.get? p = some d) (hb : c.next d = .ok b)
    (hds : RawAsset.directives ⟨b, d.options.template⟩ p = .ok ds) : c.directives p = ds := by
  rw [directives, get?_rawAssets hd hb, Option.bind_some, hds]
  rfl

end Catalog

namespace Context

theorem isRegistered_iff : (x.registered c).isRegistered p = true ↔ p ∈ c.paths := by
  rw [Catalog.mem_paths]
  exact Catalog.contains_iff

theorem Prepares.mem_paths (h : x.Prepares c p a es) : p ∈ c.paths := by
  obtain ⟨d, b, hd, -⟩ := h
  exact Catalog.mem_paths.2 ⟨d, hd⟩

/-- What a prepared asset consists of. -/
theorem Prepares.spec (hc : c.Keyed) (h : x.Prepares c p a es) :
    c.entries.get? p = some a.definition ∧ a.definition.path = p ∧
      c.next a.definition = .ok a.raw ∧ c.directives p = a.directives ∧
      x.prepare c a.definition a.raw = .ok (a, es) := by
  obtain ⟨d, b, hd, hb, hprep⟩ := h
  have hpath := hc p d hd
  obtain ⟨ds, hds, -, rfl, -⟩ := prepare_eq_ok_iff.1 hprep
  exact ⟨hd, hpath, hb, Catalog.directives_eq hd hb (hpath ▸ hds), hprep⟩

/-- Where no loader fails and the assets have a graph, each can be prepared, with the edges that it has in
the graph. -/
theorem exists_prepares_of_build (hc : c.Keyed) (hload : c.loadFaults = [])
    (hg : Graph.build (x.registered c) c.rawAssets = .ok (g, directives)) (hp : p ∈ c.paths) :
    ∃ a, x.Prepares c p a (g.edgesOf p) ∧ directives.get? p = some a.directives := by
  obtain ⟨d, hd⟩ := Catalog.mem_paths.1 hp
  obtain ⟨b, hb⟩ := Catalog.loadFaults_eq_nil_iff.1 hload p d hd
  have hpath := hc p d hd
  obtain ⟨ds, hds, hf, hdir, hedges, -⟩ := Graph.build_eq_ok hg (Catalog.get?_rawAssets hd hb)
  refine ⟨⟨d, b, ds⟩, ⟨d, b, hd, hb, prepare_eq_ok_iff.2 ⟨ds, hpath ▸ hds, ?_, rfl, hpath ▸ hedges⟩⟩,
    hdir⟩
  rw [hpath]
  simpa [edgesFor] using hf

end Context

/-! ### Builds -/

namespace Snapshot

/-- The assets of a catalog in the given order, each prepared. -/
structure Lined (x : Context) (c : Catalog) (g : Graph) (order : List String)
    (line : List (Prepared × List Edge)) : Prop where
  paths : line.map (·.1.definition.path) = order
  prepares : ∀ y ∈ line, x.Prepares c y.1.definition.path y.1 y.2
  edges : ∀ y ∈ line, y.2 = g.edgesOf y.1.definition.path

theorem lined_work (hc : c.Keyed) (hload : c.loadFaults = [])
    (hg : Graph.build (x.registered c) c.rawAssets = .ok (g, directives)) {raw : PathMap Bytes}
    (hraw : ∀ p d, c.entries.get? p = some d → raw.get? p = (c.next d).toOption)
    {order : List String} (horder : ∀ p ∈ order, p ∈ c.paths) :
    Lined x c g order (work c raw g directives order) := by
  induction order with
  | nil => exact ⟨rfl, by simp [work], by simp [work]⟩
  | cons p rest ih =>
      obtain ⟨a, ha, hdir⟩ :=
        Context.exists_prepares_of_build hc hload hg (horder p List.mem_cons_self)
      obtain ⟨hd, hpath, hb, -, hprep⟩ := ha.spec hc
      have hcons : work c raw g directives (p :: rest)
          = (a, g.edgesOf p) :: work c raw g directives rest := by
        rw [work, List.filterMap_cons, hd, hraw p _ hd, hb]
        simp only [Except.toOption, hdir, Option.getD_some]
        rfl
      obtain ⟨hpaths, hprepares, hedges⟩ := ih fun q hq => horder q (List.mem_cons_of_mem _ hq)
      rw [hcons]
      refine ⟨by rw [List.map_cons, hpaths, hpath], fun y hy => ?_, fun y hy => ?_⟩
      · rcases List.mem_cons.1 hy with rfl | hy
        · rw [hpath]; exact ha
        · exact hprepares y hy
      · rcases List.mem_cons.1 hy with rfl | hy
        · rw [hpath]
        · exact hedges y hy

theorem resolveAll_congr {c' : Catalog} (h : c'.entries = c.entries) (q : Progress)
    (line : List (Prepared × List Edge)) : resolveAll x c' q line = resolveAll x c q line := by
  induction line generalizing q with
  | nil => rfl
  | cons y rest ih =>
      have hadd : q.add x c' y.1 y.2 = q.add x c y.1 y.2 := by
        unfold Progress.add
        rw [Context.resolve_catalog_congr h]
      rw [resolveAll, resolveAll, hadd]
      split
      · exact ih _
      · rfl

theorem ofLoaded_congr {c' : Catalog} (h : c'.entries = c.entries) (l : Loaded) :
    ofLoaded x c' l = ofLoaded x c l := by
  have hreg : x.registered c' = x.registered c := by
    obtain ⟨_, _⟩ := c
    obtain ⟨_, _⟩ := c'
    cases h
    rfl
  have hwork : work c' = work c := by
    funext raw graph directives order
    rw [work, work, h]
  have hfinish : finish x c' = finish x c := by
    funext r
    rw [finish, finish, h]
  simp only [ofLoaded, h, hreg, hwork, hfinish, resolveAll_congr h]

theorem build_of_loadFaults (hc : c.Keyed) (h : c.loadFaults ≠ []) :
    (build x c).1 = .error (.build c.loadFaults) := by
  have hfaults : (loadAll c c.definitions).1.faults = c.loadFaults :=
    faults_loadAll (Catalog.pairwise_definitions hc)
  unfold build
  dsimp only
  rw [hfaults]
  split
  · next hnil => exact absurd hnil h
  · rfl

/-- The snapshot of assets that are all resolved. -/
def ofProgress (x : Context) (c : Catalog) (g : Graph) (order : List String) (q : Progress) :
    Snapshot :=
  let assets := q.resolved.mapValues fun _ r => finish x c r
  { context := x, order, graph := g, assets
    byPublic := PathMap.ofList
      (order.filterMap fun p => (assets.get? p).map fun r => (r.publicPath, p)) }

/-- What a build is loaded with are the assets as their sources give them next. -/
theorem mapValues_raw_loadAll (hc : c.Keyed) (hload : c.loadFaults = []) :
    ((loadAll c c.definitions).1.raw.mapValues fun p b =>
      (⟨b, ((c.entries.get? p).map (·.options.template)).getD true⟩ : RawAsset)) = c.rawAssets := by
  refine PathMap.ext_get? fun p => ?_
  rw [PathMap.get?_mapValues]
  cases hd : c.entries.get? p with
  | none =>
      have hnone : (loadAll c c.definitions).1.raw.get? p = none :=
        get?_raw_loadAll_of_not_mem fun d hd' he => by
          obtain ⟨q, hq⟩ := mem_definitions.1 hd'
          rw [← hc q d hq, he, hd] at hq
          cases hq
      rw [hnone, Catalog.rawAssets, PathMap.get?_mapValues, hd]
      rfl
  | some d =>
      obtain ⟨b, hb⟩ := Catalog.loadFaults_eq_nil_iff.1 hload p d hd
      rw [Catalog.get?_rawAssets hd hb, get?_raw_loadAll_definitions hc hd, hb]
      rfl

/-- Where no loader fails, a build ends with what the graph says, or with what resolving one asset after
the other in the order of evaluation says. -/
theorem build_of_loaded (hc : c.Keyed) (hload : c.loadFaults = []) :
    (∃ fs, Graph.build (x.registered c) c.rawAssets = .error fs ∧
      (build x c).1 = .error (.build fs)) ∨
    ∃ g directives order line, Graph.build (x.registered c) c.rawAssets = .ok (g, directives) ∧
      g.order = .ok order ∧ Lined x c g order line ∧
      (build x c).1 = match (resolveAll x c ⟨∅, [], [], []⟩ line).1 with
        | .error f => .error f
        | .ok q => match q.faults with
          | [] => .ok (ofProgress x c g order q)
          | faults => .error (.build faults) := by
  have hfaults : (loadAll c c.definitions).1.faults = [] :=
    (faults_loadAll (Catalog.pairwise_definitions hc)).trans hload
  have hbuild : (build x c).1 = (ofLoaded x c (loadAll c c.definitions).1).1 := by
    rw [← ofLoaded_congr (entries_loadAll c c.definitions)]
    unfold build
    dsimp only
    rw [hfaults]
  rw [hbuild]
  have hassets := mapValues_raw_loadAll hc hload
  cases hg : Graph.build (x.registered c) c.rawAssets with
  | error fs => exact .inl ⟨fs, rfl, by simp only [ofLoaded, hassets, hg]⟩
  | ok drawn =>
      obtain ⟨g, directives⟩ := drawn
      have hregistered : ∀ q, (x.registered c).isRegistered q = true → q ∈ c.rawAssets :=
        fun q hq => Catalog.mem_rawAssets.2 (Context.isRegistered_iff.1 hq)
      -- a graph that was built has no cycles, so there is an order and the pass is all that can fail
      obtain ⟨order, horder⟩ := Graph.exists_order (Graph.wellFormed_of_build hg)
        (Graph.cycles_of_build hg)
      have hpaths : ∀ p ∈ order, p ∈ c.paths := fun p hp => by
        rw [← Catalog.keys_rawAssets, ← Graph.nodes_of_build hg hregistered]
        exact (Graph.perm_of_order horder).mem_iff.1 hp
      refine .inr ⟨g, directives, order, _, rfl, horder, lined_work hc hload hg
        (fun p d hd => get?_raw_loadAll_definitions hc hd) hpaths, ?_⟩
      simp only [ofLoaded, hassets, hg, horder]
      rcases resolveAll x c ⟨∅, [], [], []⟩
        (work c (loadAll c c.definitions).1.raw g directives order) with ⟨f | q, events⟩
      · rfl
      · dsimp only
        cases hq : q.faults <;> rfl

end Snapshot

end HashedAssets
