import HashedAssets.Proofs.Directive.Grammar
import HashedAssets.Proofs.Graph.Cycles
import HashedAssets.Proofs.Graph.Draft

/-!
# All that is wrong with the graph of a set of assets

A set of assets has a graph, or the faults of all assets and all cycles are told at once.

* `Directive.Wants`: what a directive wants of the asset that it names;
* `Graph.Asks`, `Graph.Drawn`: what the assets that can be read ask for, and which of this is an edge;
* `Graph.BreaksOff`: where the directives of an asset cannot be read on; `Graph.ownFaults`: what is wrong with one asset;
* `Graph.DrawnFrom`: a graph with these edges and no others; `Graph.drawnFrom_draft`: such is that of a draft, whatever
  is wrong with the assets;
* `Graph.collected_of_build`: there is a graph just if nothing is wrong; otherwise everything that is wrong is told.
-/

namespace HashedAssets

open Relation

variable {r : Registered} {assets : PathMap RawAsset} {a : RawAsset} {g : Graph} {p q t : String} {k : EdgeKind}
  {e : Edge}

/-! ### What directives want -/

/-- A directive wants the content of the asset that it names, or its public path. -/
def Directive.Wants (d : Directive) (target : String) (kind : EdgeKind) : Prop :=
  d.target = target ∧ (d.kind = .include ∧ kind = .include ∨ d.kind = .path ∧ kind = .reference)

theorem Directive.wants?_eq_some_iff {d : Directive} : d.wants? = some (t, k) ↔ d.Wants t k := by
  unfold wants? Wants
  cases d.kind <;> simp [eq_comm]

theorem Registered.hasEdge_iff :
    r.hasEdge t k = true ↔ r.isRegistered t = true ∧ (k = .reference → r.isHashed t = true) := by
  cases k <;> simp [Registered.hasEdge]

theorem Directive.edge?_eq_some_iff {d : Directive} : d.edge? r p = some e ↔
    e.source = p ∧ d.Wants e.target e.kind ∧ r.isRegistered e.target = true ∧
      (e.kind = .reference → r.isHashed e.target = true) := by
  obtain ⟨source, target, kind⟩ := e
  rw [← wants?_eq_some_iff, ← Registered.hasEdge_iff]
  unfold edge?
  cases d.wants? with
  | none => simp
  | some x =>
      obtain ⟨t, k⟩ := x
      simp only [Option.some.injEq, Prod.mk.injEq]
      split
      · next hedge =>
          simp only [Option.some.injEq, Edge.mk.injEq]
          constructor
          · rintro ⟨rfl, rfl, rfl⟩
            exact ⟨rfl, ⟨rfl, rfl⟩, hedge⟩
          · rintro ⟨rfl, ⟨rfl, rfl⟩, -⟩
            exact ⟨rfl, rfl, rfl⟩
      · next hedge =>
          simp only [reduceCtorEq, false_iff]
          rintro ⟨-, ⟨rfl, rfl⟩, h⟩
          exact hedge h

namespace Graph

/-! ### Edges -/

/-- An asset that can be read asks for another one. -/
def Asks (assets : PathMap RawAsset) (p t : String) (k : EdgeKind) : Prop :=
  ∃ a ds, assets.get? p = some a ∧ a.directives p = .ok ds ∧ ∃ d ∈ ds, d.Wants t k

/-- An edge: an asset is included, or the path of a hashed asset is wanted. -/
structure Drawn (r : Registered) (assets : PathMap RawAsset) (e : Edge) : Prop where
  asks : Asks assets e.source e.target e.kind
  registered : r.isRegistered e.target = true
  hashed : e.kind = .reference → r.isHashed e.target = true

/-- One asset needs another one: there is an edge, of either kind. -/
def Links (r : Registered) (assets : PathMap RawAsset) (p q : String) : Prop := ∃ k, Drawn r assets ⟨p, q, k⟩

/-- A graph of a set of assets: it has their edges and no others, in order and each once, and the assets and what their
edges lead to as its nodes. -/
structure DrawnFrom (r : Registered) (assets : PathMap RawAsset) (g : Graph) : Prop where
  edges : ∀ p e, e ∈ g.edgesOf p ↔ e.source = p ∧ Drawn r assets e
  sorted : ∀ p, Edge.Sorted p (g.edgesOf p)
  nodes : ∀ p, p ∈ g.nodes ↔ p ∈ assets ∨ ∃ e, Drawn r assets e ∧ e.target = p

theorem exists_mem_edgesIn_iff : (∃ a, assets.get? p = some a ∧ e ∈ edgesIn r p a) ↔
    e.source = p ∧ Drawn r assets e := by
  constructor
  · rintro ⟨a, ha, he⟩
    obtain ⟨ds, hds, d, hd, hedge⟩ := mem_edgesIn.1 he
    obtain ⟨rfl, hwants, hregistered, hhashed⟩ := Directive.edge?_eq_some_iff.1 hedge
    exact ⟨rfl, ⟨a, ds, ha, hds, d, hd, hwants⟩, hregistered, hhashed⟩
  · rintro ⟨rfl, ⟨a, ds, ha, hds, d, hd, hwants⟩, hregistered, hhashed⟩
    exact ⟨a, ha, mem_edgesIn.2 ⟨ds, hds, d, hd, Directive.edge?_eq_some_iff.2 ⟨rfl, hwants, hregistered, hhashed⟩⟩⟩

/-- The graph of a draft has the edges of all assets that can be read. -/
theorem drawnFrom_draft (r : Registered) (assets : PathMap RawAsset) :
    DrawnFrom r assets (draft r assets).graph where
  edges p e := mem_edgesOf_draft.trans exists_mem_edgesIn_iff
  sorted := sorted_edgesOf_draft r assets
  nodes p := by
    rw [mem_nodes_draft]
    refine or_congr_right ⟨?_, ?_⟩
    · rintro ⟨q, a, ha, e, he, ht⟩
      exact ⟨e, (exists_mem_edgesIn_iff.1 ⟨a, ha, he⟩).2, ht⟩
    · rintro ⟨e, he, ht⟩
      obtain ⟨a, ha, hmem⟩ := exists_mem_edgesIn_iff.2 ⟨rfl, he⟩
      exact ⟨e.source, a, ha, e, hmem, ht⟩

theorem DrawnFrom.adjacent_iff (h : DrawnFrom r assets g) : g.Adjacent p q ↔ Links r assets p q := by
  simp only [Graph.adjacent_iff, h.edges]
  constructor
  · rintro ⟨⟨source, target, kind⟩, ⟨rfl, he⟩, rfl⟩
    exact ⟨kind, he⟩
  · rintro ⟨k, he⟩
    exact ⟨_, ⟨rfl, he⟩, rfl⟩

theorem DrawnFrom.acyclic_iff (h : DrawnFrom r assets g) : g.Acyclic ↔ ∀ p, ¬ TransGen (Links r assets) p p := by
  have hadjacent : g.Adjacent = Links r assets := funext₂ fun p q => propext h.adjacent_iff
  rw [Acyclic, hadjacent]

/-! ### Faults -/

/-- The directives of an asset can be read up to an opening token that begins none, and not beyond it. -/
structure BreaksOff (raw : Bytes) (s : Nat) (reason : SyntaxFault) : Prop where
  reached : Directive.Reached raw 0 s
  refused : Directive.Refused raw s reason
  before : ∀ t < s, Directive.Reached raw 0 t → ∃ c kind target, Directive.WellFormed raw t c kind target

/-- What is wrong with one asset: the first fault in its directives; or, if they can be read, each of them, in the order
in which they stand, that wants an asset that is not registered. -/
def ownFaults (r : Registered) (p : String) (a : RawAsset) : List Fault :=
  match a.directives p with
  | .error f => [f]
  | .ok ds => (ds.filter fun d => d.kind != .variable && !r.isRegistered d.target).map fun d =>
      .unknownTarget p d.target (if d.kind = .include then .include else .reference)

/-- An asset that is no template has no directives. A template has those that the grammar finds in its content, if it
can be read to the end. -/
theorem directives_cases (p : String) (a : RawAsset) :
    (a.isTemplate = false ∧ a.directives p = .ok []) ∨ a.isTemplate = true ∧
      ((∃ ds, a.directives p = .ok ds ∧ Directive.Inventory a.content ds) ∨
        ∃ s reason, a.directives p = .error (.malformed p s reason) ∧ BreaksOff a.content s reason) := by
  unfold RawAsset.directives
  cases a.isTemplate with
  | false => exact .inl ⟨rfl, rfl⟩
  | true =>
      refine .inr ⟨rfl, ?_⟩
      rcases Directive.parseFrom_cases a.content p 0 with ⟨ds, hds, hscan⟩ | ⟨s, reason, herror, hstuck⟩
      · exact .inl ⟨ds, hds, fun s => hscan.reached_iff, fun d hd => hscan.wellFormed hd, hscan.pairwise,
          fun k hk => hscan.exists_span (Nat.zero_le k) hk⟩
      · exact .inr ⟨s, reason, herror, hstuck.reached, hstuck.refused, fun t ht hr => hstuck.wellFormed_of_lt hr ht⟩

theorem fault?_eq (r : Registered) (p : String) (d : Directive) : d.fault? r p =
    if d.kind != .variable && !r.isRegistered d.target then
      some (.unknownTarget p d.target (if d.kind = .include then .include else .reference)) else none := by
  unfold Directive.fault? Directive.wants?
  cases d.kind <;> cases hregistered : r.isRegistered d.target <;> simp [hregistered]

theorem faults_edgesFor (r : Registered) (p : String) (ds : List Directive) : (edgesFor r p ds).2 =
    (ds.filter fun d => d.kind != .variable && !r.isRegistered d.target).map fun d =>
      .unknownTarget p d.target (if d.kind = .include then .include else .reference) := by
  show ds.filterMap (Directive.fault? r p) = _
  induction ds with
  | nil => rfl
  | cons d rest ih =>
      rw [List.filterMap_cons, fault?_eq, List.filter_cons, ih]
      by_cases hd : (d.kind != .variable && !r.isRegistered d.target) = true
      · rw [if_pos hd, if_pos hd, List.map_cons]
      · rw [if_neg hd, if_neg hd]

theorem faultsIn_eq (r : Registered) (p : String) (a : RawAsset) : faultsIn r p a = ownFaults r p a := by
  unfold faultsIn ownFaults
  cases a.directives p with
  | error f => rfl
  | ok ds => exact faults_edgesFor r p ds

/-- Nothing is wrong with any asset if all templates can be read and all that they ask for is registered. -/
theorem faults_draft_eq_nil_iff_asks : (draft r assets).faults = [] ↔
    (∀ p a, assets.get? p = some a → a.isTemplate = true → ∃ ds, Directive.parse a.content p = .ok ds) ∧
      ∀ p t k, Asks assets p t k → r.isRegistered t = true := by
  -- the directives of one asset have no faults if all that they want is registered
  have hunknown : ∀ p ds, (edgesFor r p ds).2 = [] ↔ ∀ d ∈ ds, ∀ t k, d.Wants t k → r.isRegistered t = true := by
    intro p ds
    rw [faults_edgesFor, List.map_eq_nil_iff, List.filter_eq_nil_iff]
    refine forall₂_congr fun d hd => ?_
    unfold Directive.Wants
    cases d.kind <;> simp
  rw [faults_draft_eq_nil_iff]
  constructor
  · intro h
    refine ⟨fun p a ha htemplate => ?_, ?_⟩
    · obtain ⟨ds, hds, -⟩ := h p a ha
      rw [RawAsset.directives, if_pos htemplate] at hds
      exact ⟨ds, hds⟩
    · rintro p t k ⟨a, ds, ha, hds, d, hd, hwants⟩
      obtain ⟨ds', hds', hnil⟩ := h p a ha
      rw [hds] at hds'
      cases hds'
      exact (hunknown p ds).1 hnil d hd t k hwants
  · rintro ⟨hread, hregistered⟩ p a ha
    have hds : ∃ ds, a.directives p = .ok ds := by
      unfold RawAsset.directives
      split
      · next htemplate => exact hread p a ha htemplate
      · exact ⟨[], rfl⟩
    obtain ⟨ds, hds⟩ := hds
    exact ⟨ds, hds, (hunknown p ds).2 fun d hd t k hwants => hregistered p t k ⟨a, ds, ha, hds, d, hd, hwants⟩⟩

/-! ### Graph or faults -/

theorem build_cases (r : Registered) (assets : PathMap RawAsset) :
    ((draft r assets).faults = [] ∧ (draft r assets).graph.cycles = [] ∧
      build r assets = .ok ((draft r assets).graph, (draft r assets).directives)) ∨
    (draft r assets).faults ++ (draft r assets).graph.cycles.map .cycle ≠ [] ∧
      build r assets = .error ((draft r assets).faults ++ (draft r assets).graph.cycles.map .cycle) := by
  unfold build
  dsimp only
  split
  · next hnil =>
      obtain ⟨hfaults, hcycles⟩ := List.append_eq_nil_iff.1 hnil
      exact .inl ⟨hfaults, List.map_eq_nil_iff.1 hcycles, rfl⟩
  · next hne => exact .inr ⟨hne, rfl⟩

/-- A set of assets has a graph just if all templates can be read, all that they ask for is registered and no asset needs
itself, directly or not; and then it is the graph of their edges. Otherwise all that is wrong is told: what is wrong with
each asset, in ascending order of the paths, and then the cycles that are found in the graph of the edges of all assets
that can be read. These are cycles, each with its smallest path in front and told once; each round trip has a step in
common with one of them; and there are none just if no asset needs itself. -/
theorem collected_of_build (r : Registered) (assets : PathMap RawAsset) :
    ((∃ g directives, build r assets = .ok (g, directives)) ↔
      (∀ p a, assets.get? p = some a → a.isTemplate = true → ∃ ds, Directive.parse a.content p = .ok ds) ∧
        (∀ p t k, Asks assets p t k → r.isRegistered t = true) ∧ ∀ p, ¬ TransGen (Links r assets) p p) ∧
    (∀ g directives, build r assets = .ok (g, directives) → DrawnFrom r assets g ∧ (∀ p, (g.edgesOf p).Nodup) ∧
      ∀ p, directives.get? p = (assets.get? p).bind fun a => (a.directives p).toOption) ∧
    (∀ fs, build r assets = .error fs → fs ≠ [] ∧ ∃ g, DrawnFrom r assets g ∧
      fs = (assets.bindings.flatMap fun y => ownFaults r y.1 y.2) ++ g.cycles.map .cycle ∧
      (∀ c ∈ g.cycles, g.IsCycle c ∧ BeginsSmallest c) ∧ g.cycles.Nodup ∧
      (∀ p l, g.Closes p (p :: l) → ∃ c ∈ g.cycles, ∃ x ∈ links c, x ∈ links (p :: l)) ∧
      (g.cycles = [] ↔ ∀ p, ¬ TransGen (Links r assets) p p)) ∧
    ∀ (p : String) (a : RawAsset), (a.isTemplate = false ∧ a.directives p = .ok []) ∨ a.isTemplate = true ∧
      ((∃ ds, a.directives p = .ok ds ∧ Directive.Inventory a.content ds) ∨
        ∃ s reason, a.directives p = .error (.malformed p s reason) ∧ BreaksOff a.content s reason) := by
  -- all is told of the draft: it has the edges of faulty assets, too, and the cycles are found among them
  have hg := wellFormed_draft r assets
  have hdrawn := drawnFrom_draft r assets
  have hcycles := (cycles_eq_nil_iff hg).trans hdrawn.acyclic_iff
  have hfaults : (draft r assets).faults = assets.bindings.flatMap fun y => ownFaults r y.1 y.2 := by
    rw [faults_draft]
    exact List.flatMap_congr fun y _ => faultsIn_eq r y.1 y.2
  refine ⟨?_, fun g directives h => ?_, fun fs h => ?_, directives_cases⟩
  · rw [← and_assoc, ← faults_draft_eq_nil_iff_asks, ← hcycles]
    rcases build_cases r assets with ⟨hf, hc, hbuild⟩ | ⟨hne, hbuild⟩
    · exact iff_of_true ⟨_, _, hbuild⟩ ⟨hf, hc⟩
    · refine iff_of_false ?_ fun ⟨hf, hc⟩ => hne (by rw [hf, hc]; rfl)
      rintro ⟨g, directives, hok⟩
      rw [hbuild] at hok
      cases hok
  · have hdraft := (draft_of_build h).1
    have hdirectives := get?_directives_draft r assets
    rw [hdraft] at hdrawn hdirectives
    exact ⟨hdrawn, fun p => (hdrawn.sorted p).nodup, hdirectives⟩
  · rcases build_cases r assets with ⟨-, -, hbuild⟩ | ⟨hne, hbuild⟩
    · rw [hbuild] at h
      cases h
    · rw [hbuild] at h
      cases h
      exact ⟨hne, _, hdrawn, by rw [hfaults], fun c hc => isCycle_of_mem_cycles hg hc, nodup_cycles hg,
        fun p l hl => exists_shared_link hg hl, hcycles⟩

/-- One asset asks for what is not registered and is part of a cycle all the same; another one cannot be read. -/
example : (build ⟨(· != "d"), fun _ => true⟩ (PathMap.ofList [
    ("a", ⟨Bytes.ofText "\x7b\x7b: include:b :\x7d\x7d", true⟩),
    ("b", ⟨Bytes.ofText "\x7b\x7b: path:d :\x7d\x7d\x7b\x7b: path:a :\x7d\x7d", true⟩),
    ("c", ⟨Bytes.ofText "\x7b\x7b: path:", true⟩)])).map (fun _ => ()) =
    .error [.unknownTarget "b" "d" .reference, .malformed "c" 0 .unterminated, .cycle ["a", "b"]] := by
  decide +kernel

end Graph

end HashedAssets
