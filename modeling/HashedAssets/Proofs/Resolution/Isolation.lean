import HashedAssets.Proofs.Resolution.Propagation
import HashedAssets.Proofs.Resolution.Sources

/-!
# Changes reach only what depends on them

Two catalogs may differ in what one source gives. Its asset may then need others than before, so that the
graph and the order of evaluation are others too; but nothing changes for an asset that does not need it.

* `Catalog.SameBut`: catalogs that differ in what the source of one path gives;
* `Context.Prepares.same`: bytes that are the same stand for assets that resolve alike;
* `Snapshot.Solved.same`: one asset whose targets are the same in both snapshots;
* `Snapshot.resolve_eq_of_builds`: every asset that does not need the path is the same in both.
-/

namespace HashedAssets

open Relation

variable {x : Context} {c c' : Catalog} {p y : String} {a : Prepared} {es : List Edge}

/-! ### Catalogs that differ in one source -/

namespace Catalog

/-- The same assets are registered and treated in the same way, and every source but that of `y` gives the
same when it is asked the next time. -/
structure SameBut (c c' : Catalog) (y : String) : Prop where
  alike : c.Alike c'
  next : ∀ p, p ≠ y → (c'.entries.get? p).map c'.next = (c.entries.get? p).map c.next

theorem Alike.keyed (h : c.Alike c') (hc : c.Keyed) : c'.Keyed := by
  intro p d' hd'
  have hp := h p
  rw [hd'] at hp
  obtain ⟨d, hd, he⟩ := Option.map_eq_some_iff.1 hp.symm
  rw [← (Prod.mk.inj he).1]
  exact hc p d hd

theorem Alike.mem_paths (h : c.Alike c') : p ∈ c'.paths ↔ p ∈ c.paths := by
  rw [Catalog.mem_paths, Catalog.mem_paths, ← contains_iff, ← contains_iff, h.contains]

end Catalog

/-! ### One asset -/

namespace Context

theorem Prepares.unique {a' : Prepared} {es' : List Edge} (h : x.Prepares c p a es)
    (h' : x.Prepares c p a' es') : a = a' ∧ es = es' := by
  obtain ⟨d, b, hd, hb, hprep⟩ := h
  obtain ⟨d', b', hd', hb', hprep'⟩ := h'
  rw [hd] at hd'; cases hd'
  rw [hb] at hb'; cases hb'
  rw [hprep] at hprep'; cases hprep'
  exact ⟨rfl, rfl⟩

/-- A source that gives the same stands for an asset with the same edges, which resolves alike. -/
theorem Prepares.same (h : x.Prepares c p a es) (hsame : c.SameBut c' y) (hp : p ≠ y) :
    ∃ a', x.Prepares c' p a' es ∧ ∀ m, x.resolve c' a' es m = x.resolve c a es m := by
  obtain ⟨d, b, hd, hb, hprep⟩ := h
  have hlike := hsame.alike p
  have hnext := hsame.next p hp
  rw [hd] at hlike hnext
  obtain ⟨d', hd', he⟩ := Option.map_eq_some_iff.1 hlike
  obtain ⟨hpath, hoptions⟩ := Prod.mk.inj he
  rw [hd', Option.map_some, Option.map_some, Option.some.injEq, hb] at hnext
  obtain ⟨a', hprep', heq⟩ := exists_prepare_alike hprep hsame.alike hpath hoptions
  exact ⟨a', ⟨d', b, hd', hnext, hprep'⟩, heq⟩

end Context

/-! ### Two snapshots -/

namespace Snapshot

variable {s s' : Snapshot}

theorem finish_alike (h : c.Alike c') (r : Resolved) : finish x c' r = finish x c r := by
  have hr := h r.path
  unfold finish
  cases hd : c.entries.get? r.path with
  | none =>
      rw [hd] at hr
      rw [Option.map_eq_none_iff.1 hr]
  | some d =>
      rw [hd] at hr
      obtain ⟨d', hd', he⟩ := Option.map_eq_some_iff.1 hr
      have hoptions : d'.options = d.options := (Prod.mk.inj he).2
      rw [hd']
      dsimp only
      rw [hoptions]

/-- An asset whose source gives the same and whose targets are the same is the same. -/
theorem Solved.same (hs : s.Solved x c) (hs' : s'.Solved x c') (hc : c.Keyed)
    (hsame : c.SameBut c' y) (hp : p ∈ c.paths) (hpy : p ≠ y)
    (htargets : ∀ t, s.graph.Adjacent p t → s'.assets.get? t = s.assets.get? t) :
    s'.graph.edgesOf p = s.graph.edgesOf p ∧ s'.assets.get? p = s.assets.get? p := by
  obtain ⟨a, r, ha, hr, hget⟩ := hs.solved p hp
  obtain ⟨a', r', ha', hr', hget'⟩ := hs'.solved p (hsame.alike.mem_paths.2 hp)
  obtain ⟨b, hb, heq⟩ := ha.same hsame hpy
  obtain ⟨rfl, hedges⟩ := ha'.unique hb
  obtain ⟨-, -, -, -, hprep⟩ := ha.spec hc
  -- the second snapshot holds for the targets what the first one holds
  have hagree : ∀ e ∈ s.graph.edgesOf p, Context.Agree s'.assets s.assets e := by
    intro e he
    have hadj : s.graph.Adjacent p e.target := Edge.mem_targets.2 ⟨e, he, rfl⟩
    obtain ⟨v, hv⟩ := hs.exists_of_adjacent hget hadj
    exact ⟨v, v, (htargets _ hadj).trans hv, hv, rfl, rfl, fun _ => rfl⟩
  have hsame' : x.resolve c' a' (s'.graph.edgesOf p) s'.assets = .ok r := by
    calc x.resolve c' a' (s'.graph.edgesOf p) s'.assets
        = x.resolve c' a' (s.graph.edgesOf p) s'.assets := by rw [hedges]
      _ = x.resolve c a (s.graph.edgesOf p) s'.assets := heq _
      _ = x.resolve c a (s.graph.edgesOf p) s.assets := Context.resolve_congr hprep hagree
      _ = .ok r := hr
  rw [hr', Except.ok.injEq] at hsame'
  rw [hget, hget', hsame', finish_alike hsame.alike]
  exact ⟨hedges, rfl⟩

namespace Rewording

/-- The asset `cover` includes `theme` and names `events`, an asset without a digest and with the given
text. -/
def catalog (text : String) : Catalog :=
  ((((∅ : Catalog).add (Sample.asset "photo" "L" {} (by decide))).add
    (Sample.asset "events" text { hashable := some false } (by decide))).add
    (Sample.asset "cover" "{{: include:theme :}}|{{: path:events :}}" {} (by decide))).add
    (Sample.asset "theme" "S" {} (by decide))

theorem keyed_catalog (text : String) : (catalog text).Keyed :=
  (((Catalog.keyed_empty.add _).add _).add _).add _

theorem sameBut_catalog (text text' : String) : (catalog text).SameBut (catalog text') "events" := by
  constructor
  · intro p
    simp only [catalog, Catalog.entries_add, PathMap.get?_insert, Sample.asset]
    split_ifs <;> rfl
  · intro p hp
    simp only [catalog, Catalog.entries_add, PathMap.get?_insert, Sample.asset, if_neg hp]
    split_ifs <;> rfl

/-- At first `events` includes `photo`. -/
def first? : Option Snapshot := Sample.built? (catalog "{{: include:photo :}}")

/-- Later it includes `cover`. -/
def second? : Option Snapshot := Sample.built? (catalog "{{: include:cover :}}")

end Rewording

/-! ### What does not change -/

/-- In the builds of two catalogs that differ in what the source of `y` gives, an asset that does not need
`y` in the first one needs the same assets and is the same asset in the second one, whatever `y` needs. -/
theorem resolve_eq_of_builds (hc : c.Keyed) (hsame : c.SameBut c' y) (h : (build x c).1 = .ok s)
    (h' : (build x c').1 = .ok s') (hp : p ∈ c.paths) (hy : y ∉ s.graph.closure p) :
    s'.graph.closure p = s.graph.closure p ∧ ∃ r, s.resolve p = .ok r ∧ s'.resolve p = .ok r := by
  have hs := solved_of_build hc h
  have hs' := solved_of_build (hsame.alike.keyed hc) h'
  have hmem : ∀ q, q ∈ s.order.reverse ↔ q ∈ c.paths := fun q => by
    rw [List.mem_reverse, hs.order.mem_iff]
  -- along the order of the first build: what an asset needs does not need `y` either
  have hall : ∀ q ∈ s.order.reverse, y ∉ s.graph.closure q →
      s'.graph.edgesOf q = s.graph.edgesOf q ∧ s'.assets.get? q = s.assets.get? q := by
    refine hs.founded.induction fun q hq ih hyq => ?_
    have hqy : q ≠ y := by
      intro he
      exact hyq (he ▸ Graph.mem_closure.2 .refl)
    refine hs.same hs' hc hsame ((hmem q).1 hq) hqy fun t hqt => ?_
    refine (ih t hqt ?_).2
    intro hyt
    exact hyq (Graph.mem_closure.2 (.head hqt (Graph.mem_closure.1 hyt)))
  have hbelow : ∀ q ∈ s.graph.closure p, s'.graph.edgesOf q = s.graph.edgesOf q := by
    intro q hq
    have hpq := Graph.mem_closure.1 hq
    refine (hall q (hs.founded.mem_of_reflTransGen ((hmem p).2 hp) hpq) ?_).1
    intro hyq
    exact hy (Graph.mem_closure.2 (hpq.trans (Graph.mem_closure.1 hyq)))
  have htargets : s.SameTargets s' p := by
    intro q hq t
    rw [Graph.targetsOf, Graph.targetsOf, hbelow q hq]
  obtain ⟨-, hget⟩ := hall p ((hmem p).2 hp) hy
  obtain ⟨r, hr⟩ := hs.exists_asset hp
  refine ⟨htargets.closure_eq, r, ?_, ?_⟩
  · rw [resolve, hr]
  · rw [resolve, hget, hr]

/-- In the sample `events` comes to need `cover`, which names it; nothing changes for `cover`. -/
theorem resolve_eq_of_rewording : ∃ s s' r, Rewording.first? = some s ∧ Rewording.second? = some s' ∧
    (Rewording.catalog "{{: include:photo :}}").SameBut (Rewording.catalog "{{: include:cover :}}") "events" ∧
    s.graph.closure "cover" = ["cover", "theme"] ∧ s.graph.closure "events" = ["events", "photo"] ∧
    s'.graph.closure "events" = ["cover", "events", "theme"] ∧
    s.resolve "cover" = .ok r ∧ s'.resolve "cover" = .ok r := by
  have hclosures : Rewording.first?.map (fun s => (s.graph.closure "cover", s.graph.closure "events"))
        = some (["cover", "theme"], ["events", "photo"]) ∧
      Rewording.second?.map (fun s => s.graph.closure "events") = some ["cover", "events", "theme"] := by
    decide +kernel
  obtain ⟨⟨s, hs, hfirst⟩, ⟨s', hs', hsecond⟩⟩ :=
    hclosures.imp Option.map_eq_some_iff.1 Option.map_eq_some_iff.1
  obtain ⟨hpage, hnews⟩ := Prod.mk.inj hfirst
  have hsame := Rewording.sameBut_catalog "{{: include:photo :}}" "{{: include:cover :}}"
  obtain ⟨-, r, hr, hr'⟩ := resolve_eq_of_builds (Rewording.keyed_catalog _) hsame
    (Sample.build_of_built? hs) (Sample.build_of_built? hs') (p := "cover")
    (by simp [Rewording.catalog, Catalog.paths, Catalog.entries_add, PathMap.mem_keys,
      PathMap.mem_iff_get?_isSome, PathMap.get?_insert, Sample.asset]) (by rw [hpage]; decide)
  exact ⟨s, s', r, hs, hs', hsame, hpage, hnews, hsecond, hr, hr'⟩

end Snapshot

end HashedAssets
