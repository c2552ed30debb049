import HashedAssets.Proofs.Resolution.Equations
import Mathlib.Logic.Relation

/-!
# Solutions

Resolving an asset takes the results of others, so what an asset resolves to is a solution of one
equation for each asset. With sources that never change there is at most one.

* `Context.Reads`: an asset with the edges that its bytes stand for;
* `Context.Solves`: the solution, as the least relation that the equations are true of;
* `Context.Good`: the assets that have one, described without it: `good_iff_exists_solves`;
* `Good.not_transGen`: nothing that a good asset needs, directly or not, needs the asset.
-/

namespace HashedAssets.Context

open Relation

variable {x : Context} {c : Catalog} {p : String} {a : Prepared} {es : List Edge} {r : Resolved}

/-- The bytes that a source gives at its first call stand for an asset with these edges. -/
def Reads (x : Context) (c : Catalog) (p : String) (a : Prepared) (es : List Edge) : Prop :=
  ∃ d raw, c.entries.get? p = some d ∧ d.give 0 = .ok raw ∧ x.prepare c d raw = .ok (a, es)

theorem Reads.unique {a' : Prepared} {es' : List Edge} (h : x.Reads c p a es)
    (h' : x.Reads c p a' es') : a = a' ∧ es = es' := by
  obtain ⟨d, raw, hd, hraw, hp⟩ := h
  obtain ⟨d', raw', hd', hraw', hp'⟩ := h'
  rw [hd] at hd'; cases hd'
  rw [hraw] at hraw'; cases hraw'
  rw [hp] at hp'; cases hp'
  exact ⟨rfl, rfl⟩

/-- What an asset resolves to: the result of resolving it with what its targets resolve to. -/
inductive Solves (x : Context) (c : Catalog) : String → Resolved → Prop
  | intro {p : String} {a : Prepared} {es : List Edge} {m : PathMap Resolved} {r : Resolved}
      (reads : x.Reads c p a es) (present : ∀ t ∈ Edge.targets es, ∃ r', m.get? t = some r')
      (targets : ∀ t ∈ Edge.targets es, ∀ r', m.get? t = some r' → Solves x c t r')
      (result : x.resolve c a es m = .ok r) : Solves x c p r

/-- Two collections of results that are the same for all targets agree on each edge. -/
theorem agree_of_eq {m m' : PathMap Resolved}
    (hm : ∀ t ∈ Edge.targets es, ∃ r, m.get? t = some r ∧ m'.get? t = some r) {e : Edge}
    (he : e ∈ es) : Agree m m' e := by
  obtain ⟨r, hr, hr'⟩ := hm _ (Edge.mem_targets.2 ⟨e, he, rfl⟩)
  exact ⟨r, r, hr, hr', rfl, rfl, fun _ => rfl⟩

theorem Solves.unique {r' : Resolved} (h : x.Solves c p r) (h' : x.Solves c p r') : r = r' := by
  induction h generalizing r' with
  | @intro p a es m r hr hpres htar hres ih =>
      cases h' with
      | @intro _ a' es' m' _ hr' hpres' htar' hres' =>
          obtain ⟨rfl, rfl⟩ := hr.unique hr'
          obtain ⟨d, raw, -, -, hp⟩ := hr
          have hm : ∀ t ∈ Edge.targets es, ∃ r, m.get? t = some r ∧ m'.get? t = some r :=
            fun t ht => by
              obtain ⟨s, hs⟩ := hpres t ht
              obtain ⟨s', hs'⟩ := hpres' t ht
              exact ⟨s, hs, ih t ht s hs (htar' t ht s' hs') ▸ hs'⟩
          rw [resolve_congr hp fun e he => agree_of_eq hm he, hres'] at hres
          exact (Except.ok.inj hres).symm

theorem Solves.path_eq (hc : c.Keyed) (h : x.Solves c p r) : r.path = p := by
  obtain ⟨⟨d, raw, hd, -, hp⟩, -, -, hres⟩ := h
  obtain ⟨ds, -, -, rfl, -⟩ := prepare_eq_ok_iff.1 hp
  exact (resolve_eq_ok_iff.1 hres).2.2.2.2.2.1.trans (hc p d hd)

theorem Solves.compressed (h : x.Solves c p r) : r.compressed = none := by
  obtain ⟨-, -, -, hr⟩ := h
  exact (resolve_eq_ok_iff.1 hr).2.2.2.2.2.2.2.1

theorem Reads.congr {c' : Catalog} (hc : c'.entries = c.entries) (h : x.Reads c' p a es) :
    x.Reads c p a es := by
  obtain ⟨d, raw, hd, hraw, hp⟩ := h
  exact ⟨d, raw, hc ▸ hd, hraw, prepare_congr hc d raw ▸ hp⟩

/-- Solutions depend on the definitions only. -/
theorem Solves.congr {c' : Catalog} (hc : c'.entries = c.entries) (h : x.Solves c' p r) :
    x.Solves c p r := by
  induction h with
  | intro hr hpres _ hres ih =>
      exact .intro (hr.congr hc) hpres ih (resolve_catalog_congr hc _ _ _ ▸ hres)

/-! ### Good assets -/

/-- The bytes of one asset stand for an edge to the other. -/
def Needs (x : Context) (c : Catalog) (p q : String) : Prop :=
  ∃ a es, x.Reads c p a es ∧ q ∈ Edge.targets es

/-- An asset whose source gives bytes that parse, with registered targets and defined variables, and
all of whose edges lead to good assets. -/
inductive Good (x : Context) (c : Catalog) : String → Prop
  | intro {p : String} {d : Definition} {raw : Bytes} {ds : List Directive}
      (registered : c.entries.get? p = some d) (loads : d.give 0 = .ok raw)
      (parses : RawAsset.directives ⟨raw, d.options.template⟩ p = .ok ds)
      (targets : ∀ dir ∈ ds, ∀ t k, dir.wants? = some (t, k) → c.contains t = true)
      (defined : ∀ dir ∈ ds, dir.kind = .variable →
        ∃ v, x.settings.values.get? dir.target = some v)
      (edges : ∀ dir ∈ ds, ∀ e, dir.edge? (x.registered c) p = some e → Good x c e.target) :
      Good x c p

theorem fault?_eq_none_iff {dir : Directive} :
    dir.fault? (x.registered c) p = none ↔
      ∀ t k, dir.wants? = some (t, k) → c.contains t = true := by
  unfold Directive.fault? registered
  cases h : dir.wants? with
  | none => simp
  | some y =>
      obtain ⟨t, k⟩ := y
      by_cases hc : c.contains t = true
      · simp [hc]
      · simp [hc]

theorem good_iff_reads (hc : c.Keyed) : x.Good c p ↔ ∃ a es, x.Reads c p a es ∧
    (∀ dir ∈ a.directives, dir.kind = .variable →
      ∃ v, x.settings.values.get? dir.target = some v) ∧
    ∀ t ∈ Edge.targets es, x.Good c t := by
  constructor
  · rintro ⟨hd, hraw, hds, ht, hv, he⟩
    rename_i d raw ds
    have hp := hc p d hd
    refine ⟨⟨d, raw, ds⟩, _, ⟨d, raw, hd, hraw, prepare_eq_ok_iff.2 ⟨ds, hp ▸ hds, fun dir hdir =>
      fault?_eq_none_iff.2 (ht dir hdir), rfl, rfl⟩⟩, hv, fun t htar => ?_⟩
    obtain ⟨e, hmem, rfl⟩ := Edge.mem_targets.1 htar
    obtain ⟨dir, hdir, hde⟩ := mem_edgesFor.1 hmem
    exact he dir hdir e (hp ▸ hde)
  · rintro ⟨a, es, ⟨d, raw, hd, hraw, hp⟩, hv, ht⟩
    obtain ⟨ds, hds, hf, rfl, rfl⟩ := prepare_eq_ok_iff.1 hp
    have hpath := hc p d hd
    refine ⟨hd, hraw, hpath ▸ hds, fun dir hdir => fault?_eq_none_iff.1 (hf dir hdir), hv,
      fun dir hdir e he => ht _ (Edge.mem_targets.2 ⟨e, mem_edgesFor.2 ⟨dir, hdir, ?_⟩, rfl⟩)⟩
    rw [hpath]
    exact he

/-- Results for all paths of a list, put together. -/
theorem exists_collection {P : String → Resolved → Prop} :
    ∀ {l : List String}, (∀ t ∈ l, ∃ r, P t r) →
      ∃ m : PathMap Resolved, (∀ t ∈ l, ∃ r, m.get? t = some r) ∧ ∀ t r, m.get? t = some r → P t r
  | [], _ => ⟨∅, by simp, by simp⟩
  | t :: l, h => by
      obtain ⟨r, hr⟩ := h t List.mem_cons_self
      obtain ⟨m, hm, hP⟩ := exists_collection fun u hu => h u (List.mem_cons_of_mem _ hu)
      refine ⟨m.insert t r, fun u hu => ?_, fun u s hu => ?_⟩
      · rw [PathMap.get?_insert]
        split
        · exact ⟨r, rfl⟩
        · next hne => exact hm u ((List.mem_cons.1 hu).resolve_left hne)
      · rw [PathMap.get?_insert] at hu
        split at hu
        · next he => cases hu; exact he ▸ hr
        · exact hP u s hu

theorem Reads.contains (h : x.Reads c p a es) : c.contains p = true := by
  obtain ⟨d, -, hd, -⟩ := h
  exact Catalog.contains_iff.2 ⟨d, hd⟩

/-- What resolves to something is good. -/
theorem Solves.good (hc : c.Keyed) (h : x.Solves c p r) : x.Good c p := by
  induction h with
  | @intro p a es m r hr hpres htar hres ih =>
      refine (good_iff_reads hc).2 ⟨a, es, hr, fun dir hdir hk => ?_, fun t ht => ?_⟩
      · obtain ⟨v, hv⟩ := Directive.exists_value_eq_ok (resolve_eq_ok_iff.1 hres).2.1 hdir
        cases hval : x.settings.values.get? dir.target with
        | none => simp [valueOf, hk, hval] at hv
        | some v => exact ⟨v, rfl⟩
      · obtain ⟨r', hr'⟩ := hpres t ht
        exact ih t ht r' hr'

/-- The good assets are those that resolve to something. -/
theorem good_iff_exists_solves (hx : x.LongDigests) (hc : c.Keyed) :
    x.Good c p ↔ ∃ r, x.Solves c p r := by
  constructor
  · intro h
    induction h with
    | @intro p d raw ds hd hraw hds ht hv he ih =>
        have hp := hc p d hd
        have hprep : x.prepare c d raw = .ok (⟨d, raw, ds⟩, (edgesFor (x.registered c) d.path ds).1) :=
          prepare_eq_ok_iff.2 ⟨ds, hp ▸ hds, fun dir hdir => fault?_eq_none_iff.2 (ht dir hdir),
            rfl, rfl⟩
        obtain ⟨m, hm, hsol⟩ := exists_collection (P := x.Solves c)
          (l := Edge.targets (edgesFor (x.registered c) d.path ds).1) fun t htar => by
            obtain ⟨e, hmem, rfl⟩ := Edge.mem_targets.1 htar
            obtain ⟨dir, hdir, hde⟩ := mem_edgesFor.1 hmem
            exact ih dir hdir e (hp ▸ hde)
        rcases resolve_cases hx hprep (Catalog.contains_iff.2 ⟨d, hp ▸ hd⟩) hm with
          ⟨r, hr⟩ | ⟨dir, hdir, hk, hnone, -⟩
        · exact ⟨r, .intro ⟨d, raw, hd, hraw, hprep⟩ hm (fun t _ r' hr' => hsol t r' hr') hr⟩
        · obtain ⟨v, hv⟩ := hv dir hdir hk
          rw [hv] at hnone; cases hnone
  · rintro ⟨r, h⟩
    exact h.good hc

/-- A good asset is not on a cycle. -/
theorem Good.not_transGen (hc : c.Keyed) (h : x.Good c p) : ¬ TransGen (x.Needs c) p p := by
  induction h with
  | @intro p d raw ds hd hraw hds ht hv he ih =>
      intro hcycle
      obtain ⟨q, ⟨a, es, hr, hq⟩, hqp⟩ := TransGen.head'_iff.1 hcycle
      have hp := hc p d hd
      obtain ⟨d', raw', hd', hraw', hprep⟩ := hr
      rw [hd] at hd'; cases hd'
      rw [hraw] at hraw'; cases hraw'
      obtain ⟨ds', hds', -, -, rfl⟩ := prepare_eq_ok_iff.1 hprep
      rw [hp, hds] at hds'; cases hds'
      obtain ⟨e, hmem, rfl⟩ := Edge.mem_targets.1 hq
      obtain ⟨dir, hdir, hde⟩ := mem_edgesFor.1 hmem
      exact ih dir hdir e (hp ▸ hde) (.tail' hqp ⟨a, _, ⟨d, raw, hd, hraw, hprep⟩, hq⟩)

end HashedAssets.Context
