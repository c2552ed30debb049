import HashedAssets.Proofs.Directive.Spliced
import HashedAssets.Proofs.Resolution.Digests
import HashedAssets.Proofs.Resolution.Outcome

/-!
# What a snapshot holds

Each asset of a snapshot is determined by its source and by the assets that it needs. This is said here
without reference to how the assets are resolved.

* `Source.bytes?`: the bytes of a source;
* `Snapshot.Replaces`: what stands in the place of a directive;
* `Snapshot.Specified`: content, edges, digest, public path and compressed content of an asset;
* `Snapshot.specified_of_build`: every registered asset is as specified.
-/

namespace HashedAssets

/-- The bytes that a source gives at the call of a number, as they are before anything is put around
them. -/
def Source.bytes? (s : Source) (k : Nat) : Option Bytes :=
  match s with
  | .static b => some b
  | .directory b => some b
  | .dynamic l _ => (l.deliver k).toOption

theorem Definition.exists_bytes?_of_give {d : Definition} {k : Nat} {raw : Bytes}
    (h : d.give k = .ok raw) : ∃ b, d.source.bytes? k = some b ∧ raw = d.wrap b := by
  unfold give at h
  cases hs : d.source with
  | static b =>
      rw [hs] at h
      cases h
      exact ⟨b, rfl, rfl⟩
  | directory b =>
      rw [hs] at h
      cases h
      exact ⟨b, rfl, rfl⟩
  | dynamic l held =>
      rw [hs] at h
      cases hd : l.deliver k with
      | error f => simp [hd] at h
      | ok b =>
          simp only [hd, Except.ok.injEq] at h
          exact ⟨b, by rw [Source.bytes?, hd, Except.toOption], h.symm⟩

/-- A list that is in path order stays as it is. -/
theorem inPathOrder_of_pairwise {l : List (String × Bytes)} (h : (l.map (·.1)).Pairwise (· < ·)) :
    inPathOrder l = l := by
  refine List.mergeSort_of_pairwise ((List.pairwise_map.1 h).imp fun hlt => ?_)
  exact decide_eq_true (String.not_lt.1 (String.lt_asymm hlt))

/-- What is hashed with one digest for each of some paths. -/
theorem preimage_map_ascending (content : Bytes) (ps : List String) (f : String → Bytes) :
    preimage content ((ascending ps).map fun p => (p, f p)) = content ++ (ascending ps).flatMap f := by
  have hsorted : (((ascending ps).map fun p => (p, f p)).map (·.1)).Pairwise (· < ·) := by
    rw [List.map_map]
    exact (List.map_id _).symm ▸ pairwise_ascending ps
  rw [preimage, inPathOrder_of_pairwise hsorted, List.flatMap_map]

/-- When a directive stands for an edge. -/
theorem edge?_eq_some {r : Registered} {p : String} {dir : Directive} {e : Edge}
    (h : dir.edge? r p = some e) : e.source = p ∧ dir.target = e.target ∧
      (dir.kind = .include ∧ e.kind = .include ∨
        dir.kind = .path ∧ e.kind = .reference ∧ r.isHashed e.target = true) := by
  unfold Directive.edge? Directive.wants? at h
  match hk : dir.kind with
  | .include =>
      simp only [hk, Option.ite_none_right_eq_some, Option.some.injEq] at h
      obtain ⟨-, rfl⟩ := h
      exact ⟨rfl, rfl, .inl ⟨rfl, rfl⟩⟩
  | .path =>
      simp only [hk, Option.ite_none_right_eq_some, Option.some.injEq] at h
      obtain ⟨hedge, rfl⟩ := h
      refine ⟨rfl, rfl, .inr ⟨rfl, rfl, ?_⟩⟩
      simpa using (Bool.and_eq_true_iff.1 hedge).2
  | .variable => simp [hk] at h

theorem RawAsset.parse_of_directives {a : RawAsset} {p : String} {ds : List Directive}
    (h : a.directives p = .ok ds) :
    if a.isTemplate then Directive.parse a.content p = .ok ds else ds = [] := by
  unfold RawAsset.directives at h
  split at h
  · next ht => rw [if_pos ht]; exact h
  · next ht => rw [if_neg ht]; exact (Except.ok.inj h).symm

namespace Context

variable {x : Context} {c : Catalog} {p q : String} {d : Definition} {b : Bool} {digest : Bytes}

/-- An asset is hashed if the settings say so, or say nothing and its definition says so. -/
theorem hashed_of_isHashed (h : x.isHashed c p = .ok b) (hd : c.entries.get? p = some d) :
    b = (x.settings.overrides.get? p).getD d.options.hashable := by
  unfold isHashed Catalog.isHashed at h
  split at h
  · next v hv => rw [hv]; exact (Except.ok.inj h).symm
  · next hv =>
      rw [Catalog.get_eq_ok_iff.2 hd] at h
      rw [hv]
      exact (Except.ok.inj h).symm

/-- The public path of an asset is that of its digest if it is hashed, and else its path. -/
theorem publicPath_of_publicFor (h : x.publicFor d b digest = .ok q) :
    if b then publicPath d.path digest x.settings.hashLength d.options.hashBetween = .ok q
    else q = d.path := by
  unfold publicFor at h
  split at h
  · next hb => rw [if_pos hb]; exact h
  · next hb => rw [if_neg hb]; exact (Except.ok.inj h).symm

end Context

namespace Snapshot

variable {x : Context} {c : Catalog} {s : Snapshot} {p : String} {d : Definition}

/-- What stands in the place of a directive: the content of an included asset, the public path of an asset
that is referred to, the value of a variable. -/
inductive Replaces (s : Snapshot) (x : Context) (d : Directive) : Bytes → Prop
  | include {t : Resolved} (hkind : d.kind = .include) (ht : s.assets.get? d.target = some t) :
      Replaces s x d t.content
  | path {t : Resolved} (hkind : d.kind = .path) (ht : s.assets.get? d.target = some t) :
      Replaces s x d (Bytes.ofText t.publicPath)
  | variable {v : String} (hkind : d.kind = .variable)
      (hv : x.settings.values.get? d.target = some v) : Replaces s x d (Bytes.ofText v)

/-- How an asset of a snapshot belongs to its definition, to its raw bytes with their directives, and to the
other assets. -/
structure Specified (s : Snapshot) (x : Context) (d : Definition) (raw : Bytes) (ds : List Directive)
    (r : Resolved) : Prop where
  path : r.path = d.path
  directives : if d.options.template then Directive.parse raw d.path = .ok ds else ds = []
  content : Directive.Spliced raw (s.Replaces x) 0 ds r.content
  verbatim : d.options.template = false → r.content = raw
  /-- The edges are the includes, and the references to hashed assets. -/
  edges : ∀ e, e ∈ r.edges ↔ e.source = d.path ∧ ∃ dir ∈ ds, dir.target = e.target ∧
    (dir.kind = .include ∧ e.kind = .include ∨
      dir.kind = .path ∧ e.kind = .reference ∧ ∃ t, s.assets.get? e.target = some t ∧ t.hashed = true)
  sorted : Edge.Sorted d.path r.edges
  graph : s.graph.edgesOf d.path = r.edges
  /-- The digest is that of the content and the digests of the targets, each once, in path order. -/
  digest : ∃ ts : List Resolved, (ts.map (·.path)).Pairwise (· < ·) ∧
    (∀ t, t ∈ ts ↔ ∃ e ∈ r.edges, s.assets.get? e.target = some t) ∧
    r.digest = x.hash (r.content ++ ts.flatMap (·.digest))
  hashed : r.hashed = (x.settings.overrides.get? d.path).getD d.options.hashable
  publicPath : if r.hashed then
      HashedAssets.publicPath d.path r.digest x.settings.hashLength d.options.hashBetween
        = .ok r.publicPath
    else r.publicPath = d.path
  compressed : r.compressed = if d.options.embeddable then some (x.compress r.content) else none

theorem Solved.exists_asset (h : s.Solved x c) (hp : p ∈ c.paths) :
    ∃ r, s.assets.get? p = some r := by
  obtain ⟨-, r, -, -, hr⟩ := h.solved p hp
  exact ⟨_, hr⟩

theorem Solved.mem_paths (h : s.Solved x c) {r : Resolved} (hr : s.assets.get? p = some r) : p ∈ c.paths := by
  rw [← h.keys, PathMap.mem_keys, PathMap.mem_iff_get?_isSome, hr]
  rfl

/-- An asset of a snapshot stands under its path, and is hashed as the settings say. Without a digest its
public path is its path. -/
theorem Solved.asset (h : s.Solved x c) (hc : c.Keyed) {r : Resolved}
    (hr : s.assets.get? p = some r) : r.path = p ∧ x.isHashed c p = .ok r.hashed ∧
      (r.hashed = false → r.publicPath = p) := by
  obtain ⟨a, v, ha, hres, hv⟩ := h.solved p (h.mem_paths hr)
  obtain ⟨-, hdef, -⟩ := ha.spec hc
  obtain ⟨z, hz⟩ := exists_finish x c v
  rw [hr, hz] at hv
  cases hv
  obtain ⟨-, -, -, hhashed, hpublic, hpath, -⟩ := Context.resolve_eq_ok_iff.1 hres
  rw [hdef] at hhashed hpath
  refine ⟨hpath, hhashed, fun hno => ?_⟩
  have hplace := Context.publicPath_of_publicFor hpublic
  rw [if_neg (Bool.eq_false_iff.1 hno), hdef] at hplace
  exact hplace

/-- What a prepared asset asks for is registered, unless it is a variable. -/
theorem target_mem_paths {raw : Bytes} {a : Prepared} {es : List Edge}
    (h : x.prepare c d raw = .ok (a, es)) {dir : Directive} (hdir : dir ∈ a.directives)
    (hk : dir.kind ≠ .variable) : dir.target ∈ c.paths := by
  obtain ⟨ds, -, hfaults, rfl, -⟩ := Context.prepare_eq_ok_iff.1 h
  have hf := hfaults dir hdir
  refine (Context.isRegistered_iff (x := x)).1 ?_
  by_contra hno
  unfold Directive.fault? Directive.wants? at hf
  match hkind : dir.kind with
  | .variable => exact hk hkind
  | .include => simp [hkind, hno] at hf
  | .path => simp [hkind, hno] at hf

/-- The edges of an asset of a snapshot are its includes and its references to hashed assets. -/
theorem Solved.mem_edgesOf (h : s.Solved x c) (hc : c.Keyed) {a : Prepared}
    (ha : x.Prepares c p a (s.graph.edgesOf p)) {e : Edge} : e ∈ s.graph.edgesOf p ↔
      e.source = p ∧ ∃ dir ∈ a.directives, dir.target = e.target ∧
        (dir.kind = .include ∧ e.kind = .include ∨ dir.kind = .path ∧ e.kind = .reference ∧
          ∃ t, s.assets.get? e.target = some t ∧ t.hashed = true) := by
  obtain ⟨-, hdef, -, -, hprep⟩ := ha.spec hc
  obtain ⟨ds, -, -, hads, hes⟩ := Context.prepare_eq_ok_iff.1 hprep
  constructor
  · intro he
    have hmem := he
    rw [hes] at hmem
    obtain ⟨dir, hdir, hedge⟩ := mem_edgesFor.1 hmem
    obtain ⟨hsource, htarget, hkind⟩ := edge?_eq_some hedge
    have hdir' : dir ∈ a.directives := by rw [hads]; exact hdir
    refine ⟨hsource.trans hdef, dir, hdir', htarget, hkind.imp_right fun ⟨hk, hek, hhashed⟩ => ?_⟩
    obtain ⟨t, ht⟩ := h.exists_asset (target_mem_paths hprep hdir' (by rw [hk]; simp))
    rw [htarget] at ht
    obtain ⟨-, hth, -⟩ := h.asset hc ht
    refine ⟨hk, hek, t, ht, ?_⟩
    simpa [Context.registered, hth, Except.toOption] using hhashed
  · rintro ⟨hsource, dir, hdir, htarget, hkind⟩
    have hcases := Context.directive_cases hprep hdir
    rw [hdef, htarget] at hcases
    rcases hkind with ⟨hk, hek⟩ | ⟨hk, hek, t, ht, hth⟩
    · simp only [hk, true_and, reduceCtorEq, false_and, or_false] at hcases
      obtain ⟨_, _, _⟩ := e
      cases hsource
      cases hek
      exact hcases
    · obtain ⟨-, hhashed, -⟩ := h.asset hc ht
      simp only [hk, hhashed, hth, true_and, reduceCtorEq, false_and, or_false, false_or,
        Except.ok.injEq] at hcases
      obtain ⟨_, _, _⟩ := e
      cases hsource
      cases hek
      exact hcases

/-- What resolving puts in the place of a directive is what the snapshot holds for it. -/
theorem Solved.replaces (h : s.Solved x c) (hc : c.Keyed) {a : Prepared}
    (ha : x.Prepares c p a (s.graph.edgesOf p)) {dir : Directive} (hdir : dir ∈ a.directives)
    {v : Bytes} {q : String} (hv : x.valueOf c s.assets q dir = .ok v) : s.Replaces x dir v := by
  obtain ⟨-, -, -, -, hprep⟩ := ha.spec hc
  match hk : dir.kind with
  | .include =>
      simp only [Context.valueOf, hk, map_eq_ok, Context.need_eq_ok_iff] at hv
      obtain ⟨t, ht, rfl⟩ := hv
      exact .include hk ht
  | .path =>
      obtain ⟨t, ht⟩ := h.exists_asset (target_mem_paths hprep hdir (by rw [hk]; simp))
      obtain ⟨-, hhashed, hpublic⟩ := h.asset hc ht
      have hbytes : v = Bytes.ofText t.publicPath := by
        cases hth : t.hashed with
        | true =>
            simp only [Context.valueOf, hk, hhashed, hth, bind, Except.bind, if_true, map_eq_ok,
              Context.need_eq_ok_iff, ht] at hv
            obtain ⟨w, hw, rfl⟩ := hv
            cases hw
            rfl
        | false =>
            simp [Context.valueOf, hk, hhashed, hth, bind, Except.bind, pure, Except.pure] at hv
            rw [hpublic hth, hv]
      exact hbytes ▸ .path hk ht
  | .variable =>
      simp only [Context.valueOf, hk] at hv
      split at hv
      · next w hw => cases hv; exact .variable hk hw
      · cases hv

theorem flatMap_digestIn {m : PathMap Resolved} {l : List String}
    (h : ∀ t ∈ l, ∃ v, m.get? t = some v) :
    l.flatMap (Context.digestIn m) = (l.filterMap m.get?).flatMap (·.digest) := by
  induction l with
  | nil => rfl
  | cons t rest ih =>
      obtain ⟨v, hv⟩ := h t List.mem_cons_self
      rw [List.flatMap_cons, ih fun q hq => h q (List.mem_cons_of_mem _ hq), List.filterMap_cons, hv,
        List.flatMap_cons, Context.digestIn, hv]
      rfl

/-- The digests that go into that of an asset are those of its targets, each once, in path order. -/
theorem Solved.digest (h : s.Solved x c) (hc : c.Keyed) {a : Prepared} {es : List Edge} {r : Resolved}
    (hr : x.resolve c a es s.assets = .ok r) : ∃ ts : List Resolved,
      (ts.map (·.path)).Pairwise (· < ·) ∧
      (∀ t, t ∈ ts ↔ ∃ e ∈ es, s.assets.get? e.target = some t) ∧
      r.digest = x.hash (r.content ++ ts.flatMap (·.digest)) := by
  obtain ⟨hall, -, hdigest, -⟩ := Context.resolve_eq_ok_iff.1 hr
  have hget : ∀ t ∈ ascending (Edge.targets es), ∃ v, s.assets.get? t = some v ∧ v.path = t :=
    fun t ht => by
      obtain ⟨v, hv⟩ := hall t (mem_ascending.1 ht)
      exact ⟨v, hv, (h.asset hc hv).1⟩
  refine ⟨(ascending (Edge.targets es)).filterMap s.assets.get?, ?_, fun t => ?_, ?_⟩
  · have hpaths : ((ascending (Edge.targets es)).filterMap s.assets.get?).map (·.path)
        = ascending (Edge.targets es) := by
      rw [List.map_filterMap]
      exact (List.filterMap_congr fun t ht => by
        obtain ⟨v, hv, hpath⟩ := hget t ht
        rw [hv, Option.map_some, hpath]).trans List.filterMap_some
    rw [hpaths]
    exact pairwise_ascending _
  · rw [List.mem_filterMap]
    constructor
    · rintro ⟨q, hq, ht⟩
      obtain ⟨e, he, rfl⟩ := Edge.mem_targets.1 (mem_ascending.1 hq)
      exact ⟨e, he, ht⟩
    · rintro ⟨e, he, ht⟩
      exact ⟨e.target, mem_ascending.2 (Edge.mem_targets.2 ⟨e, he, rfl⟩), ht⟩
  · rw [hdigest, HashedAssets.digest, preimage_map_ascending,
      flatMap_digestIn fun t ht => hall t (mem_ascending.1 ht)]

theorem finish_eq {r : Resolved} (hd : c.entries.get? r.path = some d) (hnone : r.compressed = none) :
    finish x c r = { r with
      compressed := if d.options.embeddable then some (x.compress r.content) else none } := by
  obtain ⟨_, _, _, _, _, _, _, _⟩ := r
  cases hnone
  rw [finish, hd]
  dsimp only
  split <;> rfl

/-- Every registered asset of a snapshot is as its source, its options, the settings and the other assets
of the snapshot say. -/
theorem specified_of_build (hc : c.Keyed) (h : (build x c).1 = .ok s)
    (hd : c.entries.get? p = some d) : ∃ b raw ds r,
      d.source.bytes? ((c.calls.get? p).getD 0) = some b ∧
      raw = d.options.prepend.getD [] ++ b ++ d.options.append.getD [] ∧
      s.assets.get? p = some r ∧ s.Specified x d raw ds r := by
  have hs := solved_of_build hc h
  obtain ⟨a, r, ha, hr, hget⟩ := hs.solved p (Catalog.mem_paths.2 ⟨d, hd⟩)
  obtain ⟨hd', hpath, hnext, -, hprep⟩ := ha.spec hc
  obtain rfl : d = a.definition := Option.some.inj (hd.symm.trans hd')
  obtain ⟨b, hb, hraw⟩ := Definition.exists_bytes?_of_give hnext
  obtain ⟨ds, hds, -, hads, hes⟩ := Context.prepare_eq_ok_iff.1 hprep
  have hdirectives : a.directives = ds := by rw [hads]
  have hparse := RawAsset.parse_of_directives hds
  obtain ⟨-, hrender, -, hhashed, hpublic, hrpath, hredges, hnone, -⟩ :=
    Context.resolve_eq_ok_iff.1 hr
  have hcontent : Directive.Spliced a.raw (s.Replaces x) 0 ds r.content := by
    rw [hdirectives] at hrender
    refine (Directive.spliced_of_render (RawAsset.inside_directives hds) hrender).mono
      fun dir hdir v hv => hs.replaces hc ha (hdirectives ▸ hdir) hv
  refine ⟨b, a.raw, ds, _, hpath ▸ hb, hraw, hget, ?_⟩
  rw [finish_eq (d := a.definition) (by rw [hrpath, hpath, hd]) hnone]
  exact
    { path := hrpath
      directives := hparse
      content := hcontent
      verbatim := fun ht => by
        rw [if_neg (by simp [ht])] at hparse
        subst hparse
        exact hcontent.eq_drop
      edges := fun e => by
        dsimp only
        rw [hredges, hpath, hs.mem_edgesOf hc ha, hdirectives]
      sorted := by
        dsimp only
        rw [hredges, hes]
        exact sorted_edgesFor _ _ _
      graph := hpath ▸ hredges.symm
      digest := by
        dsimp only
        rw [hredges]
        exact hs.digest hc hr
      hashed := by
        rw [hpath] at hhashed ⊢
        exact Context.hashed_of_isHashed hhashed hd
      publicPath := Context.publicPath_of_publicFor hpublic
      compressed := rfl }

namespace Site

/-- A page that includes a part as it is, refers to two images, and asks for a variable. -/
def page : Definition :=
  Sample.asset "page" "{{: include:part :}}|{{: path:logo :}}|{{: path:icon :}}|{{: var:site :}}"
    { prepend := some (Bytes.ofText "<"), append := some (Bytes.ofText ">") } (by decide)

/-- The page with all that it needs. -/
def catalog : Catalog :=
  ((((∅ : Catalog).add page).add
    (Sample.asset "part" "{{: raw :}}" { template := some false } (by decide))).add
    (Sample.asset "logo" "L" {} (by decide))).add
    (Sample.asset "icon" "I" { hashable := some false } (by decide))

theorem keyed_catalog : catalog.Keyed :=
  (((Catalog.keyed_empty.add _).add _).add _).add _

theorem get?_page : catalog.entries.get? "page" = some page := by
  simp [catalog, Catalog.entries_add, page, Sample.asset]

end Site

/-- In the sample each directive of the page is replaced by what the other assets are. -/
theorem specified_page : Site.catalog.Keyed ∧ ∃ s raw ds r,
    (build Sample.context Site.catalog).1 = .ok s ∧ s.assets.get? "page" = some r ∧
    r.content = Bytes.ofText "<{{: raw :}}|logo-TAAAAAAAAAAA|icon|Home>" ∧
    s.Specified Sample.context Site.page raw ds r := by
  obtain ⟨s, hs⟩ := Option.isSome_iff_exists.1
    (show (Sample.built? Site.catalog).isSome = true by decide +kernel)
  obtain ⟨-, raw, ds, r, -, -, hr, hspec⟩ :=
    specified_of_build Site.keyed_catalog (Sample.build_of_built? hs) Site.get?_page
  have hcontent : ((Sample.built? Site.catalog).bind fun s => s.assets.get? "page").map (·.content)
      = some (Bytes.ofText "<{{: raw :}}|logo-TAAAAAAAAAAA|icon|Home>") := by decide +kernel
  rw [hs, Option.bind_some, hr] at hcontent
  exact ⟨Site.keyed_catalog, s, raw, ds, r, Sample.build_of_built? hs, hr, Option.some.inj hcontent,
    hspec⟩

end Snapshot

end HashedAssets
