import HashedAssets.Proofs.Resolution.Specification

/-!
# Edges say all that is looked up

The edges of an asset are derived from its directives before anything is resolved; what stands in the place of
a directive is looked up later. Both decide for each directive whether its target is needed, and they decide
alike.

* `Context.Suffices`: resolving an asset looks up the targets of the given edges and nothing else, and can
  only fail for want of a variable;
* `Context.suffices_of_prepare`: the edges of a prepared asset suffice;
* `Context.prepare_of_build`: what a graph stores for an asset is what preparing the asset gives;
* `Context.edges_suffice`: so the edges of a graph suffice as well, with the directives stored beside it.
-/

namespace HashedAssets

theorem mapM_congr {ε α β : Type} {f f' : α → Except ε β} {l : List α} (h : ∀ a ∈ l, f a = f' a) :
    l.mapM f = l.mapM f' := by
  induction l with
  | nil => rfl
  | cons a rest ih =>
      rw [List.mapM_cons, List.mapM_cons, h a List.mem_cons_self,
        ih fun b hb => h b (List.mem_cons_of_mem _ hb)]

namespace Context

variable {x : Context} {c : Catalog} {d : Definition} {raw : Bytes} {a : Prepared} {es : List Edge}
  {m m' : PathMap Resolved}

/-! ### What is looked up -/

/-- Results that are the same for the targets of the edges, as far as there are any, put the same in the
place of every directive. -/
theorem valueOf_eq_of_targets (h : x.prepare c d raw = .ok (a, es))
    (hm : ∀ t ∈ Edge.targets es, m'.get? t = m.get? t) {dir : Directive} (hdir : dir ∈ a.directives)
    (p : String) : x.valueOf c m' p dir = x.valueOf c m p dir := by
  rcases directive_cases h hdir with ⟨hk, he⟩ | ⟨hk, hb, he⟩ | ⟨hk, hb⟩ | hk
  · have hget := hm dir.target (Edge.mem_targets.2 ⟨_, he, rfl⟩)
    simp only [valueOf, hk, need, hget]
  · have hget := hm dir.target (Edge.mem_targets.2 ⟨_, he, rfl⟩)
    simp only [valueOf, hk, hb, need, hget]
  · -- a target without a digest: nothing is looked up
    simp [valueOf, hk, hb, bind, Except.bind]
  · simp [valueOf, hk]

theorem digestsOf_eq_of_targets (hm : ∀ t ∈ Edge.targets es, m'.get? t = m.get? t) :
    digestsOf m' es = digestsOf m es := by
  apply mapM_congr
  intro t ht
  rw [need, need, hm t (mem_ascending.1 ht)]

theorem resolve_eq_of_targets (h : x.prepare c d raw = .ok (a, es))
    (hm : ∀ t ∈ Edge.targets es, m'.get? t = m.get? t) : x.resolve c a es m' = x.resolve c a es m := by
  have hrender : Directive.render a.raw a.directives (x.valueOf c m' a.definition.path)
      = Directive.render a.raw a.directives (x.valueOf c m a.definition.path) :=
    Directive.render_congr fun dir hdir => valueOf_eq_of_targets h hm hdir _
  rw [resolve_eq, resolve_eq, hrender, digestsOf_eq_of_targets hm]

/-! ### Edges that suffice -/

/-- Resolving an asset with these edges looks up their targets and nothing else: where all of them are resolved
there is a result, unless a directive asks for a variable without a value, and then the first such directive
is told. -/
structure Suffices (x : Context) (c : Catalog) (a : Prepared) (es : List Edge) : Prop where
  apart : Directive.Apart 0 a.directives
  result : ∀ m : PathMap Resolved, (∀ t ∈ Edge.targets es, t ∈ m) →
    x.undefined? a.directives = none → ∃ r, x.resolve c a es m = .ok r
  lacking : ∀ m : PathMap Resolved, (∀ t ∈ Edge.targets es, t ∈ m) →
    ∀ name, x.undefined? a.directives = some name →
      x.resolve c a es m = .error (.fault (.undefinedVariable a.definition.path name))
  reads : ∀ m m' : PathMap Resolved, (∀ t ∈ Edge.targets es, m'.get? t = m.get? t) →
    x.resolve c a es m' = x.resolve c a es m

theorem suffices_of_prepare (hx : x.LongDigests) (h : x.prepare c d raw = .ok (a, es))
    (hd : d.path ∈ c.paths) : x.Suffices c a es := by
  obtain ⟨ds, hds, -, ha, -⟩ := prepare_eq_ok_iff.1 h
  have hdefinition : a.definition = d := by rw [ha]
  have hcases : ∀ m : PathMap Resolved, (∀ t ∈ Edge.targets es, t ∈ m) →
      (∃ name, x.undefined? a.directives = some name ∧
        x.resolve c a es m = .error (.fault (.undefinedVariable d.path name))) ∨
      x.undefined? a.directives = none ∧ ∃ r, x.resolve c a es m = .ok r := by
    intro m hm
    have hall : ∀ t ∈ Edge.targets es, ∃ r, m.get? t = some r := fun t ht =>
      Option.isSome_iff_exists.1 (PathMap.mem_iff_get?_isSome.1 (hm t ht))
    rcases resolve_of_targets h ((isRegistered_iff (x := x)).2 hd) hall with hv | hr | ⟨hshort, -⟩
    · exact .inl hv
    · exact .inr hr
    · exact absurd hx hshort
  constructor
  · rw [ha]
    exact RawAsset.apart_directives hds
  · intro m hm hnone
    rcases hcases m hm with ⟨name, hname, -⟩ | ⟨-, hr⟩
    · simp [hname] at hnone
    · exact hr
  · intro m hm name hname
    rcases hcases m hm with ⟨name', hname', hr⟩ | ⟨hnone, -⟩
    · rw [hname, Option.some.injEq] at hname'
      rw [hr, hname', hdefinition]
    · simp [hname] at hnone
  · intro m m' hm
    exact resolve_eq_of_targets h hm

/-- An asset of a graph that was built can be prepared, with the directives and the edges that were stored for
it. -/
theorem prepare_of_build {assets : PathMap RawAsset} {g : Graph} {directives : PathMap (List Directive)}
    (h : Graph.build (x.registered c) assets = .ok (g, directives))
    (ha : assets.get? d.path = some ⟨raw, d.options.template⟩) : ∃ ds,
      directives.get? d.path = some ds ∧ x.prepare c d raw = .ok (⟨d, raw, ds⟩, g.edgesOf d.path) := by
  obtain ⟨ds, hds, hfaults, hdir, hedges, -⟩ := Graph.build_eq_ok h ha
  refine ⟨ds, hdir, prepare_eq_ok_iff.2 ⟨ds, hds, ?_, rfl, hedges⟩⟩
  simpa [edgesFor] using hfaults

namespace Site

/-- The bytes of the page. -/
def source : Bytes := Bytes.ofText
  "<{{: include:part :}}|{{: path:logo :}}|{{: path:icon :}}|{{: var:site :}}>"

/-- Results for what the page needs, and for nothing else. -/
def needed : PathMap Resolved := PathMap.ofList
  [("logo", ⟨"logo", "logo.1", [1], [], none, true, [], ∅⟩),
   ("part", ⟨"part", "part", [2], Bytes.ofText "P", none, false, [], ∅⟩)]

/-- The graph of the page alone, with the directives that are stored for it. -/
def drawn? : Option (Graph × PathMap (List Directive)) :=
  (Graph.build (Snapshot.Sample.context.registered Snapshot.Site.catalog)
    (PathMap.ofList [("page", ⟨source, true⟩)])).toOption

end Site

/-- The edges of a prepared asset suffice to resolve it, and so do the edges and the directives that are stored
when the graph of any set of assets is built. -/
theorem edges_suffice (hx : x.LongDigests) :
    (∀ d raw a es, x.prepare c d raw = .ok (a, es) → d.path ∈ c.paths → x.Suffices c a es) ∧
    ∀ assets g directives, Graph.build (x.registered c) assets = .ok (g, directives) →
      ∀ d raw, assets.get? d.path = some ⟨raw, d.options.template⟩ → d.path ∈ c.paths →
        ∃ ds, directives.get? d.path = some ds ∧ x.Suffices c ⟨d, raw, ds⟩ (g.edgesOf d.path) := by
  constructor
  · intro d raw a es h hd
    exact suffices_of_prepare hx h hd
  · intro assets g directives h d raw ha hd
    obtain ⟨ds, hdir, hprep⟩ := prepare_of_build h ha
    exact ⟨ds, hdir, suffices_of_prepare hx hprep hd⟩

/-- In the sample the page needs `logo` and `part`. It names `icon` too, which has no digest and is not looked
up. -/
theorem edges_suffice_page : Snapshot.Sample.context.LongDigests ∧
    "page" ∈ Snapshot.Site.catalog.paths ∧ ∃ g directives ds r, Site.drawn? = some (g, directives) ∧
      directives.get? "page" = some ds ∧ Edge.targets (g.edgesOf "page") = ["logo", "part"] ∧
      Snapshot.Sample.context.resolve Snapshot.Site.catalog ⟨Snapshot.Site.page, Site.source, ds⟩
        (g.edgesOf "page") Site.needed = .ok r ∧
      r.content = Bytes.ofText "<P|logo.1|icon|Home>" := by
  have hpage : "page" ∈ Snapshot.Site.catalog.paths :=
    Catalog.mem_paths.2 ⟨_, Snapshot.Site.get?_page⟩
  have hdrawn : Site.drawn?.map (fun y => (Edge.targets (y.1.edgesOf "page"),
      (y.2.get? "page").map fun ds => (Snapshot.Sample.context.undefined? ds,
        (Snapshot.Sample.context.resolve Snapshot.Site.catalog ⟨Snapshot.Site.page, Site.source, ds⟩
          (y.1.edgesOf "page") Site.needed).toOption.map (·.content))))
      = some (["logo", "part"], some (none, some (Bytes.ofText "<P|logo.1|icon|Home>"))) := by
    decide +kernel
  obtain ⟨⟨g, directives⟩, hbuilt, heq⟩ := Option.map_eq_some_iff.1 hdrawn
  obtain ⟨htargets, hstored⟩ := Prod.mk.inj heq
  obtain ⟨ds, hds, heq⟩ := Option.map_eq_some_iff.1 hstored
  obtain ⟨hdefined, hcontent⟩ := Prod.mk.inj heq
  have hbuild : Graph.build (Snapshot.Sample.context.registered Snapshot.Site.catalog)
      (PathMap.ofList [("page", ⟨Site.source, true⟩)]) = .ok (g, directives) := by
    unfold Site.drawn? at hbuilt
    cases hb : Graph.build (Snapshot.Sample.context.registered Snapshot.Site.catalog)
        (PathMap.ofList [("page", ⟨Site.source, true⟩)]) with
    | error fs => simp [hb, Except.toOption] at hbuilt
    | ok drawn => simpa [hb, Except.toOption] using hbuilt
  obtain ⟨ds', hds', hsuffices⟩ := (edges_suffice Snapshot.Sample.longDigests).2 _ g directives hbuild
    Snapshot.Site.page Site.source rfl hpage
  have hds' : directives.get? "page" = some ds' := hds'
  obtain rfl : ds = ds' := Option.some.inj (hds.symm.trans hds')
  have hneeded : ∀ t ∈ Edge.targets (g.edgesOf "page"), t ∈ Site.needed := by
    rw [htargets]
    decide +kernel
  obtain ⟨r, hr⟩ := hsuffices.result Site.needed hneeded hdefined
  have hr : Snapshot.Sample.context.resolve Snapshot.Site.catalog ⟨Snapshot.Site.page, Site.source, ds⟩
      (g.edgesOf "page") Site.needed = .ok r := hr
  rw [hr] at hcontent
  exact ⟨Snapshot.Sample.longDigests, hpage, g, directives, ds, r, hbuilt, hds, htargets, hr,
    Option.some.inj hcontent⟩

end Context

end HashedAssets
