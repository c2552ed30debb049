import HashedAssets.Proofs.Directive.Spans
import HashedAssets.Proofs.Graph.Draft
import HashedAssets.Resolution.Basic
import Mathlib.Data.List.Find

/-!
# The equations of resolution

What the resolved form of an asset is, in terms of the resolved forms of what it depends on.

* `Definition.give`, `Catalog.Steady`: what sources give, and sources that never change;
* `Context.prepare_eq_ok_iff`, `Context.directive_cases`: prepared assets and their edges;
* `Context.resolve_congr`: the result depends on the targets of the edges only, and of these on
  digest, public path and (where the target is included) content;
* `Context.resolve_eq_ok_iff`: the fields of a resolved asset;
* `Context.undefined?`: the variable for want of which an asset fails;
* `Context.resolve_of_targets`, `Context.resolve_cases`: an asset all of whose targets are resolved lacks
  a variable, or has a result, or its digest is too short.
-/

namespace HashedAssets

/-! ### Results of partial functions -/

theorem bind_eq_ok {ε α β : Type} {a : Except ε α} {f : α → Except ε β} {b : β} :
    a >>= f = .ok b ↔ ∃ x, a = .ok x ∧ f x = .ok b := by
  cases a <;> simp [bind, Except.bind]

theorem bind_eq_error {ε α β : Type} {a : Except ε α} {f : α → Except ε β} {e : ε} :
    a >>= f = .error e ↔ a = .error e ∨ ∃ x, a = .ok x ∧ f x = .error e := by
  cases a <;> simp [bind, Except.bind]

theorem map_eq_ok {ε α β : Type} {a : Except ε α} {f : α → β} {b : β} :
    a.map f = .ok b ↔ ∃ x, a = .ok x ∧ f x = b := by
  cases a <;> simp [Except.map]

theorem map_eq_error {ε α β : Type} {a : Except ε α} {f : α → β} {e : ε} :
    a.map f = .error e ↔ a = .error e := by
  cases a <;> simp [Except.map]

theorem mapM_eq_ok {ε α β : Type} {f : α → Except ε β} {g : α → β} {l : List α}
    (h : ∀ a ∈ l, f a = .ok (g a)) : l.mapM f = .ok (l.map g) := by
  induction l with
  | nil => rfl
  | cons a rest ih =>
      rw [List.mapM_cons, h a List.mem_cons_self, ih fun b hb => h b (List.mem_cons_of_mem _ hb)]
      rfl

theorem exists_eq_ok_of_mapM {ε α β : Type} {f : α → Except ε β} {l : List α} {k : List β}
    (h : l.mapM f = .ok k) {a : α} (ha : a ∈ l) : ∃ b, f a = .ok b := by
  induction l generalizing k with
  | nil => cases ha
  | cons c rest ih =>
      rw [List.mapM_cons, bind_eq_ok] at h
      obtain ⟨b, hb, h⟩ := h
      obtain ⟨k', hk', -⟩ := bind_eq_ok.1 h
      rcases List.mem_cons.1 ha with rfl | ha
      · exact ⟨b, hb⟩
      · exact ih hk' ha

theorem exists_eq_error_of_mapM {ε α β : Type} {f : α → Except ε β} {l : List α} {e : ε}
    (h : l.mapM f = .error e) : ∃ a ∈ l, f a = .error e := by
  induction l with
  | nil => cases h
  | cons c rest ih =>
      rw [List.mapM_cons, bind_eq_error] at h
      rcases h with h | ⟨b, hb, h⟩
      · exact ⟨c, List.mem_cons_self, h⟩
      · rcases bind_eq_error.1 h with h | ⟨k, -, h⟩
        · obtain ⟨a, ha, hf⟩ := ih h
          exact ⟨a, List.mem_cons_of_mem _ ha, hf⟩
        · cases h

/-! ### Sources -/

/-- What the source of an asset gives at the call of a number. -/
def Definition.give (d : Definition) (k : Nat) : Except Fault Bytes :=
  match d.source with
  | .static b => .ok (d.wrap b)
  | .directory b => .ok (d.wrap b)
  | .dynamic l _ => match l.deliver k with
    | .ok b => .ok (d.wrap b)
    | .error f => .error (.unreadable d.path f.message)

namespace Catalog

variable {c : Catalog}

theorem result_fetch (c : Catalog) (d : Definition) :
    (c.fetch d).1.result = d.give ((c.calls.get? d.path).getD 0) := by
  unfold fetch Definition.give
  cases d.source with
  | static b => rfl
  | directory b => rfl
  | dynamic l held => cases l.deliver ((c.calls.get? d.path).getD 0) <;> rfl

@[simp] theorem entries_fetch (c : Catalog) (d : Definition) : (c.fetch d).2.entries = c.entries := by
  unfold fetch
  split
  · rfl
  · rfl
  · dsimp only
    split <;> rfl

theorem get_eq_ok_iff {p : String} {d : Definition} : c.get p = .ok d ↔ c.entries.get? p = some d := by
  unfold get
  split <;> simp_all

theorem get_eq_error {p : String} {f : Failure} (h : c.get p = .error f) :
    c.entries.get? p = none ∧ f = .fault (.notFound p) := by
  unfold get at h
  split at h <;> simp_all

theorem contains_iff {p : String} : c.contains p = true ↔ ∃ d, c.entries.get? p = some d := by
  simp [contains, PathMap.contains, Option.isSome_iff_exists]

/-- Each definition stands under its own path. -/
def Keyed (c : Catalog) : Prop := ∀ p d, c.entries.get? p = some d → d.path = p

/-- Each source gives the same at every call. -/
def Steady (c : Catalog) : Prop := ∀ p d, c.entries.get? p = some d → ∀ k, d.give k = d.give 0

theorem keyed_empty : Keyed ∅ := fun p d h => by cases h

theorem steady_empty : Steady ∅ := fun p d h => by cases h

theorem entries_add (c : Catalog) (d : Definition) :
    (c.add d).entries = c.entries.insert d.path d := by
  unfold Catalog.add
  split <;> rfl

theorem Keyed.add (h : c.Keyed) (d : Definition) : (c.add d).Keyed := by
  intro p e he
  rw [entries_add, PathMap.get?_insert] at he
  split at he
  · next hp => cases he; exact hp.symm
  · exact h p e he

theorem Steady.add (h : c.Steady) {d : Definition} (hd : ∀ k, d.give k = d.give 0) :
    (c.add d).Steady := by
  intro p e he
  rw [entries_add, PathMap.get?_insert] at he
  split at he
  · cases he; exact hd
  · exact h p e he

end Catalog

/-! ### Prepared assets -/

theorem Failure.ofFaults_eq_none_iff {fs : List Fault} : Failure.ofFaults fs = none ↔ fs = [] := by
  cases fs with
  | nil => simp [Failure.ofFaults]
  | cons f rest => cases rest <;> simp [Failure.ofFaults]

theorem Failure.isOfAsset_of_ofFaults {fs : List Fault} {f : Failure}
    (h : Failure.ofFaults fs = some f) : f.isOfAsset = true := by
  cases fs with
  | nil => cases h
  | cons g rest => cases rest <;> (simp only [Failure.ofFaults, Option.some.injEq] at h; subst h; rfl)

namespace Context

variable {x : Context} {c : Catalog} {d : Definition} {raw : Bytes} {a : Prepared} {es : List Edge}

theorem prepare_eq_ok_iff : x.prepare c d raw = .ok (a, es) ↔
    ∃ ds, RawAsset.directives ⟨raw, d.options.template⟩ d.path = .ok ds ∧
      (∀ dir ∈ ds, dir.fault? (x.registered c) d.path = none) ∧
      a = ⟨d, raw, ds⟩ ∧ es = (edgesFor (x.registered c) d.path ds).1 := by
  unfold prepare
  cases hd : RawAsset.directives ⟨raw, d.options.template⟩ d.path with
  | error f => simp
  | ok ds =>
      have hf : (edgesFor (x.registered c) d.path ds).2 = [] ↔
          ∀ dir ∈ ds, dir.fault? (x.registered c) d.path = none := by
        simp [edgesFor]
      cases hof : Failure.ofFaults (edgesFor (x.registered c) d.path ds).2 with
      | none =>
          have := hf.1 (Failure.ofFaults_eq_none_iff.1 hof)
          simp only [Except.ok.injEq, Prod.mk.injEq, exists_eq_left', hof]
          tauto
      | some f =>
          have : ¬∀ dir ∈ ds, dir.fault? (x.registered c) d.path = none := fun h => by
            rw [Failure.ofFaults_eq_none_iff.2 (hf.2 h)] at hof; cases hof
          simp only [hof, Except.ok.injEq, exists_eq_left', this, false_and]
          simp

theorem prepare_eq_error_isOfAsset {f : Failure} (h : x.prepare c d raw = .error f) :
    f.isOfAsset = true := by
  unfold prepare at h
  split at h
  · cases h; rfl
  · dsimp only at h
    split at h
    · next g hg => cases h; exact Failure.isOfAsset_of_ofFaults hg
    · cases h

theorem isHashed_eq_ok {p : String} (h : c.contains p = true) : ∃ b, x.isHashed c p = .ok b := by
  obtain ⟨d, hd⟩ := Catalog.contains_iff.1 h
  unfold isHashed Catalog.isHashed
  split
  · exact ⟨_, rfl⟩
  · rw [Catalog.get_eq_ok_iff.2 hd]; exact ⟨_, rfl⟩

/-! Catalogs with the same definitions are the same for all of this. -/

theorem prepare_congr {c' : Catalog} (h : c'.entries = c.entries) (d : Definition) (raw : Bytes) :
    x.prepare c' d raw = x.prepare c d raw := by
  cases c; cases c'; cases h; rfl

theorem resolve_catalog_congr {c' : Catalog} (h : c'.entries = c.entries) (a : Prepared)
    (es : List Edge) (m : PathMap Resolved) : x.resolve c' a es m = x.resolve c a es m := by
  cases c; cases c'; cases h; rfl

/-- What an included or referred asset is to a prepared one. -/
theorem directive_cases (h : x.prepare c d raw = .ok (a, es)) {dir : Directive}
    (hd : dir ∈ a.directives) :
    (dir.kind = .include ∧ ⟨d.path, dir.target, .include⟩ ∈ es) ∨
    (dir.kind = .path ∧ x.isHashed c dir.target = .ok true ∧
      ⟨d.path, dir.target, .reference⟩ ∈ es) ∨
    (dir.kind = .path ∧ x.isHashed c dir.target = .ok false) ∨
    dir.kind = .variable := by
  obtain ⟨ds, -, hf, rfl, rfl⟩ := prepare_eq_ok_iff.1 h
  have hfault := hf dir hd
  match hk : dir.kind with
  | .include =>
      have hr : c.contains dir.target = true := by
        by_contra hn
        simp [Directive.fault?, Directive.wants?, hk, registered, hn] at hfault
      refine .inl ⟨rfl, mem_edgesFor.2 ⟨dir, hd, ?_⟩⟩
      simp [Directive.edge?, Directive.wants?, hk, Registered.hasEdge, registered, hr]
  | .path =>
      have hr : c.contains dir.target = true := by
        by_contra hn
        simp [Directive.fault?, Directive.wants?, hk, registered, hn] at hfault
      obtain ⟨b, hb⟩ := isHashed_eq_ok (x := x) hr
      match b with
      | true =>
          refine .inr (.inl ⟨rfl, hb, mem_edgesFor.2 ⟨dir, hd, ?_⟩⟩)
          simp [Directive.edge?, Directive.wants?, hk, Registered.hasEdge, registered, hr, hb,
            Except.toOption]
      | false => exact .inr (.inr (.inl ⟨rfl, hb⟩))
  | .variable => exact .inr (.inr (.inr rfl))

theorem isHashed_eq_error {p : String} {f : Failure} (h : x.isHashed c p = .error f) :
    f = .fault (.notFound p) := by
  unfold isHashed Catalog.isHashed at h
  split at h
  · cases h
  · exact (Catalog.get_eq_error (map_eq_error.1 h)).2

/-! ### One equation -/

theorem need_eq_error {m : PathMap Resolved} {t : String} {f : Failure} (h : need m t = .error f) :
    f = .unresolved t := by
  unfold need at h
  split at h
  · cases h
  · cases h; rfl

theorem need_eq_ok_iff {m : PathMap Resolved} {t : String} {r : Resolved} :
    need m t = .ok r ↔ m.get? t = some r := by
  unfold need
  split <;> simp_all

/-- Two collections of resolved assets give the target of an edge the same digest and public path,
and the same content if that is included. -/
def Agree (m m' : PathMap Resolved) (e : Edge) : Prop :=
  ∃ r r', m.get? e.target = some r ∧ m'.get? e.target = some r' ∧ r.digest = r'.digest ∧
    r.publicPath = r'.publicPath ∧ (e.kind = .include → r.content = r'.content)

theorem valueOf_congr (h : x.prepare c d raw = .ok (a, es)) {m m' : PathMap Resolved}
    (hm : ∀ e ∈ es, Agree m m' e) {p : String} {dir : Directive} (hd : dir ∈ a.directives) :
    x.valueOf c m p dir = x.valueOf c m' p dir := by
  rcases directive_cases h hd with ⟨hk, he⟩ | ⟨hk, hb, he⟩ | ⟨hk, hb⟩ | hk
  · obtain ⟨r, r', hr, hr', -, -, hc⟩ := hm _ he
    simp [valueOf, hk, need_eq_ok_iff.2 hr, need_eq_ok_iff.2 hr', hc rfl, Except.map]
  · obtain ⟨r, r', hr, hr', -, hp, -⟩ := hm _ he
    simp [valueOf, hk, hb, need_eq_ok_iff.2 hr, need_eq_ok_iff.2 hr', hp, Except.map, bind,
      Except.bind]
  · simp [valueOf, hk, hb, bind, Except.bind]
  · simp [valueOf, hk]

/-- The digest of a resolved asset among those given. -/
def digestIn (m : PathMap Resolved) (t : String) : Bytes := ((m.get? t).map (·.digest)).getD []

/-- The digests of the targets of edges are there just if all targets are resolved. -/
theorem digestsOf_eq_ok_iff {m : PathMap Resolved} {l : List (String × Bytes)} :
    digestsOf m es = .ok l ↔ (∀ t ∈ Edge.targets es, ∃ r, m.get? t = some r) ∧
      l = (ascending (Edge.targets es)).map fun t => (t, digestIn m t) := by
  have hall : (∀ t ∈ Edge.targets es, ∃ r, m.get? t = some r) → digestsOf m es
      = .ok ((ascending (Edge.targets es)).map fun t => (t, digestIn m t)) := fun h => by
    refine mapM_eq_ok fun t ht => ?_
    obtain ⟨r, hr⟩ := h t (mem_ascending.1 ht)
    rw [need_eq_ok_iff.2 hr, digestIn, hr]
    rfl
  constructor
  · intro h
    have ht : ∀ t ∈ Edge.targets es, ∃ r, m.get? t = some r := fun t ht => by
      obtain ⟨y, hy⟩ := exists_eq_ok_of_mapM h (mem_ascending.2 ht)
      obtain ⟨r, hr, -⟩ := map_eq_ok.1 hy
      exact ⟨r, need_eq_ok_iff.1 hr⟩
    rw [hall ht] at h
    exact ⟨ht, (Except.ok.inj h).symm⟩
  · rintro ⟨ht, rfl⟩
    exact hall ht

theorem Agree.digestIn {m m' : PathMap Resolved} {e : Edge} (h : Agree m m' e) :
    digestIn m e.target = digestIn m' e.target := by
  obtain ⟨r, r', hr, hr', hd, -⟩ := h
  simp [Context.digestIn, hr, hr', hd]

theorem digestsOf_congr {m m' : PathMap Resolved} (hm : ∀ e ∈ es, Agree m m' e) :
    digestsOf m es = digestsOf m' es := by
  have hl : digestsOf m es = .ok _ := digestsOf_eq_ok_iff.2 ⟨fun t ht => by
    obtain ⟨e, he, rfl⟩ := Edge.mem_targets.1 ht
    obtain ⟨r, -, hr, -⟩ := hm e he
    exact ⟨r, hr⟩, rfl⟩
  rw [hl, eq_comm, digestsOf_eq_ok_iff]
  refine ⟨fun t ht => ?_, List.map_congr_left fun t ht => ?_⟩
  · obtain ⟨e, he, rfl⟩ := Edge.mem_targets.1 ht
    obtain ⟨-, r', -, hr', -⟩ := hm e he
    exact ⟨r', hr'⟩
  · obtain ⟨e, he, rfl⟩ := Edge.mem_targets.1 (mem_ascending.1 ht)
    rw [(hm e he).digestIn]

/-- The result depends on the targets of the edges only. -/
theorem resolve_congr (h : x.prepare c d raw = .ok (a, es)) {m m' : PathMap Resolved}
    (hm : ∀ e ∈ es, Agree m m' e) : x.resolve c a es m = x.resolve c a es m' := by
  have hr : Directive.render a.raw a.directives (x.valueOf c m a.definition.path)
      = Directive.render a.raw a.directives (x.valueOf c m' a.definition.path) :=
    Directive.render_congr fun dir hd => valueOf_congr h hm hd
  simp only [resolve, hr, digestsOf_congr hm]

/-- The public path of a resolved asset of a digest. -/
def publicFor (x : Context) (d : Definition) (hashed : Bool) (digest : Bytes) :
    Except Failure String :=
  if hashed then publicPath d.path digest x.settings.hashLength d.options.hashBetween
  else .ok d.path

theorem resolve_eq (m : PathMap Resolved) : x.resolve c a es m =
    Directive.render a.raw a.directives (x.valueOf c m a.definition.path) >>= fun content =>
    digestsOf m es >>= fun digests =>
    x.isHashed c a.definition.path >>= fun hashed =>
    x.publicFor a.definition hashed (digest x.hash content digests) >>= fun publicPath =>
    .ok { path := a.definition.path, publicPath, digest := digest x.hash content digests, content
          compressed := none, hashed, edges := es, dependencyDigests := PathMap.ofList digests } := by
  unfold resolve publicFor
  refine congrArg _ (funext fun content => congrArg _ (funext fun digests => congrArg _
    (funext fun hashed => ?_)))
  cases hashed <;> rfl

/-- The fields of a resolved asset, one behind the other. -/
theorem resolve_eq_ok_iff {m : PathMap Resolved} {r : Resolved} : x.resolve c a es m = .ok r ↔
    (∀ t ∈ Edge.targets es, ∃ r', m.get? t = some r') ∧
    Directive.render a.raw a.directives (x.valueOf c m a.definition.path) = .ok r.content ∧
    r.digest = digest x.hash r.content
      ((ascending (Edge.targets es)).map fun t => (t, digestIn m t)) ∧
    x.isHashed c a.definition.path = .ok r.hashed ∧
    x.publicFor a.definition r.hashed r.digest = .ok r.publicPath ∧
    r.path = a.definition.path ∧ r.edges = es ∧ r.compressed = none ∧
    r.dependencyDigests
      = PathMap.ofList ((ascending (Edge.targets es)).map fun t => (t, digestIn m t)) := by
  obtain ⟨rp, rpub, rd, rc, rz, rh, re, rdd⟩ := r
  simp only [resolve_eq, bind_eq_ok, digestsOf_eq_ok_iff, Except.ok.injEq, Resolved.mk.injEq]
  constructor
  · rintro ⟨content, hcontent, l, ⟨hl, rfl⟩, b, hb, p, hp, rfl, rfl, rfl, rfl, rfl, rfl, rfl, rfl⟩
    exact ⟨hl, hcontent, rfl, hb, hp, rfl, rfl, rfl, rfl⟩
  · rintro ⟨hl, hcontent, rfl, hb, hp, rfl, rfl, rfl, rfl⟩
    exact ⟨_, hcontent, _, ⟨hl, rfl⟩, _, hb, _, hp, rfl, rfl, rfl, rfl, rfl, rfl, rfl, rfl⟩

/-- Whether all digests are long enough for a path. -/
def LongDigests (x : Context) : Prop := ∀ b, x.settings.hashLength ≤ (x.hash b).length

theorem exists_publicFor_eq_ok (hx : x.LongDigests) (d : Definition) (hashed : Bool) (b : Bytes) :
    ∃ p, x.publicFor d hashed (x.hash b) = .ok p := by
  unfold publicFor
  split
  · have hlen : ¬((x.settings.hashLength : Int) < 1 ∨
        ((x.hash b).length : Int) < x.settings.hashLength) := by
      have := hx b
      have := x.settings.hashLength_pos
      omega
    rw [publicPath, hashText, if_neg hlen]
    exact ⟨_, rfl⟩
  · exact ⟨_, rfl⟩

theorem publicFor_eq_error {d : Definition} {hashed : Bool} {b : Bytes} {f : Failure}
    (h : x.publicFor d hashed b = .error f) : f.isOfAsset = false := by
  unfold publicFor at h
  split at h
  · unfold publicPath hashText at h
    rw [map_eq_error] at h
    split at h
    · cases h; rfl
    · cases h
  · cases h

/-! ### Assets whose targets are resolved -/

/-- Whether a directive asks for a variable without a value. -/
def isUndefined (x : Context) (d : Directive) : Bool :=
  d.kind == .variable && !x.settings.values.contains d.target

/-- The first variable without a value that the directives ask for. -/
def undefined? (x : Context) (ds : List Directive) : Option String :=
  (ds.find? x.isUndefined).map (·.target)

theorem isUndefined_iff {dir : Directive} : x.isUndefined dir = true ↔
    dir.kind = .variable ∧ x.settings.values.get? dir.target = none := by
  simp [isUndefined, PathMap.contains]

/-- Where all targets are resolved, a directive has a value unless it asks for a variable without one. -/
theorem isOk_valueOf (h : x.prepare c d raw = .ok (a, es)) {m : PathMap Resolved}
    (hm : ∀ t ∈ Edge.targets es, ∃ r, m.get? t = some r) {dir : Directive}
    (hdir : dir ∈ a.directives) (p : String) :
    (!(x.valueOf c m p dir).isOk) = x.isUndefined dir := by
  have hm' : ∀ e ∈ es, ∃ r, m.get? e.target = some r := fun e he =>
    hm _ (Edge.mem_targets.2 ⟨e, he, rfl⟩)
  rcases directive_cases h hdir with ⟨hk, he⟩ | ⟨hk, hb, he⟩ | ⟨hk, hb⟩ | hk
  · obtain ⟨r, hr⟩ := hm' _ he
    simp [valueOf, isUndefined, hk, need_eq_ok_iff.2 hr, Except.map]
  · obtain ⟨r, hr⟩ := hm' _ he
    simp [valueOf, isUndefined, hk, hb, need_eq_ok_iff.2 hr, Except.map, bind, Except.bind]
  · simp [valueOf, isUndefined, hk, hb, bind, Except.bind, pure, Except.pure]
  · cases hv : x.settings.values.get? dir.target <;>
      simp [valueOf, isUndefined, hk, hv, PathMap.contains]

/-- An asset all of whose targets are resolved lacks a variable of its own, or has a result, or its digest
is too short. -/
theorem resolve_of_targets (h : x.prepare c d raw = .ok (a, es)) (hd : c.contains d.path = true)
    {m : PathMap Resolved} (hm : ∀ t ∈ Edge.targets es, ∃ r, m.get? t = some r) :
    (∃ name, x.undefined? a.directives = some name ∧
      x.resolve c a es m = .error (.fault (.undefinedVariable d.path name))) ∨
    (x.undefined? a.directives = none ∧ ∃ r, x.resolve c a es m = .ok r) ∨
    ¬ x.LongDigests ∧ ∃ f, x.resolve c a es m = .error f ∧ f.isOfAsset = false := by
  obtain ⟨ds, hds, -, ha, -⟩ := prepare_eq_ok_iff.1 h
  have hapart : Directive.Apart 0 a.directives := by rw [ha]; exact RawAsset.apart_directives hds
  have hpath : a.definition = d := by rw [ha]
  cases hr : Directive.render a.raw a.directives (x.valueOf c m a.definition.path) with
  | error f =>
      obtain ⟨dir, hfind, hv⟩ := Directive.exists_find?_of_render hapart hr
      have hdir := List.mem_of_find?_eq_some hfind
      -- the first directive without a value is the first that asks for a variable without one
      have hundef : a.directives.find? x.isUndefined = some dir := by
        rw [← hfind]
        exact (List.find?_congr fun e he => isOk_valueOf h hm he _).symm
      obtain ⟨hk, hvalue⟩ := isUndefined_iff.1 (List.find?_some hundef)
      simp only [valueOf, hk, hvalue, Except.error.injEq] at hv
      refine .inl ⟨dir.target, by rw [undefined?, hundef]; rfl, ?_⟩
      rw [resolve_eq, hr, ← hv, hpath]
      rfl
  | ok content =>
      have hnone : x.undefined? a.directives = none := by
        rw [undefined?, Option.map_eq_none_iff, List.find?_eq_none]
        intro dir hdir
        obtain ⟨v, hv⟩ := Directive.exists_value_eq_ok hr hdir
        rw [← isOk_valueOf h hm hdir a.definition.path, hv]
        simp
      obtain ⟨b, hb⟩ := isHashed_eq_ok (x := x) hd
      let deps := (ascending (Edge.targets es)).map fun t => (t, digestIn m t)
      have hrun : x.resolve c a es m
          = x.publicFor a.definition b (digest x.hash content deps) >>= fun publicPath =>
            .ok ⟨a.definition.path, publicPath, digest x.hash content deps, content, none, b, es,
              PathMap.ofList deps⟩ := by
        rw [resolve_eq, hr, digestsOf_eq_ok_iff.2 ⟨hm, rfl⟩, hpath, hb]
        rfl
      rw [hrun]
      cases hp : x.publicFor a.definition b (digest x.hash content deps) with
      | ok publicPath => exact .inr (.inl ⟨hnone, _, rfl⟩)
      | error f =>
          refine .inr (.inr ⟨fun hx => ?_, f, rfl, publicFor_eq_error hp⟩)
          obtain ⟨publicPath, hok⟩ :=
            exists_publicFor_eq_ok hx a.definition b (preimage content deps)
          rw [digest, hok] at hp
          cases hp

/-- An asset all of whose targets are resolved has a result, unless a variable has no value. -/
theorem resolve_cases (hx : x.LongDigests) (h : x.prepare c d raw = .ok (a, es))
    (hd : c.contains d.path = true) {m : PathMap Resolved}
    (hm : ∀ t ∈ Edge.targets es, ∃ r, m.get? t = some r) :
    (∃ r, x.resolve c a es m = .ok r) ∨
    ∃ dir ∈ a.directives, dir.kind = .variable ∧ x.settings.values.get? dir.target = none ∧
      x.resolve c a es m = .error (.fault (.undefinedVariable d.path dir.target)) := by
  rcases resolve_of_targets h hd hm with ⟨name, hname, hres⟩ | ⟨-, hok⟩ | ⟨hshort, -⟩
  · obtain ⟨dir, hfind, rfl⟩ := Option.map_eq_some_iff.1 hname
    obtain ⟨hk, hnone⟩ := isUndefined_iff.1 (List.find?_some hfind)
    exact .inr ⟨dir, List.mem_of_find?_eq_some hfind, hk, hnone, hres⟩
  · exact .inl hok
  · exact absurd hx hshort

/-- Of the failures to resolve an asset, only faults lie in the assets. -/
theorem exists_eq_fault_of_resolve (h : x.prepare c d raw = .ok (a, es)) {m : PathMap Resolved}
    {f : Failure} (hr : x.resolve c a es m = .error f) (hf : f.isOfAsset = true) :
    ∃ g, f = .fault g := by
  obtain ⟨ds, hds, -, rfl, -⟩ := prepare_eq_ok_iff.1 h
  rw [resolve_eq] at hr
  simp only [bind_eq_error] at hr
  rcases hr with hr | ⟨content, -, hr | ⟨l, -, hr | ⟨b, -, hr | ⟨p, -, hr⟩⟩⟩⟩
  · obtain ⟨dir, hdir, hv⟩ := Directive.exists_value_eq_error (RawAsset.apart_directives hds) hr
    rcases directive_cases h hdir with ⟨hk, -⟩ | ⟨hk, hb, -⟩ | ⟨hk, hb⟩ | hk
    · simp only [valueOf, hk, map_eq_error] at hv
      rw [need_eq_error hv] at hf; cases hf
    · simp only [valueOf, hk, hb, bind, Except.bind, if_true, map_eq_error] at hv
      rw [need_eq_error hv] at hf; cases hf
    · simp [valueOf, hk, hb, bind, Except.bind, pure, Except.pure] at hv
    · cases hx : x.settings.values.get? dir.target with
      | none =>
          simp only [valueOf, hk, hx, Except.error.injEq] at hv
          exact ⟨_, hv.symm⟩
      | some v => simp [valueOf, hk, hx] at hv
  · obtain ⟨t, -, ht⟩ := exists_eq_error_of_mapM hr
    rw [need_eq_error (map_eq_error.1 ht)] at hf; cases hf
  · exact ⟨_, isHashed_eq_error hr⟩
  · rw [publicFor_eq_error hr] at hf; cases hf
  · cases hr

end Context

end HashedAssets
