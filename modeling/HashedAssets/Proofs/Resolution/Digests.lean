import HashedAssets.Proofs.Resolution.Supply
import HashedAssets.Resolver.Flight

/-!
# Digests that tell results apart

A kept result is used again if its dependencies have the digests that it was made with. This is right if
all digests are of one length and no two of the byte strings that were hashed have the same one.

* `Resolved.preimage`: the bytes that were hashed for a result;
* `Context.Formed`: how the fields of a result belong together; `Formed.content_eq`,
  `Formed.publicPath_eq`: what follows from equal digests;
* `Context.Made`: a result was made of others; `Made.solves`: if these have the same digests as the
  solutions, it is the solution.
-/

namespace HashedAssets

/-! ### Maps of ascending lists -/

namespace PathMap

variable {α : Type} {p : String} {a : α} {l : List (String × α)}

theorem put_eq_append (h : ∀ x ∈ l, x.1 < p) : put p a l = l ++ [(p, a)] := by
  induction l with
  | nil => rfl
  | cons x rest ih =>
      have hx := h x List.mem_cons_self
      rw [put, if_neg (String.lt_asymm hx), if_neg fun he => String.lt_irrefl _ (he ▸ hx),
        ih fun y hy => h y (List.mem_cons_of_mem _ hy)]
      rfl

theorem bindings_foldl_insert (m : PathMap α) (h : (m.bindings ++ l).Pairwise (·.1 < ·.1)) :
    (l.foldl (fun m x => m.insert x.1 x.2) m).bindings = m.bindings ++ l := by
  induction l generalizing m with
  | nil => simp
  | cons x rest ih =>
      have hput : (m.insert x.1 x.2).bindings = m.bindings ++ [x] :=
        put_eq_append fun y hy => (List.pairwise_append.1 h).2.2 y hy x List.mem_cons_self
      have happ : (m.insert x.1 x.2).bindings ++ rest = m.bindings ++ x :: rest := by
        rw [hput, List.append_assoc]
        rfl
      rw [List.foldl_cons, ih (m.insert x.1 x.2) (by rw [happ]; exact h), happ]

/-- The map of an ascending list is this list. -/
theorem bindings_ofList (h : l.Pairwise (·.1 < ·.1)) : (ofList l).bindings = l :=
  bindings_foldl_insert empty h

end PathMap

/-! ### Results -/

/-- The bytes that were hashed for a result. -/
def Resolved.preimage (r : Resolved) : Bytes :=
  HashedAssets.preimage r.content r.dependencyDigests.bindings

namespace Context

/-- How the fields of a result belong together, where all digests are of one length: the digest is that
of the content and the digests of the targets, and the public path is that of the digest. -/
structure Formed (x : Context) (c : Catalog) (len : Nat) (r : Resolved) : Prop where
  digest : r.digest = x.hash r.preimage
  keys : r.dependencyDigests.keys = ascending (Edge.targets r.edges)
  lengths : ∀ y ∈ r.dependencyDigests.bindings, y.2.length = len
  place : ∃ d, c.entries.get? r.path = some d ∧ x.isHashed c r.path = .ok r.hashed ∧
    x.publicFor d r.hashed r.digest = .ok r.publicPath

variable {x : Context} {c : Catalog} {len : Nat} {p : String} {a : Prepared} {es : List Edge}
  {m : PathMap Resolved} {r r' : Resolved}

theorem bindings_dependencyDigests (h : x.resolve c a es m = .ok r) :
    r.dependencyDigests.bindings
      = (ascending (Edge.targets es)).map fun t => (t, digestIn m t) := by
  obtain ⟨-, -, -, -, -, -, -, -, hdeps⟩ := resolve_eq_ok_iff.1 h
  rw [hdeps, PathMap.bindings_ofList]
  rw [List.pairwise_map]
  exact pairwise_ascending _

/-- A result that is made of results is formed. -/
theorem Formed.of_resolve (hlen : ∀ b, (x.hash b).length = len)
    (hd : c.entries.get? a.definition.path = some a.definition)
    (hm : ∀ t ∈ Edge.targets es, ∀ v, m.get? t = some v → ∃ b, v.digest = x.hash b)
    (h : x.resolve c a es m = .ok r) : x.Formed c len r := by
  have hdeps := bindings_dependencyDigests h
  obtain ⟨hpres, -, hdigest, hhashed, hpublic, hpath, hedges, -, -⟩ := resolve_eq_ok_iff.1 h
  refine ⟨?_, ?_, fun y hy => ?_, a.definition, hpath ▸ hd, hpath ▸ hhashed, hpublic⟩
  · rw [hdigest, Resolved.preimage, hdeps]
    rfl
  · rw [PathMap.keys, hdeps, hedges, List.map_map]
    exact List.map_id _
  · rw [hdeps] at hy
    obtain ⟨t, ht, rfl⟩ := List.mem_map.1 hy
    obtain ⟨v, hv⟩ := hpres t (mem_ascending.1 ht)
    obtain ⟨b, hb⟩ := hm t (mem_ascending.1 ht) v hv
    rw [digestIn, hv, Option.map_some, Option.getD_some, hb, hlen]

theorem Solves.exists_digest (h : x.Solves c p r) : ∃ b, r.digest = x.hash b := by
  obtain ⟨-, -, -, hr⟩ := h
  exact ⟨_, (resolve_eq_ok_iff.1 hr).2.2.1⟩

theorem Formed.length_digests (h : x.Formed c len r) :
    ((inPathOrder r.dependencyDigests.bindings).flatMap (·.2)).length
      = (ascending (Edge.targets r.edges)).length * len := by
  have hconst : (inPathOrder r.dependencyDigests.bindings).map (fun y => y.2.length)
      = (inPathOrder r.dependencyDigests.bindings).map fun _ => len :=
    List.map_congr_left fun y hy => h.lengths y ((List.mergeSort_perm _ _).mem_iff.1 hy)
  have hcount : (inPathOrder r.dependencyDigests.bindings).length
      = (ascending (Edge.targets r.edges)).length := by
    rw [inPathOrder, List.length_mergeSort, ← h.keys, PathMap.keys, List.length_map]
  rw [List.length_flatMap, hconst, List.map_const', List.sum_replicate_nat, hcount]

/-- Results with the same edges and the same hashed bytes have the same content. -/
theorem Formed.content_eq (h : x.Formed c len r) (h' : x.Formed c len r') (hes : r.edges = r'.edges)
    (hpre : r.preimage = r'.preimage) : r.content = r'.content :=
  (List.append_inj' hpre (by rw [h.length_digests, h'.length_digests, hes])).1

/-- Results for one path with the same digest have the same public path. -/
theorem Formed.publicPath_eq (h : x.Formed c len r) (h' : x.Formed c len r') (hp : r.path = r'.path)
    (hd : r.digest = r'.digest) : r.publicPath = r'.publicPath := by
  obtain ⟨d, hget, hhashed, hpublic⟩ := h.place
  obtain ⟨d', hget', hhashed', hpublic'⟩ := h'.place
  rw [hp, hget'] at hget
  cases hget
  rw [hp, hhashed'] at hhashed
  rw [hd, ← Except.ok.inj hhashed, hpublic'] at hpublic
  exact (Except.ok.inj hpublic).symm

theorem Formed.alike {c' : Catalog} (hc : c.Alike c') (h : x.Formed c len r) :
    x.Formed c' len r := by
  refine ⟨h.digest, h.keys, h.lengths, ?_⟩
  obtain ⟨d, hget, hhashed, hpublic⟩ := h.place
  have hd := hc r.path
  rw [hget] at hd
  obtain ⟨d', hd', he⟩ := Option.map_eq_some_iff.1 hd
  obtain ⟨hpath, hoptions⟩ := Prod.mk.inj he
  refine ⟨d', hd', isHashed_alike hc _ ▸ hhashed, ?_⟩
  rw [publicFor, hpath, hoptions]
  exact hpublic

/-! ### Results that were made of others -/

/-- A result was made of some of the results given, where what is included has the edges that its bytes
still stand for. -/
def Made (x : Context) (c : Catalog) (known : Resolved → Prop) (a : Prepared) (r : Resolved) : Prop :=
  ∃ m, x.resolve c a r.edges m = .ok r ∧ ∀ t ∈ Edge.targets r.edges, ∀ v, m.get? t = some v →
    known v ∧ v.path = t ∧
      ∀ e ∈ r.edges, e.target = t → e.kind = .include → ∃ b, x.Reads c t b v.edges

theorem Made.mono {known known' : Resolved → Prop} (h : x.Made c known a r)
    (hknown : ∀ v, known v → known' v) : x.Made c known' a r := by
  obtain ⟨m, hres, hm⟩ := h
  exact ⟨m, hres, fun t ht v hv => (hm t ht v hv).imp_left (hknown v)⟩

theorem isUpToDate_iff {m : PathMap Resolved} : Resolver.isUpToDate r m = true ↔
    ∀ y ∈ r.dependencyDigests.bindings, ∃ v, m.get? y.1 = some v ∧ v.digest = y.2 := by
  simp [Resolver.isUpToDate]

/-- A result whose targets have the digests that it was made with is the solution. -/
theorem Made.solves {known : Resolved → Prop} (h : x.Made c known a r) (hc : c.Keyed)
    (hreads : x.Reads c p a r.edges) (hformed : ∀ v, known v → x.Formed c len v)
    (hfree : ∀ v v', known v → known v' → x.hash v.preimage = x.hash v'.preimage →
      v.preimage = v'.preimage)
    (hall : ∀ t ∈ Edge.targets r.edges, ∃ v, m.get? t = some v)
    (hsol : ∀ t v, m.get? t = some v → x.Solves c t v ∧ known v)
    (hcur : Resolver.isUpToDate r m = true) : x.Solves c p r := by
  obtain ⟨m₀, hres, hm₀⟩ := h
  refine .intro hreads hall (fun t _ v hv => (hsol t v hv).1) ?_
  obtain ⟨d, raw, -, -, hprep⟩ := hreads
  rw [← hres]
  refine resolve_congr hprep fun e he => ?_
  have ht : e.target ∈ Edge.targets r.edges := Edge.mem_targets.2 ⟨e, he, rfl⟩
  obtain ⟨v, hv⟩ := hall e.target ht
  obtain ⟨v₀, hv₀⟩ := (resolve_eq_ok_iff.1 hres).1 e.target ht
  obtain ⟨hknown₀, hpath₀, hinclude⟩ := hm₀ e.target ht v₀ hv₀
  obtain ⟨hsolves, hknown⟩ := hsol e.target v hv
  have hdigest : v.digest = v₀.digest := by
    have hmem : (e.target, digestIn m₀ e.target) ∈ r.dependencyDigests.bindings := by
      rw [bindings_dependencyDigests hres]
      exact List.mem_map.2 ⟨e.target, mem_ascending.2 ht, rfl⟩
    obtain ⟨v', hv', hd⟩ := isUpToDate_iff.1 hcur _ hmem
    rw [hv] at hv'; cases hv'
    rw [hd, digestIn, hv₀]
    rfl
  refine ⟨v, v₀, hv, hv₀, hdigest, (hformed v hknown).publicPath_eq (hformed v₀ hknown₀)
    ((hsolves.path_eq hc).trans hpath₀.symm) hdigest, fun hkind => ?_⟩
  -- both contents have the edges of the bytes as they are now
  obtain ⟨b, hb⟩ := hinclude e he rfl hkind
  obtain ⟨hr, -, -, hvres⟩ := hsolves
  have hedges : v.edges = v₀.edges :=
    (resolve_eq_ok_iff.1 hvres).2.2.2.2.2.2.1.trans (hr.unique hb).2
  refine (hformed v hknown).content_eq (hformed v₀ hknown₀) hedges (hfree v v₀ hknown hknown₀ ?_)
  rw [← (hformed v hknown).digest, ← (hformed v₀ hknown₀).digest, hdigest]

end Context

end HashedAssets
