import HashedAssets.Proofs.Resolution.Specification

/-!
# A change anywhere below an asset changes its digest

The digest of an asset is that of its content and of the digests of what it needs. If all digests are of one
length these can be told apart again, so that equal digests mean equal contents all the way down.

* `Snapshot.Hashes`: the byte strings that were hashed for a snapshot;
* `Snapshot.Solved.preimage_eq`: what they consist of;
* `Snapshot.SameTargets`: two snapshots in which an asset needs the same assets, in the same way;
* `Snapshot.digest_eq_iff_of_builds`: the digest of such an asset is the same in both just if the contents
  of all that it needs are.
-/

namespace HashedAssets

open Relation

/-- Byte strings put together from parts of the same lengths have the same parts if they are equal. -/
theorem eq_of_flatMap_eq {α : Type} {f f' : α → Bytes} {l : List α}
    (hlen : ∀ t ∈ l, (f t).length = (f' t).length) (h : l.flatMap f = l.flatMap f') :
    ∀ t ∈ l, f t = f' t := by
  induction l with
  | nil => intro t ht; cases ht
  | cons a rest ih =>
      rw [List.flatMap_cons, List.flatMap_cons] at h
      obtain ⟨ha, hrest⟩ := List.append_inj h (hlen a List.mem_cons_self)
      intro t ht
      rcases List.mem_cons.1 ht with rfl | ht
      · exact ha
      · exact ih (fun u hu => hlen u (List.mem_cons_of_mem _ hu)) hrest t ht

theorem ascending_congr {ps ps' : List String} (h : ∀ p, p ∈ ps' ↔ p ∈ ps) :
    ascending ps' = ascending ps :=
  List.Pairwise.eq_of_mem_iff (pairwise_ascending ps') (pairwise_ascending ps) fun p => by
    rw [mem_ascending, mem_ascending, h p]

namespace Snapshot

variable {x x' : Context} {c c' : Catalog} {s s' : Snapshot} {p q t : String} {r r' : Resolved}
  {len : Nat}

/-! ### What is hashed -/

/-- The byte strings that are hashed for the assets of a snapshot. -/
def Hashes (s : Snapshot) (b : Bytes) : Prop := ∃ p r, s.assets.get? p = some r ∧ b = r.preimage

/-- The digest of an asset is that of its content and the digests of its targets, in path order. -/
theorem Solved.preimage_eq (h : s.Solved x c) (hr : s.assets.get? p = some r) :
    r.digest = x.hash r.preimage ∧ r.preimage
      = r.content ++ (ascending (s.graph.targetsOf p)).flatMap (Context.digestIn s.assets) := by
  obtain ⟨a, v, -, hres, hv⟩ := h.solved p (h.mem_paths hr)
  obtain ⟨z, hz⟩ := exists_finish x c v
  rw [hr, hz] at hv
  cases hv
  have hdeps := Context.bindings_dependencyDigests hres
  have hpre : Resolved.preimage { v with compressed := z } = preimage v.content
      ((ascending (s.graph.targetsOf p)).map fun t => (t, Context.digestIn s.assets t)) :=
    congrArg (preimage v.content) hdeps
  rw [hpre]
  exact ⟨(Context.resolve_eq_ok_iff.1 hres).2.2.1, preimage_map_ascending ..⟩

/-- What an asset of a snapshot needs is in the snapshot. -/
theorem Solved.exists_of_adjacent (h : s.Solved x c) (hr : s.assets.get? p = some r)
    (hpt : s.graph.Adjacent p t) : ∃ v, s.assets.get? t = some v := by
  have hmem : ∀ q, q ∈ s.order.reverse ↔ q ∈ c.paths := fun q => by
    rw [List.mem_reverse, h.order.mem_iff]
  have hp := (hmem p).2 (h.mem_paths hr)
  exact h.exists_asset ((hmem t).1 (h.founded.mem_of_adjacent hp hpt))

theorem Solved.length_digestIn (h : s.Solved x c) (hlen : ∀ b, (x.hash b).length = len)
    (hr : s.assets.get? p = some r) : (Context.digestIn s.assets p).length = len := by
  rw [Context.digestIn, hr, Option.map_some, Option.getD_some, (h.preimage_eq hr).1, hlen]

/-! ### Two snapshots -/

/-- All that an asset needs needs the same assets in both snapshots. -/
def SameTargets (s s' : Snapshot) (p : String) : Prop :=
  ∀ q ∈ s.graph.closure p, ∀ t, t ∈ s'.graph.targetsOf q ↔ t ∈ s.graph.targetsOf q

theorem SameTargets.target (h : s.SameTargets s' p) (hpt : s.graph.Adjacent p t) :
    s.SameTargets s' t :=
  fun q hq => h q (Graph.mem_closure.2 (.head hpt (Graph.mem_closure.1 hq)))

theorem SameTargets.adjacent_iff (h : s.SameTargets s' p) :
    s'.graph.Adjacent p t ↔ s.graph.Adjacent p t := h p (Graph.mem_closure.2 .refl) t

/-- The asset needs the same assets at any depth. -/
theorem SameTargets.closure_eq (h : s.SameTargets s' p) : s'.graph.closure p = s.graph.closure p := by
  have hmem : ∀ q, q ∈ s'.graph.closure p ↔ q ∈ s.graph.closure p := fun q => by
    rw [Graph.mem_closure, Graph.mem_closure]
    constructor
    · intro hpq
      induction hpq with
      | refl => exact .refl
      | tail _ hbc ih => exact ih.tail ((h _ (Graph.mem_closure.2 ih) _).1 hbc)
    · intro hpq
      induction hpq with
      | refl => exact .refl
      | tail hpb hbc ih => exact ih.tail ((h _ (Graph.mem_closure.2 hpb) _).2 hbc)
  exact List.Pairwise.eq_of_mem_iff (pairwise_ascending _) (pairwise_ascending _) hmem

/-- An asset has the same content in both snapshots. -/
def SameContent (s s' : Snapshot) (p : String) : Prop :=
  ∃ r r', s.assets.get? p = some r ∧ s'.assets.get? p = some r' ∧ r.content = r'.content

theorem mem_closure_iff {g : Graph} :
    q ∈ g.closure p ↔ q = p ∨ ∃ t, g.Adjacent p t ∧ q ∈ g.closure t := by
  simp only [Graph.mem_closure]
  constructor
  · intro h
    rcases ReflTransGen.cases_head h with rfl | ⟨t, hpt, htq⟩
    · exact .inl rfl
    · exact .inr ⟨t, hpt, htq⟩
  · rintro (rfl | ⟨t, hpt, htq⟩)
    · exact .refl
    · exact .head hpt htq

section Two

variable (hs : s.Solved x c) (hs' : s'.Solved x' c') (hhash : x'.hash = x.hash)
  (hlen : ∀ b, (x.hash b).length = len)
include hs hs' hhash hlen

/-- Two results with the same targets are made of the same content and of targets with the same digests, if
the same bytes were hashed for them. -/
theorem preimage_eq_iff (hr : s.assets.get? p = some r) (hr' : s'.assets.get? p = some r')
    (htargets : ∀ t, s'.graph.Adjacent p t ↔ s.graph.Adjacent p t) :
    r.preimage = r'.preimage ↔ r.content = r'.content ∧
      ∀ t, s.graph.Adjacent p t → Context.digestIn s.assets t = Context.digestIn s'.assets t := by
  have hpre := (hs.preimage_eq hr).2
  have hpre' := (hs'.preimage_eq hr').2
  rw [ascending_congr htargets] at hpre'
  have hlengths : ∀ t ∈ ascending (s.graph.targetsOf p),
      (Context.digestIn s.assets t).length = (Context.digestIn s'.assets t).length := fun t ht => by
    have hpt : s.graph.Adjacent p t := mem_ascending.1 ht
    obtain ⟨v, hv⟩ := hs.exists_of_adjacent hr hpt
    obtain ⟨v', hv'⟩ := hs'.exists_of_adjacent hr' ((htargets t).2 hpt)
    rw [hs.length_digestIn hlen hv, hs'.length_digestIn (by rwa [hhash]) hv']
  rw [hpre, hpre']
  constructor
  · intro heq
    have htail : ((ascending (s.graph.targetsOf p)).flatMap (Context.digestIn s.assets)).length
        = ((ascending (s.graph.targetsOf p)).flatMap (Context.digestIn s'.assets)).length := by
      rw [List.length_flatMap, List.length_flatMap, List.map_congr_left hlengths]
    obtain ⟨hcontent, hdigests⟩ := List.append_inj' heq htail
    exact ⟨hcontent, fun t ht => eq_of_flatMap_eq hlengths hdigests t (mem_ascending.2 ht)⟩
  · rintro ⟨hcontent, hdigests⟩
    rw [hcontent]
    congr 1
    exact List.flatMap_congr fun t ht => hdigests t (mem_ascending.1 ht)

/-- The digest of an asset is the same in both snapshots just if its content is, and the digests of its
targets are. -/
theorem digest_eq_iff_of_targets
    (hfree : ∀ b b', s.Hashes b → s'.Hashes b' → x.hash b = x.hash b' → b = b')
    (hr : s.assets.get? p = some r) (hr' : s'.assets.get? p = some r')
    (htargets : ∀ t, s'.graph.Adjacent p t ↔ s.graph.Adjacent p t) :
    r.digest = r'.digest ↔ r.content = r'.content ∧
      ∀ t, s.graph.Adjacent p t → Context.digestIn s.assets t = Context.digestIn s'.assets t := by
  rw [← preimage_eq_iff hs hs' hhash hlen hr hr' htargets, (hs.preimage_eq hr).1,
    (hs'.preimage_eq hr').1, hhash]
  exact ⟨hfree _ _ ⟨p, r, hr, rfl⟩ ⟨p, r', hr', rfl⟩, congrArg x.hash⟩

end Two

/-! ### A sample -/

theorem hashes_iff {b : Bytes} : s.Hashes b ↔ b ∈ s.assets.values.map Resolved.preimage := by
  simp only [Hashes, PathMap.get?_eq_some_iff, PathMap.values, List.mem_map]
  constructor
  · rintro ⟨p, r, hr, rfl⟩
    exact ⟨r, ⟨(p, r), hr, rfl⟩, rfl⟩
  · rintro ⟨-, ⟨⟨p, r⟩, hr, rfl⟩, rfl⟩
    exact ⟨p, r, hr, rfl⟩

namespace Revision

/-- The asset `outer` includes `inner`, which refers to `leaf`, an asset of the given text. -/
def catalog (text : String) : Catalog :=
  (((∅ : Catalog).add (Sample.asset "leaf" text {} (by decide))).add
    (Sample.asset "inner" "{{: path:leaf :}}" {} (by decide))).add
    (Sample.asset "outer" "{{: include:inner :}}" {} (by decide))

theorem keyed_catalog (text : String) : (catalog text).Keyed :=
  ((Catalog.keyed_empty.add _).add _).add _

/-- The snapshots of two texts that begin alike. -/
def first? : Option Snapshot := Sample.built? (catalog "alike so far: 1")

/-- The second one. -/
def second? : Option Snapshot := Sample.built? (catalog "alike so far: 2")

/-- What is hashed for both. -/
def hashed : List Bytes :=
  (first?.toList ++ second?.toList).flatMap fun s => s.assets.values.map Resolved.preimage

/-- The content of an asset of a snapshot. -/
def content? (s : Option Snapshot) (p : String) : Option Bytes :=
  (s.bind fun s => s.assets.get? p).map (·.content)

/-- Only the content of `leaf` has changed. -/
theorem content?_revision : content? first? "outer" = content? second? "outer" ∧
    (content? first? "outer").isSome = true ∧ content? first? "leaf" ≠ content? second? "leaf" := by
  decide +kernel

/-- The assets need the same in both, and no hashed byte strings have the same digest. -/
theorem closure_revision : (first?.map fun s => (s.graph.closure "outer", s.graph))
      = second?.map (fun s => (["inner", "leaf", "outer"], s.graph)) ∧
    ∀ b ∈ hashed, ∀ b' ∈ hashed, Sample.context.hash b = Sample.context.hash b' → b = b' := by
  decide +kernel

end Revision

/-! ### The digest and what is below it -/

/-- In two builds with the same hash function, whose digests are of one length and tell the hashed byte
strings apart: an asset that needs the same assets in the same way has the same digest just if all these
have the same contents. -/
theorem digest_eq_iff_of_builds (hc : c.Keyed) (hc' : c'.Keyed) (h : (build x c).1 = .ok s)
    (h' : (build x' c').1 = .ok s') (hhash : x'.hash = x.hash) (hlen : ∀ b, (x.hash b).length = len)
    (hfree : ∀ b b', s.Hashes b ∨ s'.Hashes b → s.Hashes b' ∨ s'.Hashes b' →
      x.hash b = x.hash b' → b = b')
    (hr : s.assets.get? p = some r) (hr' : s'.assets.get? p = some r')
    (hsame : s.SameTargets s' p) : s'.graph.closure p = s.graph.closure p ∧
      (r.digest = r'.digest ↔ ∀ q ∈ s.graph.closure p, s.SameContent s' q) := by
  have hs := solved_of_build hc h
  have hs' := solved_of_build hc' h'
  have hmem : p ∈ s.order.reverse := by
    rw [List.mem_reverse, hs.order.mem_iff]
    exact hs.mem_paths hr
  suffices hall : ∀ p ∈ s.order.reverse, ∀ r r', s.assets.get? p = some r →
      s'.assets.get? p = some r' → s.SameTargets s' p →
      (r.digest = r'.digest ↔ ∀ q ∈ s.graph.closure p, s.SameContent s' q) from
    ⟨hsame.closure_eq, hall p hmem r r' hr hr' hsame⟩
  -- along the order of the first build, which is one for the second build as far as `p` goes
  refine hs.founded.induction fun p _ ih r r' hr hr' hsame => ?_
  have htargets : ∀ t, s'.graph.Adjacent p t ↔ s.graph.Adjacent p t := fun t => hsame.adjacent_iff
  rw [digest_eq_iff_of_targets hs hs' hhash hlen
    (fun b b' hb hb' => hfree b b' (.inl hb) (.inr hb')) hr hr' htargets]
  have hbelow : ∀ t, s.graph.Adjacent p t →
      (Context.digestIn s.assets t = Context.digestIn s'.assets t ↔
        ∀ q ∈ s.graph.closure t, s.SameContent s' q) := fun t hpt => by
    obtain ⟨v, hv⟩ := hs.exists_of_adjacent hr hpt
    obtain ⟨v', hv'⟩ := hs'.exists_of_adjacent hr' ((htargets t).2 hpt)
    rw [Context.digestIn, Context.digestIn, hv, hv']
    exact ih t hpt v v' hv hv' (hsame.target hpt)
  have hself : s.SameContent s' p ↔ r.content = r'.content := by
    constructor
    · rintro ⟨v, v', hv, hv', hcontent⟩
      cases hr.symm.trans hv
      cases hr'.symm.trans hv'
      exact hcontent
    · exact fun hcontent => ⟨r, r', hr, hr', hcontent⟩
  constructor
  · rintro ⟨hcontent, hdigests⟩ q hq
    rcases mem_closure_iff.1 hq with rfl | ⟨t, hpt, htq⟩
    · exact hself.2 hcontent
    · exact (hbelow t hpt).1 (hdigests t hpt) q htq
  · intro hall
    refine ⟨hself.1 (hall p (mem_closure_iff.2 (.inl rfl))), fun t hpt => (hbelow t hpt).2 ?_⟩
    exact fun q hq => hall q (mem_closure_iff.2 (.inr ⟨t, hpt, hq⟩))

/-- In the sample only `leaf` has changed, and not even the path that `inner` refers to; yet `outer` has
another digest. -/
theorem digest_ne_of_revision : ∃ s s' r r', Revision.first? = some s ∧ Revision.second? = some s' ∧
    s.assets.get? "outer" = some r ∧ s'.assets.get? "outer" = some r' ∧ r.content = r'.content ∧
    r.digest ≠ r'.digest := by
  obtain ⟨hcontent, hsome, hleaf⟩ := Revision.content?_revision
  obtain ⟨hclosure, hfree⟩ := Revision.closure_revision
  obtain ⟨b, hb⟩ := Option.isSome_iff_exists.1 hsome
  obtain ⟨r, hr, rfl⟩ := Option.map_eq_some_iff.1 hb
  obtain ⟨r', hr', hcontent'⟩ := Option.map_eq_some_iff.1 (hcontent.symm.trans hb)
  obtain ⟨s, hs, hr⟩ := Option.bind_eq_some_iff.1 hr
  obtain ⟨s', hs', hr'⟩ := Option.bind_eq_some_iff.1 hr'
  rw [hs, hs', Option.map_some, Option.map_some, Option.some.injEq, Prod.mk.injEq] at hclosure
  have hmem : ∀ b, s.Hashes b ∨ s'.Hashes b → b ∈ Revision.hashed := fun b hb => by
    rw [hashes_iff, hashes_iff] at hb
    simpa [Revision.hashed, hs, hs'] using hb
  refine ⟨s, s', r, r', hs, hs', hr, hr', hcontent'.symm, fun hdigest => ?_⟩
  obtain ⟨-, hiff⟩ := digest_eq_iff_of_builds (Revision.keyed_catalog _) (Revision.keyed_catalog _)
    (Sample.build_of_built? hs) (Sample.build_of_built? hs') rfl Sample.length_hash
    (fun b b' hb hb' => hfree b (hmem b hb) b' (hmem b' hb')) hr hr'
    (fun q _ t => by rw [hclosure.2])
  obtain ⟨v, v', hv, hv', hleafcontent⟩ := hiff.1 hdigest "leaf" (by rw [hclosure.1]; simp)
  refine hleaf ?_
  rw [Revision.content?, Revision.content?, hs, hs', Option.bind_some, Option.bind_some, hv, hv',
    Option.map_some, Option.map_some, hleafcontent]

end Snapshot

end HashedAssets
