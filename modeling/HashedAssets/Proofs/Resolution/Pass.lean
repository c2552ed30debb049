import HashedAssets.Proofs.Resolution.Loading

/-!
# One asset after the other

In the order of evaluation each asset stands behind all that it needs. Resolving the assets in this order
fails for want of variables only; what fails passes this on to all that needs it.

* `Context.Lacks`, `Context.ownFault?`: assets that need one without a variable, and the faults that are
  reported;
* `Progress.Traced`: what is known when some of the assets are through, `Traced.add` for one more asset
  and `Traced.resolveAll` for all of them.
-/

namespace HashedAssets

open Relation

/-! ### Assets without a variable -/

namespace Context

variable {x : Context} {c : Catalog} {g : Graph} {ds : String → List Directive} {p q t : String}
  {a : Prepared} {es : List Edge} {d : Definition} {raw : Bytes}

/-- An asset, or one that it needs at any depth, asks for a variable without a value. -/
def Lacks (x : Context) (g : Graph) (ds : String → List Directive) (p : String) : Prop :=
  ∃ q, ReflTransGen g.Adjacent p q ∧ (x.undefined? (ds q)).isSome = true

/-- The fault of an asset that asks for a variable without a value: the first such variable. There is
none if something else that the asset needs asks for such a variable too. -/
def ownFault? (x : Context) (g : Graph) (ds : String → List Directive) (p : String) : Option Fault :=
  if (g.closure p).any fun q => q != p && (x.undefined? (ds q)).isSome then none
  else (x.undefined? (ds p)).map (.undefinedVariable p)

theorem lacks_iff : x.Lacks g ds p ↔
    (x.undefined? (ds p)).isSome = true ∨ ∃ t, g.Adjacent p t ∧ x.Lacks g ds t := by
  constructor
  · rintro ⟨q, hpq, hq⟩
    rcases ReflTransGen.cases_head hpq with rfl | ⟨t, hpt, htq⟩
    · exact .inl hq
    · exact .inr ⟨t, hpt, q, htq, hq⟩
  · rintro (hp | ⟨t, hpt, q, htq, hq⟩)
    · exact ⟨p, .refl, hp⟩
    · exact ⟨q, .head hpt htq, hq⟩

/-- An asset that needs one without a result is not blamed. -/
theorem ownFault?_eq_none (hp : ¬ TransGen g.Adjacent p p) (hpt : g.Adjacent p t)
    (ht : x.Lacks g ds t) : x.ownFault? g ds p = none := by
  obtain ⟨q, htq, hq⟩ := ht
  have hne : q ≠ p := fun he => hp (.head' hpt (he ▸ htq))
  rw [ownFault?, if_pos]
  exact List.any_eq_true.2 ⟨q, Graph.mem_closure.2 (.head hpt htq), by simp [hne, hq]⟩

/-- An asset all of whose targets have a result is blamed for what it asks for itself. -/
theorem ownFault?_eq_map (h : ∀ t, g.Adjacent p t → ¬ x.Lacks g ds t) :
    x.ownFault? g ds p = (x.undefined? (ds p)).map (.undefinedVariable p) := by
  rw [ownFault?, if_neg]
  rw [List.any_eq_true]
  rintro ⟨q, hq, hqp⟩
  obtain ⟨hne, hundef⟩ := Bool.and_eq_true_iff.1 hqp
  rcases ReflTransGen.cases_head (Graph.mem_closure.1 hq) with rfl | ⟨t, hpt, htq⟩
  · simp at hne
  · exact h t hpt ⟨q, htq, hundef⟩

/-- Where assets lack a variable, one of them is blamed. -/
theorem exists_ownFault? {l : List String} (hl : g.Founded l) :
    ∀ p ∈ l, x.Lacks g ds p → ∃ q ∈ l, x.ownFault? g ds q ≠ none := by
  refine hl.induction fun p hp ih hlacks => ?_
  by_cases ht : ∃ t, g.Adjacent p t ∧ x.Lacks g ds t
  · obtain ⟨t, hpt, ht⟩ := ht
    exact ih t hpt ht
  · have hself := (lacks_iff.1 hlacks).resolve_right ht
    obtain ⟨name, hname⟩ := Option.isSome_iff_exists.1 hself
    refine ⟨p, hp, ?_⟩
    rw [ownFault?_eq_map fun t hpt hlt => ht ⟨t, hpt, hlt⟩, hname]
    simp

theorem ownFault?_eq_none_of_undefined? (h : x.undefined? (ds p) = none) :
    x.ownFault? g ds p = none := by
  rw [ownFault?, h]
  split <;> rfl

end Context

/-! ### The pass -/

namespace Snapshot

variable {x : Context} {c : Catalog} {g : Graph} {q : String} {a : Prepared} {done : List String}
  {p p' : Progress} {line : List (Prepared × List Edge)} {events : List Event}

/-- What is known when some assets are through: those that lack no variable are resolved, with what their
targets are resolved to; the others have failed, and the faults are those of the assets to blame. -/
structure Progress.Traced (x : Context) (c : Catalog) (g : Graph) (done : List String) (p : Progress) :
    Prop where
  failed : ∀ q, q ∈ p.failed ↔ q ∈ done ∧ x.Lacks g c.directives q
  resolved : ∀ q, q ∈ p.resolved ↔ q ∈ done ∧ ¬ x.Lacks g c.directives q
  faults : p.faults = done.reverse.filterMap (x.ownFault? g c.directives)
  solved : ∀ q r, p.resolved.get? q = some r → ∃ a, x.Prepares c q a (g.edgesOf q) ∧
    x.resolve c a (g.edgesOf q) p.resolved = .ok r

theorem Progress.Traced.empty : (⟨∅, [], [], []⟩ : Progress).Traced x c g [] where
  failed := by simp
  resolved := by simp [PathMap.mem_iff_get?_isSome]
  faults := rfl
  solved q r h := by cases h

/-- Whether an asset that comes next can be resolved, and what happens if not. -/
theorem Progress.Traced.step (h : p.Traced x c g done) (hc : c.Keyed) (hf : g.Founded (q :: done))
    (ha : x.Prepares c q a (g.edgesOf q)) :
    (∃ r, x.resolve c a (g.edgesOf q) p.resolved = .ok r ∧
      (p.add x c a (g.edgesOf q)).1 = .ok { p with
        resolved := p.resolved.insert q r, events := p.events ++ [⟨q, .completed, r.publicPath⟩] } ∧
      ¬ x.Lacks g c.directives q ∧ x.ownFault? g c.directives q = none) ∨
    (∃ message, (p.add x c a (g.edgesOf q)).1 = .ok { p with
        failed := q :: p.failed
        faults := p.faults ++ (x.ownFault? g c.directives q).toList
        events := p.events ++ [⟨q, .failed, message⟩] } ∧
      x.Lacks g c.directives q) ∨
    ¬ x.LongDigests ∧ ∃ f, (p.add x c a (g.edgesOf q)).1 = .error f := by
  obtain ⟨hd, hpath, -, hds, hprep⟩ := ha.spec hc
  have hcontains : c.contains a.definition.path = true := by
    rw [hpath]; exact Catalog.contains_iff.2 ⟨_, hd⟩
  unfold Progress.add
  simp only [hpath]
  by_cases hany : ∃ t, g.Adjacent q t ∧ x.Lacks g c.directives t
  -- a target has failed: so does the asset, which is not to blame
  · obtain ⟨t, hqt, ht⟩ := hany
    have hblocked : (Edge.targets (g.edgesOf q)).any p.failed.contains = true :=
      List.any_eq_true.2 ⟨t, hqt, by simpa using (h.failed t).2 ⟨hf.1 t hqt, ht⟩⟩
    have hnone := Context.ownFault?_eq_none (hf.not_transGen q List.mem_cons_self) hqt ht
    rw [if_pos hblocked, hnone]
    exact .inr (.inl ⟨_, rfl, Context.lacks_iff.2 (.inr ⟨t, hqt, ht⟩)⟩)
  -- all targets are resolved: whatever goes wrong is the asset's own
  · have hfree : ∀ t, g.Adjacent q t → ¬ x.Lacks g c.directives t := fun t hqt ht => hany ⟨t, hqt, ht⟩
    have hblocked : ¬ (Edge.targets (g.edgesOf q)).any p.failed.contains = true := by
      rw [List.any_eq_true]
      rintro ⟨t, hqt, ht⟩
      exact hfree t hqt ((h.failed t).1 (by simpa using ht)).2
    have htargets : ∀ t ∈ Edge.targets (g.edgesOf q), ∃ r, p.resolved.get? t = some r := fun t ht =>
      Option.isSome_iff_exists.1 ((h.resolved t).2 ⟨hf.1 t ht, hfree t ht⟩)
    rw [if_neg hblocked]
    have hown := Context.ownFault?_eq_map hfree
    rcases Context.resolve_of_targets hprep hcontains htargets with
      ⟨name, hname, hr⟩ | ⟨hnone, r, hr⟩ | ⟨hx, f, hr, hasset⟩
    · rw [← hds] at hname
      rw [hr, hown, hname, hpath]
      exact .inr (.inl ⟨_, rfl, Context.lacks_iff.2 (.inl (by rw [hname]; rfl))⟩)
    · rw [← hds] at hnone
      rw [hr, hown, hnone]
      refine .inl ⟨r, rfl, rfl, fun hlacks => ?_, rfl⟩
      rcases Context.lacks_iff.1 hlacks with hself | ⟨t, hqt, ht⟩
      · rw [hnone] at hself; cases hself
      · exact hfree t hqt ht
    · rw [hr]
      simp only [hasset]
      exact .inr (.inr ⟨hx, f, rfl⟩)

/-- One more asset is resolved. -/
theorem Progress.Traced.insert (h : p.Traced x c g done) (hc : c.Keyed) (hq : q ∉ done)
    (ha : x.Prepares c q a (g.edgesOf q)) {r : Resolved}
    (hr : x.resolve c a (g.edgesOf q) p.resolved = .ok r) (hfree : ¬ x.Lacks g c.directives q)
    (hown : x.ownFault? g c.directives q = none) (events : List Event) :
    ({ p with resolved := p.resolved.insert q r, events } : Progress).Traced x c g (q :: done) := by
  -- the targets of what was resolved are through, so that nothing changes for them
  have hsame : ∀ t b v, x.Prepares c t b (g.edgesOf t) →
      x.resolve c b (g.edgesOf t) p.resolved = .ok v →
      x.resolve c b (g.edgesOf t) (p.resolved.insert q r) = .ok v := fun t b v hb hv => by
    obtain ⟨-, -, -, -, hprep⟩ := hb.spec hc
    rw [← hv]
    refine Context.resolve_congr hprep fun e he => ?_
    obtain ⟨w, hw⟩ := (Context.resolve_eq_ok_iff.1 hv).1 _ (Edge.mem_targets.2 ⟨e, he, rfl⟩)
    have hmem : e.target ∈ done :=
      ((h.resolved e.target).1 (by rw [PathMap.mem_iff_get?_isSome, hw]; rfl)).1
    have hne : e.target ≠ q := fun heq => hq (heq ▸ hmem)
    refine ⟨w, w, ?_, hw, rfl, rfl, fun _ => rfl⟩
    rw [PathMap.get?_insert, if_neg hne, hw]
  refine ⟨fun t => ?_, fun t => ?_, ?_, fun t v hv => ?_⟩
  · rw [h.failed, List.mem_cons]
    constructor
    · exact fun ht => ⟨.inr ht.1, ht.2⟩
    · rintro ⟨rfl | ht, hlacks⟩
      · exact absurd hlacks hfree
      · exact ⟨ht, hlacks⟩
  · rw [PathMap.mem_iff_get?_isSome, PathMap.get?_insert, List.mem_cons]
    by_cases ht : t = q
    · simp [ht, hfree]
    · rw [if_neg ht, ← PathMap.mem_iff_get?_isSome, h.resolved]
      simp [ht]
  · rw [List.reverse_cons, List.filterMap_append, ← h.faults]
    simp [hown]
  · rw [PathMap.get?_insert] at hv
    split at hv
    · next ht =>
        subst ht
        cases hv
        exact ⟨a, ha, hsame t a r ha hr⟩
    · obtain ⟨b, hb, hbr⟩ := h.solved t v hv
      exact ⟨b, hb, hsame t b v hb hbr⟩

/-- One more asset has failed. -/
theorem Progress.Traced.fail (h : p.Traced x c g done) (hlacks : x.Lacks g c.directives q)
    (events : List Event) :
    ({ p with
        failed := q :: p.failed
        faults := p.faults ++ (x.ownFault? g c.directives q).toList
        events } : Progress).Traced x c g (q :: done) := by
  refine ⟨fun t => ?_, fun t => ?_, ?_, h.solved⟩
  · rw [List.mem_cons, List.mem_cons, h.failed]
    constructor
    · rintro (rfl | ⟨ht, hl⟩)
      · exact ⟨.inl rfl, hlacks⟩
      · exact ⟨.inr ht, hl⟩
    · rintro ⟨rfl | ht, hl⟩
      · exact .inl rfl
      · exact .inr ⟨ht, hl⟩
  · rw [h.resolved, List.mem_cons]
    constructor
    · exact fun ht => ⟨.inr ht.1, ht.2⟩
    · rintro ⟨rfl | ht, hl⟩
      · exact absurd hlacks hl
      · exact ⟨ht, hl⟩
  · rw [List.reverse_cons, List.filterMap_append, ← h.faults]
    cases hown : x.ownFault? g c.directives q <;> simp [hown]

theorem resolveAll_cons (p : Progress) (a : Prepared) (es : List Edge)
    (rest : List (Prepared × List Edge)) : (resolveAll x c p ((a, es) :: rest)).1 =
      match (p.add x c a es).1 with
      | .ok p => (resolveAll x c p rest).1
      | .error f => .error f := by
  rw [resolveAll]
  rcases p.add x c a es with ⟨f | p', events⟩ <;> rfl

/-- Assets in a line each of which stands behind all that it needs. -/
theorem Progress.Traced.resolveAll (h : p.Traced x c g done) (hc : c.Keyed) {order : List String}
    (hline : Lined x c g order line) (hf : g.Founded (order.reverse ++ done))
    (hnodup : (order.reverse ++ done).Nodup) :
    (∃ p', (Snapshot.resolveAll x c p line).1 = .ok p' ∧ p'.Traced x c g (order.reverse ++ done)) ∨
    ¬ x.LongDigests ∧ ∃ f, (Snapshot.resolveAll x c p line).1 = .error f := by
  induction line generalizing order done p with
  | nil =>
      obtain rfl : order = [] := hline.paths.symm
      exact .inl ⟨p, rfl, h⟩
  | cons y rest ih =>
      obtain ⟨a, es⟩ := y
      obtain rfl : order = a.definition.path :: rest.map (·.1.definition.path) := hline.paths.symm
      obtain rfl : es = g.edgesOf a.definition.path := hline.edges _ List.mem_cons_self
      have ha : x.Prepares c a.definition.path a _ := hline.prepares _ List.mem_cons_self
      have hrest : Lined x c g (rest.map (·.1.definition.path)) rest :=
        ⟨rfl, fun y hy => hline.prepares y (List.mem_cons_of_mem _ hy),
          fun y hy => hline.edges y (List.mem_cons_of_mem _ hy)⟩
      rw [List.reverse_cons, List.append_assoc, List.singleton_append] at hf hnodup ⊢
      have hq : a.definition.path ∉ done := (List.nodup_cons.1 hnodup.of_append_right).1
      rw [resolveAll_cons]
      rcases h.step hc hf.of_append ha with
        ⟨r, hr, hok, hfree, hown⟩ | ⟨message, hok, hlacks⟩ | ⟨hx, f, herror⟩
      · rw [hok]
        exact ih (h.insert hc hq ha hr hfree hown _) hrest hf hnodup
      · rw [hok]
        exact ih (h.fail hlacks _) hrest hf hnodup
      · rw [herror]
        exact .inr ⟨hx, f, rfl⟩

end Snapshot

end HashedAssets
