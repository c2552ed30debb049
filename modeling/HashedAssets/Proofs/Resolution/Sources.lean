import HashedAssets.Proofs.Resolution.Digests
import HashedAssets.Proofs.Resolution.Snapshot

/-!
# Sources that give the same

Two catalogs of the same assets may have sources that give the same for some paths only. What an asset
resolves to is the same if they do so for all that it needs.

* `Catalog.Same`: a source that gives the same;
* `Catalog.renew`: a catalog with some sources of another one;
* `Along`: what holds of all that a relation leads to;
* `Context.Embeds`: includes, among what is needed;
* `Context.Solves.same`, `Context.Made.same`: what does not change with the sources.
-/

namespace HashedAssets

open Relation

variable {x : Context} {c c' k : Catalog} {ps : List String} {p q : String}

namespace Catalog

/-- Whether the source of a path gives the same in two catalogs. -/
def Same (c c' : Catalog) (p : String) : Prop :=
  (c'.entries.get? p).map (·.give 0) = (c.entries.get? p).map (·.give 0)

theorem Same.of_eq (h : c'.entries.get? p = c.entries.get? p) : c.Same c' p :=
  congrArg (Option.map fun d : Definition => d.give 0) h

theorem Same.symm (h : c.Same c' p) : c'.Same c p := Eq.symm h

theorem Same.supply {result : Except LoadFault Bytes} (hq : q ≠ p) : c.Same (c.supply p result) q :=
  .of_eq (c.get?_supply_of_ne hq result)

theorem Alike.refl (c : Catalog) : c.Alike c := fun _ => rfl

theorem Alike.symm (h : c.Alike c') : c'.Alike c := fun p => (h p).symm

theorem Alike.trans (h : c.Alike c') (h' : c'.Alike k) : c.Alike k := fun p => (h' p).trans (h p)

theorem Alike.of_entries (h : c'.entries = c.entries) : c.Alike c' := fun p => by rw [h]

/-- The catalog in which the sources of some paths are those of another one. -/
def renew (c k : Catalog) (ps : List String) : Catalog :=
  { c with entries := c.entries.mapValues fun p d =>
      if p ∈ ps then (k.entries.get? p).getD d else d }

theorem get?_renew (h : c.Alike k) : (c.renew k ps).entries.get? p =
    if p ∈ ps then k.entries.get? p else c.entries.get? p := by
  have hp := h p
  rw [renew, PathMap.get?_mapValues]
  cases hd : c.entries.get? p with
  | none =>
      rw [hd] at hp
      simp [Option.map_eq_none_iff.1 hp]
  | some d =>
      rw [hd] at hp
      obtain ⟨d', hd', -⟩ := Option.map_eq_some_iff.1 hp
      by_cases hps : p ∈ ps
      · simp [hps, hd']
      · simp [hps]

theorem Alike.renew (h : c.Alike k) : c.Alike (c.renew k ps) := by
  intro p
  rw [get?_renew h]
  split
  · exact h p
  · rfl

theorem Keyed.renew (hc : c.Keyed) (hk : k.Keyed) (h : c.Alike k) : (c.renew k ps).Keyed := by
  intro p d hd
  rw [get?_renew h] at hd
  split at hd
  · exact hk p d hd
  · exact hc p d hd

theorem Steady.renew (hc : c.Steady) (hk : k.Steady) (h : c.Alike k) : (c.renew k ps).Steady := by
  intro p d hd
  rw [get?_renew h] at hd
  split at hd
  · exact hk p d hd
  · exact hc p d hd

/-- A source that is the same as in the other catalog stays so. -/
theorem Same.renew (h : c.Alike k) (hp : c.Same k p) : c.Same (c.renew k ps) p := by
  unfold Same
  rw [get?_renew h]
  split
  · exact hp
  · rfl

theorem Same.of_renew (h : c.Alike k) (hp : p ∈ ps ∨ c.Same k p) : (c.renew k ps).Same k p := by
  unfold Same
  rw [get?_renew h]
  split
  · rfl
  · next hps => exact hp.resolve_left hps

end Catalog

/-! ### Along a relation -/

section Along

variable {α : Type} {r r' : α → α → Prop} {P P' : α → Prop} {a b : α}

/-- Whether something holds of all that a relation leads to. -/
def Along (r : α → α → Prop) (P : α → Prop) (a : α) : Prop := ∀ b, ReflTransGen r a b → P b

theorem Along.self (h : Along r P a) : P a := h a .refl

theorem Along.next (h : Along r P a) (hab : r a b) : Along r P b := fun _ hbc => h _ (.head hab hbc)

theorem Along.mono (h : Along r P a) (hP : ∀ b, P b → P' b) : Along r P' a := fun b hab => hP b (h b hab)

theorem Along.of_imp (h : Along r P a) (hr : ∀ a b, r' a b → r a b) : Along r' P a :=
  fun b hab => h b (ReflTransGen.mono hr _ _ hab)

/-- What holds of an element, and along the relation from each of the next, holds along it. -/
theorem Along.intro (ha : P a) (h : ∀ b, r a b → Along r P b) : Along r P a := by
  intro c hac
  rcases ReflTransGen.cases_head hac with rfl | ⟨b, hab, hbc⟩
  · exact ha
  · exact h b hab c hbc

/-- A relation that holds wherever another one leads holds along it. -/
theorem reflTransGen_of_along (h : ReflTransGen r' a b) (hr : Along r (fun y => ∀ z, r' y z → r y z) a) :
    ReflTransGen r a b := by
  induction h with
  | refl => exact .refl
  | tail _ hyz ih => exact ih.tail (hr _ ih _ hyz)

end Along

namespace Context

variable {a : Prepared} {es : List Edge} {r : Resolved}

/-- The bytes of one asset stand for an include of the other. -/
def Embeds (x : Context) (c : Catalog) (p q : String) : Prop :=
  ∃ a es, x.Reads c p a es ∧ ∃ e ∈ es, e.target = q ∧ e.kind = .include

theorem Embeds.needs (h : x.Embeds c p q) : x.Needs c p q := by
  obtain ⟨a, es, hr, e, he, ht, -⟩ := h
  exact ⟨a, es, hr, Edge.mem_targets.2 ⟨e, he, ht⟩⟩

/-- The same definition in catalogs of the same assets stands for the same asset. -/
theorem Reads.of_eq (h : x.Reads c p a es) (halike : c.Alike c')
    (hp : c'.entries.get? p = c.entries.get? p) : x.Reads c' p a es := by
  obtain ⟨d, raw, hd, hraw, hprep⟩ := h
  exact ⟨d, raw, hp.trans hd, hraw, (prepare_alike halike d raw).trans hprep⟩

/-- Definitions of one path that are treated in the same way stand, with the same bytes, for assets that
resolve alike. -/
theorem exists_prepare_alike {d d' : Definition} {raw : Bytes} (h : x.prepare c d raw = .ok (a, es))
    (halike : c.Alike c') (hpath : d'.path = d.path) (hoptions : d'.options = d.options) :
    ∃ a', x.prepare c' d' raw = .ok (a', es) ∧ ∀ m, x.resolve c' a' es m = x.resolve c a es m := by
  obtain ⟨ds, hds, hfault, rfl, rfl⟩ := prepare_eq_ok_iff.1 h
  refine ⟨⟨d', raw, ds⟩, ?_, fun m => ?_⟩
  · rw [prepare_alike halike]
    exact prepare_eq_ok_iff.2 ⟨ds, by rw [hoptions, hpath]; exact hds, by rw [hpath]; exact hfault,
      rfl, by rw [hpath]⟩
  · rw [resolve_alike halike, resolve_eq, resolve_eq]
    simp only [publicFor, hpath, hoptions]

/-- Sources that give the same stand for assets that resolve alike. -/
theorem Reads.same (h : x.Reads c p a es) (halike : c.Alike c') (hp : c.Same c' p) :
    ∃ a', x.Reads c' p a' es ∧ ∀ m, x.resolve c' a' es m = x.resolve c a es m := by
  obtain ⟨d, raw, hd, hraw, hprep⟩ := h
  have hlike := halike p
  rw [hd] at hlike
  obtain ⟨d', hd', he⟩ := Option.map_eq_some_iff.1 hlike
  obtain ⟨hpath, hoptions⟩ := Prod.mk.inj he
  have hgive : d'.give 0 = .ok raw := by
    unfold Catalog.Same at hp
    rw [hd, hd'] at hp
    exact (Option.some.inj hp).trans hraw
  obtain ⟨a', hprep', heq⟩ := exists_prepare_alike hprep halike hpath hoptions
  exact ⟨a', ⟨d', raw, hd', hgive, hprep'⟩, heq⟩

theorem Needs.same (h : x.Needs c p q) (halike : c.Alike c') (hp : c.Same c' p) :
    x.Needs c' p q := by
  obtain ⟨a, es, hr, hq⟩ := h
  obtain ⟨a', hr', -⟩ := hr.same halike hp
  exact ⟨a', es, hr', hq⟩

theorem Embeds.same (h : x.Embeds c p q) (halike : c.Alike c') (hp : c.Same c' p) :
    x.Embeds c' p q := by
  obtain ⟨a, es, hr, he⟩ := h
  obtain ⟨a', hr', -⟩ := hr.same halike hp
  exact ⟨a', es, hr', he⟩

/-- An asset resolves to the same where all that it needs comes from sources that give the same. -/
theorem Solves.same (h : x.Solves c p r) (halike : c.Alike c')
    (hsame : Along (x.Needs c) (c.Same c') p) : x.Solves c' p r := by
  induction h with
  | @intro p a es m r hr hpres _ hres ih =>
      obtain ⟨a', hr', heq⟩ := hr.same halike hsame.self
      exact .intro hr' hpres (fun t ht v hv => ih t ht v hv (hsame.next ⟨a, es, hr, ht⟩))
        ((heq m).trans hres)

/-- What is needed where sources give the same is needed as before. -/
theorem needs_of_same (halike : c.Alike c') (hsame : Along (x.Needs c) (c.Same c') p)
    (h : ReflTransGen (x.Needs c') p q) : ReflTransGen (x.Needs c) p q :=
  reflTransGen_of_along h fun y hy _ hyz => hyz.same halike.symm (hsame y hy).symm

theorem embeds_of_same (halike : c.Alike c') (hsame : Along (x.Embeds c) (c.Same c') p)
    (h : ReflTransGen (x.Embeds c') p q) : ReflTransGen (x.Embeds c) p q :=
  reflTransGen_of_along h fun y hy _ hyz => hyz.same halike.symm (hsame y hy).symm

/-- A result goes on to be made of others where the sources of what is included give the same. -/
theorem Made.same {known : Resolved → Prop} (h : x.Made c known a r) (halike : c.Alike c')
    (hsame : ∀ e ∈ r.edges, e.kind = .include → c.Same c' e.target) : x.Made c' known a r := by
  obtain ⟨m, hres, hm⟩ := h
  refine ⟨m, (resolve_alike halike a r.edges m).trans hres, fun t ht v hv => ?_⟩
  obtain ⟨hknown, hpath, hinclude⟩ := hm t ht v hv
  refine ⟨hknown, hpath, fun e he htarget hkind => ?_⟩
  obtain ⟨b, hb⟩ := hinclude e he htarget hkind
  obtain ⟨b', hb', -⟩ := hb.same halike (htarget ▸ hsame e he hkind)
  exact ⟨b', hb'⟩

end Context

end HashedAssets
