import HashedAssets.Proofs.Resolution.Sources
import HashedAssets.Proofs.Resolver.Wiring

/-!
# The same resolver with other sources

What flights and requests do to a resolver does not depend on the sources of the assets that are kept:
these are not read.

* `upon`: a resolver with the definitions of another catalog;
* `FlightMove.upon`, `RequestMove.upon`, `Quiet.upon`: the moves are the same.
-/

namespace HashedAssets.Resolver

open SingleFlight Relation

variable {c : Catalog} {s u : Resolver} {n : CallId} {f : Flight} {i : RequestId} {r : Request}

/-- The resolver with the definitions of another catalog. -/
def upon (s : Resolver) (c : Catalog) : Resolver :=
  { s with catalog := { s.catalog with entries := c.entries } }

theorem alike_upon (h : c.Alike s.catalog) : (s.upon c).catalog.Alike s.catalog := h

theorem contains_upon (h : c.Alike s.catalog) (p : String) :
    (s.upon c).catalog.contains p = s.catalog.contains p :=
  ((alike_upon h).contains p).symm

theorem get_upon_error (h : c.Alike s.catalog) {p : String} {g : Failure}
    (hg : s.catalog.get p = .error g) : (s.upon c).catalog.get p = .error g := by
  obtain ⟨hnone, rfl⟩ := Catalog.get_eq_error hg
  have hp := h p
  rw [hnone] at hp
  have hnone' : (s.upon c).catalog.entries.get? p = none := Option.map_eq_none_iff.1 hp.symm
  rw [Catalog.get, hnone']

theorem get_upon_ok {p : String} {d : Definition} (hg : s.catalog.get p = .ok d)
    (hp : c.entries.get? p = s.catalog.entries.get? p) : (s.upon c).catalog.get p = .ok d :=
  Catalog.get_eq_ok_iff.2 (hp.trans (Catalog.get_eq_ok_iff.1 hg))

/-- Asking a source counts the call, and nothing else. -/
theorem fetch_upon (s : Resolver) (c : Catalog) (d : Definition) :
    (s.upon c).catalog.fetch d
      = ((s.catalog.fetch d).1, { (s.catalog.fetch d).2 with entries := c.entries }) := by
  unfold Catalog.fetch upon
  cases d.source with
  | static b => rfl
  | directory b => rfl
  | dynamic l held => cases hcounted : l.isCounted <;> simp [hcounted]

theorem collect_upon (s : Resolver) (c : Catalog) (children : List RequestId) :
    (s.upon c).collect children = s.collect children := by
  induction children with
  | nil => rfl
  | cons i rest ih =>
      rw [collect, collect, ih]
      rfl

theorem Landing.upon (h : c.Alike s.catalog) {m : PathMap Entry} {v : Resolved}
    (hl : Landing s f m v) : Landing (s.upon c) f m v := by
  cases hl with
  | reuse hst hans hcur => exact .reuse hst ((collect_upon s c _).trans hans) hcur
  | renew hst hans hout hres =>
      exact .renew hst ((collect_upon s c _).trans hans) hout
        ((Context.resolve_alike h.symm _ _ _).trans hres)

theorem FailCause.upon (h : c.Alike s.catalog) (hs : Coherent s)
    (habsent : ∀ p, s.entries.get? p = none → c.entries.get? p = s.catalog.entries.get? p)
    (hf : s.flights.call? n = some f) (hgo : f.cancelled = false) {g : Failure}
    (hg : FailCause s f g) : FailCause (s.upon c) f g := by
  cases hg with
  | unregistered hst hget => exact .unregistered hst (get_upon_error h hget)
  | unread hst hres => exact .unread hst hres
  | unprepared hst hres hget hprep =>
      have hnone := hs.tended.absent hf hgo (.inl ⟨_, hst⟩)
      exact .unprepared hst hres (get_upon_ok hget (habsent _ hnone))
        ((Context.prepare_alike h.symm _ _).trans hprep)
  | target hst hall hans => exact .target hst hall ((collect_upon s c _).trans hans)
  | unresolved hst hans hres =>
      exact .unresolved hst ((collect_upon s c _).trans hans)
        ((Context.resolve_alike h.symm _ _ _).trans hres)

/-- A flight reads the source of an asset that is not kept, if any. -/
theorem FlightMove.upon (h : c.Alike s.catalog) (hs : Coherent s)
    (habsent : ∀ p, s.entries.get? p = none → c.entries.get? p = s.catalog.entries.get? p)
    (hf : s.flights.call? n = some f) (hm : FlightMove s n f u) :
    FlightMove (s.upon c) n f (u.upon c) := by
  cases hm with
  | stop hst hcan => exact .stop hst hcan
  | abandon hst hne hcause =>
      refine .abandon hst hne (hcause.imp_right fun ⟨a, es, kept, children, he, hall, hcol⟩ => ?_)
      exact ⟨a, es, kept, children, he, hall, (collect_upon s c _).trans hcol⟩
  | @hold d hst hgo hun hget =>
      have hnone : s.entries.get? f.key = none := hs.tended.absent_of_launched hf hgo hst hun
      have hmove := FlightMove.hold (s := s.upon c) (n := n) hst hgo hun
        (get_upon_ok hget (habsent _ hnone))
      rw [fetch_upon] at hmove
      exact hmove
  | recheck hst hgo he hmarked => exact .recheck hst hgo he hmarked
  | gather hst hgo hres hget hprep hcyc =>
      have hnone := hs.tended.absent hf hgo (.inl ⟨_, hst⟩)
      exact .gather hst hgo hres (get_upon_ok hget (habsent _ hnone))
        ((Context.prepare_alike h.symm _ _).trans hprep) hcyc
  | cycle hst hgo hres hget hprep hcyc =>
      have hnone := hs.tended.absent hf hgo (.inl ⟨_, hst⟩)
      exact .cycle hst hgo hres (get_upon_ok hget (habsent _ hnone))
        ((Context.prepare_alike h.symm _ _).trans hprep) hcyc
  | fail hgo hcause hof => exact .fail hgo (hcause.upon h hs habsent hf hgo) hof
  | crash hgo hcause hof => exact .crash hgo (hcause.upon h hs habsent hf hgo) hof
  | land hgo hl hwanted => exact .land hgo (hl.upon h) hwanted
  | discard hgo hl hunwanted => exact .discard hgo (hl.upon h) hunwanted

theorem RequestMove.upon (h : c.Alike s.catalog) (hm : RequestMove s i r u) :
    RequestMove (s.upon c) i r (u.upon c) := by
  cases hm with
  | quit hf hcan => exact .quit hf hcan
  | refuse hf hgo hcause => exact .refuse hf hgo fun p hp => get_upon_error h (hcause p hp)
  | hit hf hgo ht hreg hidle he hn =>
      exact .hit (s := s.upon c) hf hgo ht ((contains_upon h _).trans hreg) hidle he hn
  | join hf hgo ht hslot => exact .join (s := s.upon c) hf hgo ht hslot
  | launch hf hgo ht hreg hidle hmarked =>
      exact .launch (s := s.upon c) hf hgo ht ((contains_upon h _).trans hreg) hidle hmarked
  | take hw hans hrs hcan => exact .take (s := s.upon c) hw hans hrs hcan

theorem Quiet.upon (hq : Quiet s u) (c : Catalog) : Quiet (s.upon c) (u.upon c) := by
  cases hq with
  | intro gates watch byPublic stats events checked hw =>
      exact .intro (s := s.upon c) gates watch byPublic stats events checked hw

end HashedAssets.Resolver
