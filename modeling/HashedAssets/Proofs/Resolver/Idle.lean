import HashedAssets.Proofs.Resolver.Answers
import HashedAssets.Proofs.Resolver.Mirror

/-!
# Between flights

When no flight is under way, the graph holds the edges of what is kept, up to those that were lost.

* `Regular`: what flights work on, keep and end with, whatever the sources give and whoever gives up;
  `Course.regular`: every run keeps it;
* `FailCause.isOfAsset`: with digests that are long enough, a flight fails for what lies in the assets
  only;
* `Idle`, `Mirrors`, `mirrors_iff_of_course`: when the graph is that of the kept results;
* `exists_course_not_mirrors`: it is not always.
-/

namespace HashedAssets

/-- What the asset of a path comes to with some bytes. -/
def Context.Parses (x : Context) (c : Catalog) (p : String) (a : Prepared) (es : List Edge) : Prop :=
  ∃ d raw, c.entries.get? p = some d ∧ x.prepare c d raw = .ok (a, es)

namespace Resolver

open SingleFlight Relation

/-- Whether an answer for a path is of its kind: a result is one of the path, a failure lies in the
assets. -/
def Proper (p : String) : Answer → Prop
  | .ok r => r.path = p
  | .error f => f.isOfAsset = true

/-- Flights wait and results are kept for assets that are registered, with the edges that they come to,
and nothing has ended with a failure that does not lie in the assets. -/
structure Regular (x : Context) (c : Catalog) (s : Resolver) : Prop where
  context : s.context = x
  catalog : s.catalog.entries = c.entries
  gathers : ∀ n f a es kept children, s.flights.call? n = some f →
    f.status = .running (.gathering a es kept children) → x.Parses c f.key a es
  kept : ∀ p e, s.entries.get? p = some e → x.Parses c p e.asset e.resolved.edges ∧
    e.resolved.path = p
  answers : Answers Proper 0 0 s.flights s.requests

variable {x : Context} {c : Catalog} {n : CallId} {s u : Resolver} {f : Flight} {lost : List String}

/-! ### What flights fail with -/

theorem Regular.make (x : Context) (c : Catalog) (watch : Option Watch) :
    Regular x c (make x c watch) where
  context := rfl
  catalog := rfl
  gathers n f a es kept children hf := by cases hf
  kept p e he := by cases he
  answers := .beyond (Nat.le_refl _) (Nat.le_refl _)

/-- A flight that has the results it waits for has one for each target. -/
theorem Regular.collect (h : Regular x c s) (hs : Coherent s) (hf : s.flights.call? n = some f)
    {a : Prepared} {es : List Edge} {kept : Option Resolved} {children : List RequestId}
    (hst : f.status = .running (.gathering a es kept children)) {m : PathMap Resolved}
    (hm : s.collect children = .result (.ok m)) : ∀ q ∈ Edge.targets es, ∃ r, m.get? q = some r := by
  intro q hq
  obtain ⟨i, hi, r, hr, ht⟩ := hs.wired.exists_mem_children hf hst hq
  obtain ⟨v, hv, r', hr'⟩ := (collect_eq_ok hm).1 i hi
  obtain ⟨r₁, hr₁, hdone⟩ := outcome?_eq_some_iff.1 hv
  rw [hr] at hr₁; cases hr₁
  have hpath : v.path = q := h.answers.requests i r _ q (Nat.zero_le i) hr hdone ht
  exact ⟨r', hpath ▸ hr'⟩

/-- With digests that are long enough, a flight fails for what lies in the assets only: if it has all it
waits for, its asset has a result or lacks a variable. -/
theorem FailCause.isOfAsset (h : Regular x c s) (hx : x.LongDigests) (hc : c.Keyed) (hs : Coherent s)
    (hf : s.flights.call? n = some f) {g : Failure} (hg : FailCause s f g) : g.isOfAsset = true := by
  cases hg with
  | unregistered _ hget =>
      obtain ⟨-, rfl⟩ := Catalog.get_eq_error hget
      rfl
  | unread _ _ => rfl
  | unprepared _ _ _ hprep => exact Context.prepare_eq_error_isOfAsset hprep
  | @target a es kept children g hst _ hans =>
      obtain ⟨i, hi, ho⟩ := collect_eq_error hans
      obtain ⟨r, q, hr, ht, -⟩ := hs.wired.exists_child hf hst hi
      obtain ⟨r', hr', hdone⟩ := outcome?_eq_some_iff.1 ho
      rw [hr] at hr'; cases hr'
      exact h.answers.requests i r _ q (Nat.zero_le i) hr hdone ht
  | @unresolved a es kept children m g hst hans hres =>
      obtain ⟨d, raw, hd, hprep⟩ := h.gathers n f a es kept children hf hst
      rw [h.context, Context.resolve_catalog_congr h.catalog] at hres
      have hreg : c.contains d.path = true := Catalog.contains_iff.2 ⟨d, (hc f.key d hd).symm ▸ hd⟩
      rcases Context.resolve_cases hx hprep hreg (h.collect hs hf hst hans) with
        ⟨r, hr⟩ | ⟨dir, -, -, -, hr⟩
      · rw [hr] at hres; cases hres
      · rw [hr] at hres; cases hres; rfl

/-- A result that a flight gets is one of its path. -/
theorem Landing.path_eq (h : Regular x c s) (hc : c.Keyed) (hs : Coherent s)
    (hf : s.flights.call? n = some f) (hgo : f.cancelled = false) {m : PathMap Entry} {r : Resolved}
    (hl : Landing s f m r) : r.path = f.key := by
  cases hl with
  | reuse hst _ _ =>
      obtain ⟨e, he, -, rfl, -⟩ := hs.tended.exists_entry hf hgo hst
      exact (h.kept f.key e he).2
  | renew hst _ _ hres =>
      obtain ⟨d, raw, hd, hprep⟩ := h.gathers n f _ _ _ _ hf hst
      obtain ⟨ds, -, -, rfl, -⟩ := Context.prepare_eq_ok_iff.1 hprep
      obtain ⟨-, -, -, -, -, hpath, -⟩ := Context.resolve_eq_ok_iff.1 hres
      exact hpath.trans (hc f.key d hd)

theorem Regular.parses_of_prepare (h : Regular x c s) {raw : Bytes} {d : Definition} {a : Prepared}
    {es : List Edge} {p : String} (hget : s.catalog.get p = .ok d)
    (hprep : s.context.prepare s.catalog d raw = .ok (a, es)) : x.Parses c p a es := by
  rw [Catalog.get_eq_ok_iff, h.catalog] at hget
  rw [h.context, Context.prepare_congr h.catalog] at hprep
  exact ⟨d, raw, hget, hprep⟩

/-! ### Moves and runs -/

theorem Regular.proper_flight (h : Regular x c s) (hx : x.LongDigests) (hc : c.Keyed)
    (hs : Coherent s) (hf : s.flights.call? n = some f) (hm : FlightMove s n f u) {a : Answer}
    (hst : u.flights.call? n = some { f with status := .finished (.result a) }) :
    Proper f.key a := by
  cases hm.stage hf hst with
  | failed hcause => exact hcause.isOfAsset h hx hc hs hf
  | cyclic _ _ _ _ _ => rfl
  | landed hgo hl _ => exact hl.path_eq h hc hs hf hgo

/-- Every move keeps this. -/
theorem Regular.move (h : Regular x c s) (hx : x.LongDigests) (hc : c.Keyed) (hs : Coherent s)
    (hm : Move s u) : Regular x c u where
  context := hm.frame.1.trans h.context
  catalog := hm.frame.2.trans h.catalog
  gathers n f a es kept children hf hst := by
    cases hm.before hf with
    | same hf₀ hk hst₀ _ => exact hk ▸ h.gathers n _ a es kept children hf₀ (hst₀.trans hst)
    | begun _ hl _ => rw [hst] at hl; cases hl
    | moved hf₀ hm =>
        cases hst
        cases hm.stage hf₀ hf with
        | rechecks _ he _ _ => exact (h.kept _ _ he).1
        | gathers _ _ hget hprep _ _ => exact h.parses_of_prepare hget hprep
  kept p e he := by
    rcases hm.entry hs he with ⟨e₀, he₀, ha, hr, -⟩ | ⟨n, f, m, hf, hgo, rfl, hl, hme, -⟩
    · exact ha ▸ hr ▸ h.kept p e₀ he₀
    · obtain ⟨-, e', he', -, hr, kept, children, hst⟩ := hl.get? hs hf hgo
      rw [hme] at he'; cases he'
      exact ⟨h.gathers n f _ _ _ _ hf hst, hl.path_eq h hc hs hf hgo⟩
  answers := by
    have hshift : Shift s u → Answers Proper 0 0 u.flights u.requests :=
      h.answers.shift (.zero _ _) hs (fun p g hg => by rw [(Catalog.get_eq_error hg).2]; rfl)
        fun p e he _ => (h.kept p e he).2
    rcases hm with hm | ⟨n, hq | ⟨f, hf, hm⟩⟩
    · exact hshift hm
    · exact hshift (.lapse (.quiet hq))
    · exact h.answers.flight hf hm fun a hst => h.proper_flight hx hc hs hf hm hst

/-- So does every run, of callers who may give up. -/
theorem Course.regular {ok : Action → Prop} {cat : Catalog} {watch : Option Watch}
    (hx : x.LongDigests) (hcat : cat.Keyed) (h : Course ok (make x cat watch) s lost) :
    Regular x cat s :=
  h.induction (P := fun s _ => Regular x cat s) (.make hcat watch) (.make x cat watch)
    (fun _ _ _ hs hP hm => hP.move hx hcat hs (.inl hm))
    (fun _ _ n _ hs hP hm => hP.move hx hcat hs (.inr ⟨n, hm⟩))
    fun _ _ _ _ hP hh => ⟨hP.context, hP.catalog, hP.gathers, hP.kept, hP.answers.hush hh⟩

/-! ### Idle states -/

/-- No flight is under way. -/
def Idle (s : Resolver) : Prop := ∀ c ∈ s.flights.calls, c.isRunning = false

instance (s : Resolver) : Decidable s.Idle :=
  inferInstanceAs (Decidable (∀ c ∈ s.flights.calls, c.isRunning = false))

/-- Each kept result has its edges in the graph, and no other path has edges. -/
def Mirrors (s : Resolver) : Prop :=
  (∀ p e, s.entries.get? p = some e → s.graph.edgesOf p = e.resolved.edges) ∧
    ∀ p, s.entries.get? p = none → s.graph.edgesOf p = []

/-- What has edges while no flight is under way. -/
theorem Mirrored.edgesOf_of_idle (h : Mirrored s lost) (hreg : Regular x c s) (hidle : s.Idle) :
    (∀ p e, s.entries.get? p = some e →
      s.graph.edgesOf p = if p ∈ lost then [] else e.resolved.edges) ∧
    ∀ p, s.entries.get? p = none → s.graph.edgesOf p = [] := by
  refine ⟨h.entry, fun p hp => ?_⟩
  by_contra hne
  obtain ⟨n, f, hf, -, hl⟩ := h.other p hp hne
  -- edges without a result: the flight is under way, or has failed for something else
  rcases hl with ⟨a, es, kept, children, hst⟩ | ⟨g, hst, hg⟩
  · have hrunning := hidle f (List.mem_of_getElem? hf)
    rw [isRunning_of_status hst] at hrunning
    cases hrunning
  · have hproper : g.isOfAsset = true := hreg.answers.flights n f _ (Nat.zero_le n) hf hst
    rw [hg] at hproper
    cases hproper

/-! ### An asset that has lost its edges

Of two assets `a` refers to `b`, whose source gives bytes, then fails, then gives bytes that include `a`.
When `b` has changed, the kept result of `a` is checked, and the check fails with the source of `b`. -/

namespace Pair

/-- Default settings with a hash function. -/
def context (hash : Bytes → Bytes) : Context := ⟨.default, hash, id⟩

theorem a_ne_empty : "a" ≠ "" := by decide

theorem b_ne_empty : "b" ≠ "" := by decide

/-- The two assets, with a loader for `b`. -/
def catalog (l : Loader) : Catalog :=
  ((∅ : Catalog).add
    ⟨"a", .static (Bytes.ofText "{{: path:b :}}"), ({} : Choices).options true, a_ne_empty⟩).add
    ⟨"b", .dynamic l none, ({} : Choices).options true, b_ne_empty⟩

theorem keyed_catalog (l : Loader) : (catalog l).Keyed := (Catalog.keyed_empty.add _).add _

end Pair

namespace Lapse

/-- Default settings, and a hash function that gives one digest only. -/
def context : Context := Pair.context fun _ => List.replicate 9 0

theorem longDigests : context.LongDigests := fun _ => Nat.le_refl 9

/-- What the source of `b` gives. -/
def deliver : Nat → Except LoadFault Bytes
  | 0 => .ok (Bytes.ofText "one")
  | 1 => .error (.reported ⟨"OSError", [.text "down"]⟩)
  | _ => .ok (Bytes.ofText "{{: include:a :}}")

/-- The two assets. -/
def catalog : Catalog := Pair.catalog (.varying deliver none)

theorem keyed_catalog : catalog.Keyed := Pair.keyed_catalog _

/-- The asset `a` is resolved; the source of `b` changes; `a` is asked for again, in vain. -/
def actions : List Action :=
  [.ask (.logical "a"), .step (.request 0), .step (.flight 0), .step (.request 1),
    .step (.flight 1), .step (.request 1), .step (.forget 1), .step (.flight 0),
    .step (.request 0), .step (.forget 0), .invalidate "b",
    .ask (.logical "a"), .step (.request 2), .step (.flight 2), .step (.request 3),
    .step (.flight 3), .step (.request 3), .step (.forget 3), .step (.flight 2),
    .step (.request 2), .step (.forget 2)]

/-- The state after that, with the paths that have lost their edges. -/
def lapsed : Resolver × List String := (make context catalog none).play [] actions

theorem course_lapsed : Course Action.Patient (make context catalog none) lapsed.1 lapsed.2 :=
  Course.refl.play (by decide +kernel) (by simp [actions, Action.Patient])

end Lapse

/-- With digests that are long enough, between flights the graph is that of the kept results just if no
kept result with dependencies has lost its edges: none whose last flight that did not write them failed
or was asked to stop. -/
theorem mirrors_iff_of_course {ok : Action → Prop} {cat : Catalog} {watch : Option Watch}
    (hx : x.LongDigests) (hcat : cat.Keyed) (h : Course ok (make x cat watch) s lost)
    (hidle : s.Idle) :
    s.Mirrors ↔ ∀ p ∈ lost, ∀ e, s.entries.get? p = some e → e.resolved.edges = [] := by
  obtain ⟨hentry, hother⟩ := (h.mirrored hcat).edgesOf_of_idle (h.regular hx hcat) hidle
  constructor
  · intro hm p hp e he
    rw [← hm.1 p e he, hentry p e he, if_pos hp]
  · intro hl
    refine ⟨fun p e he => ?_, hother⟩
    rw [hentry p e he]
    split
    · next hp => exact (hl p hp e he).symm
    · rfl

/-- With the asset that has lost its edges: the graph is not that of the kept results. -/
theorem mirrors_lapsed_iff : Lapse.lapsed.1.Mirrors ↔
    ∀ p ∈ Lapse.lapsed.2, ∀ e, Lapse.lapsed.1.entries.get? p = some e → e.resolved.edges = [] :=
  mirrors_iff_of_course Lapse.longDigests Lapse.keyed_catalog Lapse.course_lapsed (by decide +kernel)

/-- The graph does not always hold the edges of what is kept. -/
theorem exists_course_not_mirrors : ∃ s lost,
    Course Action.Patient (make Lapse.context Lapse.catalog none) s lost ∧ s.Idle ∧ ¬s.Mirrors := by
  refine ⟨_, _, Lapse.course_lapsed, by decide +kernel, fun h => ?_⟩
  have hkept : (Lapse.lapsed.1.entries.get? "a").map (·.resolved.edges)
      = some [⟨"a", "b", .reference⟩] := by decide +kernel
  have hedges : Lapse.lapsed.1.graph.edgesOf "a" = [] := by decide +kernel
  obtain ⟨e, he, hr⟩ := Option.map_eq_some_iff.1 hkept
  rw [h.1 "a" e he, hr] at hedges
  cases hedges

end Resolver

end HashedAssets
