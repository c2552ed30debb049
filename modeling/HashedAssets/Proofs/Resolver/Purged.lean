import HashedAssets.Proofs.Resolver.Invalidated
import HashedAssets.Proofs.Resolver.Outdated
import Mathlib.Data.Set.Basic

/-!
# One pass over all that a path needs

Before a kept result is used the host is asked, in one pass, about everything that its path needs. The
list of what to ask about is made up first, while each outdated result that is found drops others and
takes back their edges. One pass is enough all the same: the first outdated result that is found meets the
graph as it was, so that the path is among those that depend on it.

* `Grown`: the states of a resolver whose catalog only grows; `Grown.registered`: what is kept is
  registered;
* `Watch.Names`: a host for which the results of certain paths are outdated;
* `checkPath_cases`: what asking about one path does; `foldl_checkPath_eq`, `exists_first_outdated`:
  a pass that finds nothing, and the first result that another one finds;
* `purged_of_grown`: what one pass leaves.
-/

namespace HashedAssets

open SingleFlight Relation

/-- A host that says, from now on, of the results of certain paths that they are outdated, and of no
others. -/
def Watch.Names (w : Watch) (S : Set String) : Prop :=
  ∀ k p e, (w.asked.get? p).getD 0 ≤ k → (w.isStale k p e = true ↔ p ∈ S)

theorem Watch.Names.ask {w : Watch} {S : Set String} (h : w.Names S) (p : String) (e : Entry) :
    ((w.ask p e).1 = true ↔ p ∈ S) ∧ (w.ask p e).2.Names S := by
  refine ⟨h _ p e (Nat.le_refl _), fun k q e' hk => h k q e' ?_⟩
  have hasked : (w.ask p e).2.asked.get? q =
      if q = p then some ((w.asked.get? p).getD 0 + 1) else w.asked.get? q :=
    PathMap.get?_insert _ _ _ _
  rw [hasked] at hk
  split at hk
  · next hq =>
      rw [hq]
      exact (Nat.le_succ _).trans hk
  · exact hk

namespace Resolver

variable {s t u : Resolver} {w : Watch} {S : Set String} {p q : String}

/-! ### What is kept is registered -/

/-- The states that a resolver can come to while the host registers assets, and takes none away. What a
host says that is asked about outdated results may change at any time. -/
inductive Grown : Resolver → Prop
  | make (x : Context) {c : Catalog} (keyed : c.Keyed) (watch : Option Watch) :
      Grown (Resolver.make x c watch)
  | act {s : Resolver} {a : Action} : Grown s → s.Admits a → Grown (s.act a)
  | register {s : Resolver} {c : Catalog} : Grown s → c.Keyed →
      (∀ p, s.catalog.contains p = true → c.contains p = true) → Grown { s with catalog := c }
  | say {s : Resolver} (w : Watch) : Grown s → s.watch.isSome = true → Grown { s with watch := some w }

theorem Grown.coherent (h : Grown s) : Coherent s := by
  induction h with
  | make x keyed watch => exact .make keyed watch
  | act _ hadm ih => exact ih.act hadm
  | register _ keyed _ ih => exact ⟨keyed, ih.graph, ih.wired, ih.tended⟩
  | say _ _ _ ih => exact ⟨ih.keyed, ih.graph, ih.wired, ih.tended⟩

theorem Grown.play (h : Grown s) {as : List Action} (has : s.Playable as) (lost : List String) :
    Grown (s.play lost as).1 := by
  induction as generalizing s lost with
  | nil => exact h
  | cons a rest ih => exact ih (h.act has.1) has.2 _

/-- Whatever is kept or in flight is registered. -/
structure Registered (s : Resolver) : Prop where
  entries : ∀ p e, s.entries.get? p = some e → s.catalog.contains p = true
  slots : ∀ p n, s.flights.slots.get? p = some n → s.catalog.contains p = true

theorem Registered.move (h : Registered s) (hs : Coherent s) (hm : Move s u) : Registered u where
  entries p e he := by
    have hcontains : u.catalog.contains p = s.catalog.contains p := by
      rw [Catalog.contains, Catalog.contains, hm.frame.2]
    rw [hcontains]
    rcases hm.entry hs he with ⟨e₀, he₀, -⟩ | ⟨n, f, m, hf, hgo, rfl, hl, -⟩
    · exact h.entries p e₀ he₀
    · exact h.slots f.key n (hs.wired.held n f hf hl.isRunning hgo)
  slots _ _ hq := hm.registered h.slots hq

theorem Registered.act (h : Registered s) (hs : Coherent s) {a : Action} (ha : s.Admits a) :
    Registered (s.act a) := by
  by_cases hp : a.Patient
  · have hmoves := moves_act ha hp
    generalize s.act a = u at hmoves
    induction hmoves with
    | refl => exact h
    | tail hbefore hm ih => exact ih.move (hs.moves hbefore) hm
  · cases a with
    | cancel i =>
        obtain ⟨rs, hrs, -⟩ := cancel_eq s i
        have hact : s.act (.cancel i) = { s with requests := rs } := hrs
        rw [hact]
        exact ⟨h.entries, h.slots⟩
    | _ => exact absurd trivial hp

theorem Grown.registered (h : Grown s) : Registered s := by
  induction h with
  | make x keyed watch => exact ⟨fun p e he => (nomatch he), fun p n hn => (nomatch hn)⟩
  | act h hadm ih => exact ih.act h.coherent hadm
  | register _ _ hgrows ih =>
      exact ⟨fun p e he => hgrows p (ih.entries p e he), fun p n hn => hgrows p (ih.slots p n hn)⟩
  | say _ _ _ ih => exact ⟨ih.entries, ih.slots⟩

/-! ### Asking about one path -/

/-- A result is kept for a path, and no flight for it is under way. -/
def AtRest (s : Resolver) (p : String) : Prop :=
  s.entries.get? p ≠ none ∧ s.flights.inFlight p = false

/-- The host has been asked, and nothing else has happened. -/
def Asked (w : Watch) (S : Set String) (s t : Resolver) : Prop :=
  ∃ w' new, w'.isStale = w.isStale ∧ w'.Names S ∧
    t = { s with watch := some w', checked := s.checked ++ new }

theorem Asked.refl (hw : s.watch = some w) (hS : w.Names S) : Asked w S s s :=
  ⟨w, [], rfl, hS, by rw [List.append_nil, ← hw]⟩

theorem Asked.trans {w' : Watch} (h : Asked w S s t) (ht : t.watch = some w') (h' : Asked w' S t u) :
    Asked w S s u := by
  obtain ⟨w₁, new₁, hstale₁, -, rfl⟩ := h
  obtain ⟨w₂, new₂, hstale₂, hS₂, rfl⟩ := h'
  cases ht
  exact ⟨w₂, new₁ ++ new₂, hstale₂.trans hstale₁, hS₂, by rw [List.append_assoc]⟩

/-- If a result of the path is at rest and outdated, the path is invalidated; otherwise nothing but asking
happens. -/
theorem checkPath_cases (hw : s.watch = some w) (hS : w.Names S) (q : String) :
    (¬ (s.AtRest q ∧ q ∈ S) ∧ Asked w S s (s.checkPath q)) ∨
    ((s.AtRest q ∧ q ∈ S) ∧ ∃ t, Asked w S s t ∧ s.checkPath q = (t.invalidate q).2) := by
  unfold checkPath
  rw [hw]
  cases he : s.entries.get? q with
  | none => exact .inl ⟨fun h => h.1.1 he, .refl hw hS⟩
  | some e =>
      dsimp only
      have hkept : s.entries.get? q ≠ none := by
        rw [he]
        exact Option.some_ne_none e
      obtain ⟨hstale, hS'⟩ := hS.ask q e
      have hasked : Asked w S s { s with watch := some (w.ask q e).2, checked := s.checked ++ [q] } :=
        ⟨(w.ask q e).2, [q], rfl, hS', rfl⟩
      split
      · next hflight => exact .inl ⟨fun h => by simp [h.1.2] at hflight, .refl hw hS⟩
      · next hidle =>
          have hrest : s.AtRest q := ⟨hkept, by simpa using hidle⟩
          split
          · next h => exact .inr ⟨⟨hrest, hstale.1 h⟩, _, hasked, rfl⟩
          · next h => exact .inl ⟨fun hq => h (hstale.2 hq.2), hasked⟩

/-- Asking about a path leaves a host that says the same. -/
theorem exists_watch_checkPath (hw : s.watch = some w) (hS : w.Names S) (q : String) :
    ∃ w', (s.checkPath q).watch = some w' ∧ w'.Names S := by
  rcases checkPath_cases hw hS q with ⟨-, w', new, -, hS', ht⟩ | ⟨-, _, ⟨w', new, -, hS', rfl⟩, ht⟩
  · exact ⟨w', by rw [ht], hS'⟩
  · exact ⟨w', ht ▸ congrArg Prod.fst (host_invalidate _ q), hS'⟩

theorem atRest_of_lapses (hl : ReflTransGen Lapse s t) (h : t.AtRest q) : s.AtRest q := by
  obtain ⟨e, he⟩ := Option.ne_none_iff_exists'.1 h.1
  obtain ⟨e₀, he₀, -⟩ := entry_of_lapses hl he
  refine ⟨fun hnone => ?_, by rw [← (frame_of_lapses hl).2.2.1]; exact h.2⟩
  rw [he₀] at hnone
  cases hnone

/-! ### A pass -/

/-- A pass that meets no outdated result only asks. -/
theorem foldl_checkPath_eq (hw : s.watch = some w) (hS : w.Names S) {ps : List String}
    (hnone : ∀ q ∈ ps, s.AtRest q → q ∉ S) : Asked w S s (ps.foldl checkPath s) := by
  induction ps generalizing s w with
  | nil => exact .refl hw hS
  | cons p rest ih =>
      rw [List.foldl_cons]
      rcases checkPath_cases hw hS p with ⟨-, hasked⟩ | ⟨⟨hrest, hp⟩, -⟩
      · obtain ⟨w', new, hstale, hS', ht⟩ := id hasked
        refine hasked.trans (by rw [ht]) (ih (w := w') (by rw [ht]) hS' fun q hq hat => ?_)
        rw [ht] at hat
        exact hnone q (List.mem_cons_of_mem _ hq) hat
      · exact absurd hp (hnone p List.mem_cons_self hrest)

/-- The first outdated result that a pass meets is dropped from the state that the pass began in. -/
theorem exists_first_outdated (hw : s.watch = some w) (hS : w.Names S) {ps : List String}
    (hq : q ∈ ps) (hrest : s.AtRest q) (hstale : q ∈ S) : ∃ y ∈ ps, s.AtRest y ∧ y ∈ S ∧
      ∃ t, Asked w S s t ∧ ReflTransGen Lapse (t.invalidate y).2 (ps.foldl checkPath s) := by
  induction ps generalizing s w with
  | nil => cases hq
  | cons p rest ih =>
      rw [List.foldl_cons]
      rcases checkPath_cases hw hS p with ⟨hno, hasked⟩ | ⟨⟨hat, hp⟩, t, hasked, ht⟩
      · obtain ⟨w', new, -, hS', ht⟩ := id hasked
        have hne : q ≠ p := fun he => hno (he ▸ ⟨hrest, hstale⟩)
        have hrest' : (s.checkPath p).AtRest q := by
          rw [ht]
          exact hrest
        obtain ⟨y, hy, hat, hyS, u, hu, hl⟩ :=
          ih (w := w') (by rw [ht]) hS' ((List.mem_cons.1 hq).resolve_left hne) hrest'
        refine ⟨y, List.mem_cons_of_mem _ hy, ?_, hyS, u, hasked.trans (by rw [ht]) hu, hl⟩
        rw [ht] at hat
        exact hat
      · refine ⟨p, List.mem_cons_self, hat, hp, t, hasked, ?_⟩
        rw [← ht]
        exact lapses_foldl lapses_checkPath _ _

/-- What a pass has asked about and is left at rest is not outdated: an outdated result goes when it is
met, and nothing comes back. -/
theorem not_mem_of_foldl_checkPath (hreg : ∀ q e, s.entries.get? q = some e →
      s.catalog.contains q = true) (hw : s.watch = some w) (hS : w.Names S) {ps : List String}
    (hq : q ∈ ps) (hrest : (ps.foldl checkPath s).AtRest q) : q ∉ S := by
  induction ps generalizing s w with
  | nil => cases hq
  | cons p rest ih =>
      rw [List.foldl_cons] at hrest
      have hl := lapses_checkPath s p
      by_cases hqr : q ∈ rest
      · obtain ⟨w', hw', hS'⟩ := exists_watch_checkPath hw hS p
        refine ih (fun y e he => ?_) hw' hS' hqr hrest
        obtain ⟨e₀, he₀, -⟩ := entry_of_lapses hl he
        rw [(frame_of_lapses hl).2.1]
        exact hreg y e₀ he₀
      · obtain rfl : q = p := (List.mem_cons.1 hq).resolve_right hqr
        have hat : (s.checkPath q).AtRest q :=
          atRest_of_lapses (lapses_foldl lapses_checkPath _ _) hrest
        rcases checkPath_cases hw hS q with ⟨hno, -⟩ | ⟨⟨hat₀, -⟩, t, ⟨w', new, -, -, ht⟩, hinv⟩
        · exact fun hqS => hno ⟨atRest_of_lapses hl hat, hqS⟩
        · -- an invalidated result that is at rest is gone
          obtain ⟨e, he⟩ := Option.ne_none_iff_exists'.1 hat₀.1
          have hcontains : t.catalog.contains q = true := by
            rw [ht]
            exact hreg q e he
          have hidle : t.flights.slots.get? q = none := by
            rw [ht]
            exact Table.inFlight_eq_false_iff.1 hat₀.2
          refine absurd ?_ hat.1
          rw [hinv, entries_invalidate_get? hcontains, if_pos ⟨self_mem_affected t q, hidle⟩]

/-- Once a path has been invalidated that another one needs, what is kept for that one is marked. -/
theorem needsCheck_of_invalidate (hg : s.graph.WellFormed) (hq : s.catalog.contains q = true)
    (hp : s.flights.inFlight p = false) (hpq : ReflTransGen s.graph.Adjacent p q)
    (hl : ReflTransGen Lapse (s.invalidate q).2 t) {e : Entry} (he : t.entries.get? p = some e) :
    e.needsCheck = true := by
  obtain ⟨e₀, he₀, -, hmark⟩ := entry_of_lapses hl he
  obtain ⟨hdropped, _, -, -, -, hunmarked⟩ := entry_invalidate hq he₀
  by_contra hno
  have hnot := (hunmarked (hmark (by simpa using hno))).1
  rcases (mem_affected hg).2 hpq with hmem | hmem
  · exact hdropped hmem (Table.inFlight_eq_false_iff.1 hp)
  · exact hnot hmem

/-! ### A sample

`a` includes `b`, and `r` refers to `a`; all of them are kept, and the host says that `a` and `b` are
outdated. The pass meets `a` first, and with its edges the way from `r` to `b` is gone. -/

namespace Outworn

/-- The host. -/
def watch : Watch := ⟨fun _ p _ => p == "a" || p == "b", ∅⟩

theorem names_watch : watch.Names {"a", "b"} := fun _ p _ _ => by simp [watch]

/-- The request for `r` is served. -/
def actions : List Action :=
  [.ask (.logical "r"), .step (.request 0), .step (.flight 0), .step (.request 1), .step (.flight 1),
    .step (.request 2), .step (.flight 2), .step (.request 2), .step (.flight 1), .step (.request 1),
    .step (.flight 0), .step (.request 0), .step (.forget 0), .step (.forget 1), .step (.forget 2)]

/-- The state after that, in which nothing was outdated so far. -/
def served : Resolver := ((make Sample.context Spread.catalog (some .quiet)).play [] actions).1

/-- The same, with a host for which something is. -/
def rested : Resolver := { served with watch := some watch }

theorem grown_rested : Grown rested :=
  .say watch ((Grown.make Sample.context Spread.keyed_catalog _).play (by decide +kernel) [])
    (by decide +kernel)

end Outworn

/-! ### The result -/

/-- **One pass is enough.** Let something be kept for a path that is not in flight, and let the host say of
the results of certain paths that they are outdated. After a pass over all that the path needed nothing of
this is outdated that is kept and not in flight. If there was something outdated among it, the result for
the path is dropped or marked, and if there was nothing, then nothing but asking has happened. -/
theorem purged_of_grown (h : Grown s) (hw : s.watch = some w) (hS : w.Names S) (hp : s.AtRest p) :
    (∀ q, ReflTransGen s.graph.Adjacent p q → (s.dropStale p).AtRest q → q ∉ S) ∧
    ((∃ q, ReflTransGen s.graph.Adjacent p q ∧ s.AtRest q ∧ q ∈ S) →
      ∀ e, (s.dropStale p).entries.get? p = some e → e.needsCheck = true) ∧
    ((∀ q, ReflTransGen s.graph.Adjacent p q → s.AtRest q → q ∉ S) → ∃ w' new,
      w'.isStale = w.isStale ∧
        s.dropStale p = { s with watch := some w', checked := s.checked ++ new }) := by
  refine ⟨fun q hpq hrest => ?_, ?_, fun hnone => ?_⟩
  · exact not_mem_of_foldl_checkPath h.registered.entries hw hS (Graph.mem_closure.2 hpq) hrest
  · rintro ⟨q, hpq, hrest, hqS⟩ e he
    obtain ⟨y, hy, hat, -, _, ⟨w', new, -, -, rfl⟩, hl⟩ :=
      exists_first_outdated hw hS (Graph.mem_closure.2 hpq) hrest hqS
    obtain ⟨f, hf⟩ := Option.ne_none_iff_exists'.1 hat.1
    -- the graph is still the one that the pass began with
    exact needsCheck_of_invalidate
      (s := { s with watch := some w', checked := s.checked ++ new }) h.coherent.graph
      (h.registered.entries y f hf) hp.2 (Graph.mem_closure.1 hy) hl he
  · obtain ⟨w', new, hstale, -, ht⟩ :=
      foldl_checkPath_eq hw hS fun q hq hrest => hnone q (Graph.mem_closure.1 hq) hrest
    exact ⟨w', new, hstale, ht⟩

/-- In the sample: `b` is gone, though nothing led there any more when its turn came, and `r` is marked. -/
theorem purged_outworn : ReflTransGen Outworn.rested.graph.Adjacent "r" "b" ∧
    Outworn.rested.AtRest "b" ∧ ¬ (Outworn.rested.dropStale "r").AtRest "b" ∧
    ∃ e, (Outworn.rested.dropStale "r").entries.get? "r" = some e ∧ e.needsCheck = true := by
  have hrb : ReflTransGen Outworn.rested.graph.Adjacent "r" "b" :=
    Graph.mem_closure.1 (by decide +kernel)
  have hr : Outworn.rested.AtRest "r" := ⟨by decide +kernel, by decide +kernel⟩
  have hb : Outworn.rested.AtRest "b" := ⟨by decide +kernel, by decide +kernel⟩
  obtain ⟨hclean, hfound, -⟩ := purged_of_grown Outworn.grown_rested rfl Outworn.names_watch hr
  have hkept : ((Outworn.rested.dropStale "r").entries.get? "r").isSome = true := by decide +kernel
  obtain ⟨e, he⟩ := Option.isSome_iff_exists.1 hkept
  exact ⟨hrb, hb, fun hleft => hclean "b" hrb hleft (by simp), e, he,
    hfound ⟨"b", hrb, hb, by simp⟩ e he⟩

end Resolver

end HashedAssets
