import HashedAssets.Proofs.Graph.Search
import HashedAssets.Proofs.Resolver.Mirror

/-!
# While a flight is under way

A path whose flight is under way keeps what is kept of it until the flight ends. An invalidation only
notes the path, and what becomes of it is settled when the flight ends.

* `UnderWay`, `Yields`: a flight goes on, or has ended with a result;
* `entries_invalidate_get?`, `mem_dropOnLanding_invalidate`: what an invalidation drops, marks and notes;
  `entries_clear_get?`, `mem_dropOnLanding_clear`: what is left when everything is dropped;
* `Meanwhile`, `Run.meanwhile`: what stays as it is until a flight ends;
* `Leaves`, `FlightMove.leaves`: what a flight leaves when it ends.
-/

namespace HashedAssets.Resolver

open SingleFlight Relation

variable {ok : Action → Prop} {s t u : Resolver} {m n : CallId} {c c' : Flight} {p q : String}
  {r : Resolved}

/-! ### Flights that go on, and flights that have ended -/

/-- A flight for a path is under way: it sits in the slot of the path and has not ended. -/
def UnderWay (s : Resolver) (p : String) (n : CallId) : Prop :=
  s.flights.slots.get? p = some n ∧ ∃ c, s.flights.call? n = some c ∧ c.isRunning = true

/-- A flight for a path has been asked to stop, and has not ended yet. -/
def Stopped (s : Resolver) (p : String) (n : CallId) : Prop :=
  ∃ c, s.flights.call? n = some c ∧ c.key = p ∧ c.cancelled = true ∧ c.isRunning = true

/-- A flight has ended. -/
def Ended (s : Resolver) (n : CallId) : Prop :=
  ∃ c, s.flights.call? n = some c ∧ c.isRunning = false

/-- A flight has ended with a result. -/
def Yields (s : Resolver) (n : CallId) (r : Resolved) : Prop :=
  ∃ c, s.flights.call? n = some c ∧ c.status = .finished (.result (.ok r))

instance (s : Resolver) (p : String) (n : CallId) : Decidable (s.UnderWay p n) :=
  decidable_of_iff (s.flights.slots.get? p = some n ∧
      ((s.flights.call? n).map (·.isRunning)) = some true) <|
    and_congr_right fun _ => Option.map_eq_some_iff

theorem UnderWay.exists_call (h : s.UnderWay p n) (hs : Coherent s) : ∃ c,
    s.flights.call? n = some c ∧ c.key = p ∧ c.cancelled = false ∧ c.isRunning = true := by
  obtain ⟨hslot, c, hc, hr⟩ := h
  obtain ⟨c', hc', hk, hgo⟩ := hs.wired.slot p n hslot
  rw [hc] at hc'; cases hc'
  exact ⟨c, hc, hk, hgo, hr⟩

theorem Coherent.underWay (hs : Coherent s) (hc : s.flights.call? n = some c)
    (hr : c.isRunning = true) (hgo : c.cancelled = false) : s.UnderWay c.key n :=
  ⟨hs.wired.held n c hc hr hgo, c, hc, hr⟩

theorem Ended.move (h : s.Ended n) (hm : Move s u) : u.Ended n := by
  obtain ⟨c, hc, hr⟩ := h
  obtain ⟨o, hst⟩ := isRunning_eq_false_iff.1 hr
  obtain ⟨c', hc', -, hst'⟩ := hm.finished hc hst
  exact ⟨c', hc', isRunning_eq_false_of_status hst'⟩

/-- A flight that is under way after a move was so before, if it had begun. -/
theorem Move.underWay (hm : Move s u) (hs : Coherent s) (hc : s.flights.call? n = some c)
    (h : u.UnderWay p n) : s.UnderWay p n := by
  obtain ⟨c', hc', rfl, hgo, hr⟩ := h.exists_call (hs.move hm)
  cases hm.before hc' with
  | same hc₀ hk hst hgo₀ => exact hk ▸ hs.underWay hc₀ ((isRunning_congr hst).trans hr) (hgo₀ hgo)
  | begun hn _ _ => exact absurd (Table.lt_of_call?_eq_some hc) (hn ▸ Nat.lt_irrefl _)
  | @moved c₀ _ hc₀ hm => exact hs.underWay (c := c₀) hc₀ hm.isRunning hgo

/-- What can happen is a piece of a flight, or it is made of moves that no flight makes; or requests are
cancelled. -/
theorem act_cases {a : Action} (ha : s.Admits a) : (∃ n, a = .step (.flight n)) ∨
    ReflTransGen Shift s (s.act a) ∨
      ∃ rs, s.act a = { s with requests := rs } ∧ Hushed s.requests rs := by
  by_cases hf : ∃ n, a = .step (.flight n)
  · exact .inl hf
  · by_cases hp : a.Patient
    · exact .inr (.inl (shifts_act ha hp fun n hn => hf ⟨n, hn⟩))
    · cases a with
      | cancel i => exact .inr (.inr (cancel_eq s i))
      | _ => exact absurd trivial hp

/-- Moves that no flight makes leave all calls as far as they are, and begin new ones. -/
theorem call?_of_shifts (h : ReflTransGen Shift s u) (hc : u.flights.call? n = some c) :
    (∃ c₀, s.flights.call? n = some c₀ ∧ c₀.key = c.key ∧ c₀.status = c.status ∧
      (c.cancelled = false → c₀.cancelled = false)) ∨ c.status = .running .launched := by
  induction h generalizing c with
  | refl => exact .inl ⟨c, hc, rfl, rfl, id⟩
  | tail _ hm ih =>
      rcases hm.call? hc with ⟨c₁, hc₁, hk₁, hst₁, hgo₁⟩ | ⟨-, hst⟩
      · rcases ih hc₁ with ⟨c₀, hc₀, hk, hst, hgo⟩ | hst
        · exact .inl ⟨c₀, hc₀, hk.trans hk₁, hst.trans hst₁, fun h => hgo (hgo₁ h)⟩
        · exact .inr (hst₁.symm.trans hst)
      · exact .inr hst

theorem exists_call?_of_shifts (h : ReflTransGen Shift s u) (hc : s.flights.call? n = some c) :
    ∃ c', u.flights.call? n = some c' ∧ c'.key = c.key ∧ c'.status = c.status := by
  induction h with
  | refl => exact ⟨c, hc, rfl, rfl⟩
  | tail _ hm ih =>
      obtain ⟨c₁, hc₁, hk₁, hst₁⟩ := ih
      obtain ⟨c₂, hc₂, hk₂, hst₂⟩ := hm.exists_call? hc₁
      exact ⟨c₂, hc₂, hk₂.trans hk₁, hst₂.trans hst₁⟩

theorem call?_of_flightSteps_of_ne (h : ReflTransGen (FlightStep n) s u) (hmn : m ≠ n) :
    u.flights.call? m = s.flights.call? m := by
  induction h with
  | refl => rfl
  | tail _ hm ih =>
      rcases hm with hq | ⟨c, -, hm⟩
      · cases hq; exact ih
      · exact (hm.call?_of_ne hmn).trans ih

theorem slots_of_flightSteps (h : ReflTransGen (FlightStep n) s u) :
    u.flights.slots = s.flights.slots := by
  induction h with
  | refl => rfl
  | tail _ hm ih =>
      rcases hm with hq | ⟨c, -, hm⟩
      · cases hq; exact ih
      · exact hm.slots.trans ih

/-- What moves keep, and cancelled requests, a whole run keeps. -/
theorem Run.induction_coherent {P : Resolver → Prop} (h : Run ok s t) (hs : Coherent s) (hP : P s)
    (hmove : ∀ s u, Coherent s → P s → Move s u → P u)
    (hcancel : ∀ s rs, (∃ i, ok (.cancel i)) → P s → Hushed s.requests rs →
      P { s with requests := rs }) : P t := by
  obtain ⟨lost, hcourse⟩ := h.exists_course
  exact hcourse.induction (P := fun s _ => P s) hs hP (fun _ _ _ hs hP hm => hmove _ _ hs hP (.inl hm))
    (fun _ _ n _ hs hP hm => hmove _ _ hs hP (.inr ⟨n, hm⟩)) fun _ _ _ hi hP hh => hcancel _ _ hi hP hh

/-! ### Invalidations -/

theorem dropOrDefer_of_idle (h : s.flights.slots.get? p = none) : s.dropOrDefer p = s.drop p := by
  rw [dropOrDefer, Table.inFlight_eq_false_iff.2 h]
  rfl

theorem dropOrDefer_of_busy (h : s.flights.slots.get? p ≠ none) : s.dropOrDefer p
    = { s with dropOnLanding := insertAscending p s.dropOnLanding } := by
  rw [dropOrDefer, if_pos]
  exact Bool.not_eq_false _ ▸ fun hf => h (Table.inFlight_eq_false_iff.1 hf)

theorem foldl_dropOrDefer (s : Resolver) (ps : List String) :
    (∀ q, (ps.foldl dropOrDefer s).entries.get? q =
      if q ∈ ps ∧ s.flights.slots.get? q = none then none else s.entries.get? q) ∧
    ∀ q, q ∈ (ps.foldl dropOrDefer s).dropOnLanding ↔
      q ∈ s.dropOnLanding ∨ q ∈ ps ∧ s.flights.slots.get? q ≠ none := by
  induction ps generalizing s with
  | nil => simp
  | cons p rest ih =>
      obtain ⟨hentries, hnoted⟩ := ih (s.dropOrDefer p)
      by_cases hp : s.flights.slots.get? p = none
      · rw [List.foldl_cons]
        refine ⟨fun q => ?_, fun q => ?_⟩
        · rw [hentries, dropOrDefer_of_idle hp, drop, PathMap.get?_erase]
          by_cases hq : q = p
          · simp [hq, hp]
          · simp [hq]
        · rw [hnoted, dropOrDefer_of_idle hp]
          by_cases hq : q = p
          · simp [drop, hq, hp]
          · simp [drop, hq]
      · rw [List.foldl_cons]
        refine ⟨fun q => ?_, fun q => ?_⟩
        · rw [hentries, dropOrDefer_of_busy hp]
          by_cases hq : q = p
          · simp [hq, hp]
          · simp [hq]
        · rw [hnoted, dropOrDefer_of_busy hp, mem_insertAscending]
          by_cases hq : q = p
          · simp [hq, hp]
          · simp [hq]

theorem entries_foldl_mark (s : Resolver) (ps : List String) (q : String) :
    (ps.foldl mark s).entries.get? q = if q ∈ ps then
      (s.entries.get? q).map fun e => { e with needsCheck := true } else s.entries.get? q := by
  induction ps generalizing s with
  | nil => simp
  | cons p rest ih =>
      rw [List.foldl_cons, ih, mark, PathMap.get?_modify]
      by_cases hqp : q = p
      · subst hqp
        by_cases hmem : q ∈ rest
        · simp [hmem, Option.map_map, Function.comp_def]
        · simp [hmem]
      · simp [hqp]

theorem invalidate_of_contains (hp : s.catalog.contains p = true) : s.invalidate p =
    (.ok (s.affected p), (s.affected p).2.foldl mark ((s.affected p).1.foldl dropOrDefer
      { s with stats := { s.stats with invalidations := s.stats.invalidations + 1 } })) := by
  obtain ⟨d, hd⟩ := Catalog.contains_iff.1 hp
  rw [invalidate, Catalog.get_eq_ok_iff.2 hd]

/-- What is kept after an invalidation: what is to be dropped and not in flight is not, and all else that
depends on it is marked. -/
theorem entries_invalidate_get? (hp : s.catalog.contains p = true) (q : String) :
    (s.invalidate p).2.entries.get? q =
      if q ∈ (s.affected p).1 ∧ s.flights.slots.get? q = none then none
      else if q ∈ (s.affected p).2 then
        (s.entries.get? q).map fun e => { e with needsCheck := true }
      else s.entries.get? q := by
  rw [invalidate_of_contains hp, entries_foldl_mark, (foldl_dropOrDefer _ _).1]
  dsimp only
  by_cases hq : q ∈ (s.affected p).1 ∧ s.flights.slots.get? q = none
  · simp [hq]
  · rw [if_neg hq, if_neg hq]

/-- What is to be dropped and in flight is noted by an invalidation. -/
theorem mem_dropOnLanding_invalidate (hp : s.catalog.contains p = true) :
    q ∈ (s.invalidate p).2.dropOnLanding ↔
      q ∈ s.dropOnLanding ∨ q ∈ (s.affected p).1 ∧ s.flights.slots.get? q ≠ none := by
  rw [invalidate_of_contains hp, eq_of_foldl (g := dropOnLanding) (f := mark) fun _ _ => rfl,
    (foldl_dropOrDefer _ _).2]

theorem flights_invalidate (s : Resolver) (p : String) : (s.invalidate p).2.flights = s.flights :=
  (frame_of_lapses (lapses_invalidate s p)).2.2.1

/-- When everything is dropped, what is in flight is kept until its flight ends. -/
theorem entries_clear_get? (s : Resolver) (q : String) : s.clear.entries.get? q =
    if s.flights.slots.get? q = none then none else s.entries.get? q := by
  refine ((foldl_dropOrDefer s s.entries.keys).1 q).trans ?_
  simp only [PathMap.mem_keys, PathMap.mem_iff_get?_isSome]
  cases s.entries.get? q <;> simp

/-- And it is noted, if something is kept. -/
theorem mem_dropOnLanding_clear : q ∈ s.clear.dropOnLanding ↔
    q ∈ s.dropOnLanding ∨ s.entries.get? q ≠ none ∧ s.flights.slots.get? q ≠ none := by
  refine ((foldl_dropOrDefer s s.entries.keys).2 q).trans ?_
  rw [PathMap.mem_keys, PathMap.mem_iff_get?_isSome, Option.isSome_iff_ne_none]

theorem flights_clear (s : Resolver) : s.clear.flights = s.flights :=
  (frame_of_lapses (lapses_clear s)).2.2.1

theorem self_mem_affected (s : Resolver) (p : String) : p ∈ (s.affected p).1 := List.mem_cons_self

theorem not_mem_affected (h : q ∈ (s.affected p).2) : q ∉ (s.affected p).1 := by
  have hq := (List.mem_filter.1 h).2
  simpa [affected] using hq

/-- What includes the path of a change is dropped. -/
theorem mem_affected_fst (hg : s.graph.WellFormed) :
    q ∈ (s.affected p).1 ↔ s.graph.Reaches (· == .include) q p := by
  show q ∈ p :: s.graph.includers p ↔ _
  rw [List.mem_cons, Graph.includers, Graph.mem_dependentsBy hg]
  constructor
  · rintro (rfl | ⟨-, hq⟩)
    · exact .refl q
    · exact hq
  · intro hq
    by_cases hqp : q = p
    · exact .inl hqp
    · exact .inr ⟨hqp, hq⟩

theorem mem_affected_of_include (hg : s.graph.WellFormed) {e : Edge} (he : e ∈ s.graph.edgesOf q)
    (hk : e.kind = .include) (ht : e.target ∈ (s.affected p).1) : q ∈ (s.affected p).1 :=
  (mem_affected_fst hg).2 (.step he (by rw [hk]; rfl) ((mem_affected_fst hg).1 ht))

/-- What depends on the path of a change is dropped or marked. -/
theorem mem_affected (hg : s.graph.WellFormed) : q ∈ (s.affected p).1 ∨ q ∈ (s.affected p).2 ↔
    ReflTransGen s.graph.Adjacent q p := by
  have hreaches : ∀ {keep a b}, s.graph.Reaches keep a b → ReflTransGen s.graph.Adjacent a b :=
    fun h => ReflTransGen.mono (fun _ _ ⟨e, he, _, ht⟩ => Graph.adjacent_iff.2 ⟨e, he, ht⟩) _ _
      (Graph.reaches_iff.1 h)
  have hdropped : ∀ {d}, d ∈ (s.affected p).1 → ReflTransGen s.graph.Adjacent d p := fun {d} hd => by
    rcases List.mem_cons.1 hd with rfl | hd
    · exact .refl
    · exact hreaches ((Graph.mem_dependentsBy hg).1 hd).2
  constructor
  · rintro (hq | hq)
    · exact hdropped hq
    · obtain ⟨d, hd, hqd⟩ := List.mem_flatMap.1 (mem_ascending.1 (List.mem_filter.1 hq).1)
      exact (hreaches ((Graph.mem_dependentsBy hg).1 hqd).2).trans (hdropped hd)
  · intro hq
    by_cases hmem : q ∈ (s.affected p).1
    · exact .inl hmem
    · have hne : q ≠ p := fun he => hmem (he ▸ List.mem_cons_self)
      have hdep : q ∈ s.graph.dependents p := (Graph.mem_dependentsBy hg).2 ⟨hne,
        Graph.reaches_iff.2 (ReflTransGen.mono (fun _ _ hab => by
          obtain ⟨e, he, ht⟩ := Graph.adjacent_iff.1 hab
          exact ⟨e, he, rfl, ht⟩) _ _ hq)⟩
      refine .inr (List.mem_filter.2 ⟨mem_ascending.2 (List.mem_flatMap.2
        ⟨p, List.mem_cons_self, hdep⟩), ?_⟩)
      simpa [affected] using hmem

/-- What an invalidation leaves was kept before; only what does not depend on the path can be used. -/
theorem entry_invalidate (hp : s.catalog.contains p = true) {e : Entry}
    (he : (s.invalidate p).2.entries.get? q = some e) :
    (q ∈ (s.affected p).1 → s.flights.slots.get? q ≠ none) ∧
    ∃ e₀, s.entries.get? q = some e₀ ∧ e₀.asset = e.asset ∧ e₀.resolved = e.resolved ∧
      (e.needsCheck = false → q ∉ (s.affected p).2 ∧ e₀ = e) := by
  rw [entries_invalidate_get? hp] at he
  split at he
  · cases he
  · next hq =>
      refine ⟨fun hmem hidle => hq ⟨hmem, hidle⟩, ?_⟩
      split at he
      · obtain ⟨e₀, he₀, rfl⟩ := Option.map_eq_some_iff.1 he
        exact ⟨e₀, he₀, rfl, rfl, fun hn => by cases hn⟩
      · next hq' => exact ⟨e, he, rfl, rfl, fun _ => ⟨hq', rfl⟩⟩

/-- Moves put only what is registered in flight. -/
theorem Move.registered (hm : Move s u)
    (h : ∀ q k, s.flights.slots.get? q = some k → s.catalog.contains q = true) {q : String} {k : CallId}
    (hq : u.flights.slots.get? q = some k) : u.catalog.contains q = true := by
  have hcontains : u.catalog.contains q = s.catalog.contains q := by
    rw [Catalog.contains, Catalog.contains, hm.frame.2]
  rw [hcontains]
  rcases hm with hm | ⟨m, hq' | ⟨c, -, hm⟩⟩
  · cases hm with
    | lapse hl => exact h q k (hl.frame.2.2.1 ▸ hq)
    | ask _ => exact h q k hq
    | forget _ _ => exact h q k (Table.slots_of_forget hq)
    | request _ hreq =>
        cases hreq with
        | @launch p _ _ _ hreg _ _ =>
            have hq' : (s.flights.slots.insert p s.flights.calls.length).get? q = some k := hq
            rw [PathMap.get?_insert] at hq'
            split at hq'
            · next hqp => exact hqp ▸ hreg
            · exact h q k hq'
        | take _ _ _ _ => exact h q k (Table.slots_of_detach hq)
        | _ => exact h q k hq
  · cases hq'; exact h q k hq
  · exact h q k (hm.slots ▸ hq)

/-- Only what is registered is in flight. -/
theorem Run.registered {x : Context} {cat : Catalog} {watch : Option Watch} (hcat : cat.Keyed)
    (h : Run ok (make x cat watch) s) (hp : s.flights.slots.get? p = some n) :
    s.catalog.contains p = true :=
  h.induction_coherent (P := fun s => ∀ q k, s.flights.slots.get? q = some k →
    s.catalog.contains q = true) (.make hcat watch) (fun q k hq => by cases hq)
    (fun _ _ _ hP hm _ _ => hm.registered hP) (fun _ _ _ hP _ => hP) p n hp

/-! ### What stays as it is -/

/-- Between two flights for one path that have not been asked to stop, there is no difference. -/
theorem UnderWay.eq_of_call (h : s.UnderWay p n) (hs : Coherent s) (hc : s.flights.call? m = some c)
    (hk : c.key = p) (hr : c.isRunning = true) (hgo : c.cancelled = false) : m = n := by
  obtain ⟨c', hc', hk', hgo', hr'⟩ := h.exists_call hs
  exact hs.wired.eq_of_key hc' hr' hgo' hc hr hgo (hk.trans hk'.symm)

/-- Moves that no flight makes keep nothing anew. -/
theorem Shift.get?_eq_none (hm : Shift s u) (hp : s.entries.get? p = none) :
    u.entries.get? p = none := by
  cases hm with
  | lapse hl =>
      cases hl with
      | quiet hq => cases hq; exact hp
      | drop _ =>
          rw [PathMap.get?_erase]
          split
          · rfl
          · exact hp
      | defer _ => exact hp
      | mark q =>
          rw [mark, PathMap.get?_modify]
          split
          · next hpq => rw [← hpq, hp]; rfl
          · exact hp
  | ask _ => exact hp
  | forget _ _ => exact hp
  | request _ hreq => cases hreq <;> exact hp

/-- Where a slot is taken nothing is dropped. -/
theorem Lapse.isSome_entries (hm : Lapse s u) (hp : s.flights.slots.get? p ≠ none) :
    (u.entries.get? p).isSome = (s.entries.get? p).isSome := by
  cases hm with
  | quiet hq => cases hq; rfl
  | @drop q hidle =>
      have hne : p ≠ q := fun he => hp (he ▸ hidle)
      rw [PathMap.get?_erase, if_neg hne]
  | defer _ => rfl
  | mark q =>
      rw [Resolver.mark, PathMap.get?_modify]
      split
      · next hpq => rw [Option.isSome_map, hpq]
      · rfl

theorem isSome_entries_of_lapses (h : ReflTransGen Lapse s u) (hp : s.flights.slots.get? p ≠ none) :
    (u.entries.get? p).isSome = (s.entries.get? p).isSome := by
  induction h with
  | refl => rfl
  | tail h hm ih =>
      exact (hm.isSome_entries (by rw [(frame_of_lapses h).2.2.1]; exact hp)).trans ih

/-- A request leaves what is kept as it is, once the host has been asked about outdated results. -/
theorem entries_of_calms (h : ReflTransGen Calm s u) : u.entries = s.entries := by
  induction h with
  | refl => rfl
  | tail _ hm ih =>
      refine Eq.trans ?_ ih
      cases hm with
      | quiet hq => cases hq; rfl
      | request _ hreq => cases hreq <;> rfl

/-- Only a flight keeps or drops anything where a slot is taken. -/
theorem isSome_entries_act {a : Action} (hf : ∀ m, a ≠ .step (.flight m))
    (hp : s.flights.slots.get? p ≠ none) :
    ((s.act a).entries.get? p).isSome = (s.entries.get? p).isSome := by
  cases a with
  | ask _ => rfl
  | cancel i =>
      obtain ⟨rs, hrs, -⟩ := cancel_eq s i
      rw [show s.act (.cancel i) = { s with requests := rs } from hrs]
  | openGate _ => rfl
  | closeGate _ => rfl
  | invalidate q => exact isSome_entries_of_lapses (lapses_invalidate s q) hp
  | clear => exact isSome_entries_of_lapses (lapses_clear s) hp
  | step x =>
      cases x with
      | forget _ => rfl
      | request i =>
          obtain ⟨t, hl, -, hcalm⟩ := calm_runRequest s i
          rw [show s.act (.step (.request i)) = s.runRequest i from rfl, entries_of_calms hcalm]
          exact isSome_entries_of_lapses hl hp
      | flight m => exact absurd rfl (hf m)

/-- Nothing is dropped or kept anew where a flight goes on. -/
theorem Move.isSome_entries (hm : Move s u) (hs : Coherent s) (h : s.UnderWay p n)
    (h' : u.UnderWay p n) : (u.entries.get? p).isSome = (s.entries.get? p).isSome := by
  rcases hm with hm | ⟨m, hq | ⟨c, hc, hm⟩⟩
  · cases hm with
    | lapse hl => exact hl.isSome_entries fun hnone => by rw [h.1] at hnone; cases hnone
    | ask _ => rfl
    | forget _ _ => rfl
    | request _ hreq => cases hreq <;> rfl
  · cases hq; rfl
  · -- a flight that ends with a result is not the one for the path
    have hne : ∀ {o}, c.cancelled = false → u.flights.call? m = some { c with status := .finished o } →
        p ≠ c.key := fun {o} hgo hu he => by
      have hmn := h.eq_of_call hs hc he.symm hm.isRunning hgo
      obtain ⟨c', hc', hr'⟩ := h'.2
      rw [← hmn, hu] at hc'; cases hc'
      cases hr'
    cases hm with
    | land hgo hl _ =>
        have hother := (hl.get? hs hc hgo).1 p (hne hgo (call?_finish_self hc _))
        exact congrArg Option.isSome hother
    | @discard m' r hgo hl _ =>
        have hpc := hne hgo (call?_finish_self hc _)
        have hother := (hl.get? hs hc hgo).1 p hpc
        show ((m'.erase c.key).get? p).isSome = _
        rw [PathMap.get?_erase, if_neg hpc, hother]
    | _ => rfl

/-- What is noted stays noted, unless a flight for the path ends. -/
theorem Move.mem_dropOnLanding (hm : Move s u) (hp : p ∈ s.dropOnLanding) :
    p ∈ u.dropOnLanding ∨ ∃ m c, s.flights.call? m = some c ∧ c.key = p ∧ c.isRunning = true ∧
      u.Ended m := by
  rcases hm with hm | ⟨m, hq | ⟨c, hc, hm⟩⟩
  · left
    cases hm with
    | lapse hl =>
        cases hl with
        | quiet hq => cases hq; exact hp
        | drop _ => exact hp
        | defer _ => exact mem_insertAscending.2 (.inr hp)
        | mark _ => exact hp
    | ask _ => exact hp
    | forget _ _ => exact hp
    | request _ hreq => cases hreq <;> exact hp
  · cases hq; exact .inl hp
  · have hended : ∀ o, (s.flights.finish m o) = u.flights → p ∈ s.dropOnLanding.filter (· != c.key) ∨
        ∃ m c, s.flights.call? m = some c ∧ c.key = p ∧ c.isRunning = true ∧ u.Ended m := fun o ho => by
      by_cases hk : c.key = p
      · exact .inr ⟨m, c, hc, hk, hm.isRunning, _, ho ▸ call?_finish_self hc o, rfl⟩
      · exact .inl (List.mem_filter.2 ⟨hp, by simpa using fun he => hk he.symm⟩)
    cases hm with
    | abandon _ _ _ => exact hended _ rfl
    | cycle _ _ _ _ _ _ => exact hended _ rfl
    | fail _ _ _ => exact hended _ rfl
    | discard _ _ _ => exact hended _ rfl
    | _ => exact .inl hp

/-- A flight notes nothing to be dropped. -/
theorem FlightMove.of_mem_dropOnLanding (hm : FlightMove s n c u) (hp : p ∈ u.dropOnLanding) :
    p ∈ s.dropOnLanding := by
  cases hm <;> first | exact hp | exact (List.mem_filter.1 hp).1

/-- What stays as it is from one state to another while a flight is under way: whether anything is kept
for its path, and that this is to be dropped, unless a flight for the path that had been asked to stop
has ended meanwhile. Nobody else is at work on the path. -/
structure Meanwhile (s t : Resolver) (p : String) (n : CallId) : Prop where
  kept : (t.entries.get? p).isSome = (s.entries.get? p).isSome
  others : ∀ k c, k ≠ n → t.flights.call? k = some c → c.key = p → c.isRunning = true → s.Stopped p k
  noted : p ∈ s.dropOnLanding → p ∈ t.dropOnLanding ∨ ∃ k, s.Stopped p k ∧ t.Ended k

theorem Meanwhile.refl (hs : Coherent s) (h : s.UnderWay p n) : Meanwhile s s p n where
  kept := rfl
  others k c hkn hc hk hr := by
    refine ⟨c, hc, hk, ?_, hr⟩
    by_contra hgo
    exact hkn (h.eq_of_call hs hc hk hr (by simpa using hgo))
  noted := .inl

theorem Meanwhile.move (h : Meanwhile s t p n) (ht : Coherent t) (hm : Move t u)
    (hn : t.UnderWay p n) (hn' : u.UnderWay p n) : Meanwhile s u p n where
  kept := (hm.isSome_entries ht hn hn').trans h.kept
  others k c hkn hc hk hr := by
    cases hm.before hc with
    | same hc' hk' hst _ => exact h.others k _ hkn hc' (hk'.trans hk) ((isRunning_congr hst).trans hr)
    | begun _ _ hgo =>
        -- a flight that has just begun sits in its slot
        exact absurd (hn'.eq_of_call (ht.move hm) hc hk hr hgo) hkn
    | moved hc' hm => exact h.others k _ hkn hc' hk hm.isRunning
  noted hp := by
    rcases h.noted hp with hp | ⟨k, hk, he⟩
    · rcases hm.mem_dropOnLanding hp with hp | ⟨k, c, hc, hk, hr, he⟩
      · exact .inl hp
      · have hkn : k ≠ n := by
          rintro rfl
          obtain ⟨c₁, hc₁, hr₁⟩ := he
          obtain ⟨c₂, hc₂, hr₂⟩ := hn'.2
          rw [hc₁] at hc₂; cases hc₂
          rw [hr₁] at hr₂; cases hr₂
        exact .inr ⟨k, h.others k c hkn hc hk hr, he⟩
    · exact .inr ⟨k, hk, he.move hm⟩

/-- As long as a flight is under way, this is so. -/
theorem Run.meanwhile (h : Run ok s t) (hs : Coherent s) (hn : s.UnderWay p n)
    (hn' : t.UnderWay p n) : Meanwhile s t p n := by
  obtain ⟨c, hc, -, -, -⟩ := hn.exists_call hs
  have hall : (∃ c, t.flights.call? n = some c) ∧ (t.UnderWay p n → Meanwhile s t p n) := by
    refine h.induction_coherent (P := fun t => (∃ c, t.flights.call? n = some c) ∧
      (t.UnderWay p n → Meanwhile s t p n)) hs ⟨⟨c, hc⟩, fun _ => .refl hs hn⟩
      (fun v w hv hP hm => ?_) fun v rs _ hP _ => ⟨hP.1, fun hn => ?_⟩
    · obtain ⟨⟨c₁, hc₁⟩, hP⟩ := hP
      obtain ⟨c₂, hc₂, -⟩ := hm.exists_call? hc₁
      refine ⟨⟨c₂, hc₂⟩, fun hn₂ => ?_⟩
      have hn₁ := hm.underWay hv hc₁ hn₂
      exact (hP hn₁).move hv hm hn₁ hn₂
    · exact ⟨(hP.2 hn).kept, (hP.2 hn).others, (hP.2 hn).noted⟩
  exact hall.2 hn'

/-! ### What a flight leaves -/

/-- What is kept of a path when its flight has ended: its result, unless this is to be dropped; without a
result, what was kept before. -/
def Leaves (s u : Resolver) (p : String) : Outcome Answer → Prop
  | .result (.ok r) =>
      if p ∈ s.dropOnLanding then u.entries.get? p = none
      else ∃ e, u.entries.get? p = some e ∧ e.needsCheck = false ∧ e.resolved = r
  | _ => u.entries.get? p = s.entries.get? p

theorem Leaves.of_ok (h : Leaves s u p (.result (.ok r))) :
    p ∈ s.dropOnLanding ∧ u.entries.get? p = none ∨
      p ∉ s.dropOnLanding ∧ ∃ e, u.entries.get? p = some e ∧ e.needsCheck = false ∧ e.resolved = r := by
  by_cases hp : p ∈ s.dropOnLanding
  · exact .inl ⟨hp, by simpa [Leaves, hp] using h⟩
  · exact .inr ⟨hp, by simpa [Leaves, hp] using h⟩

/-- A move of a flight leaves all as it is, or the flight ends. -/
theorem FlightMove.leaves (hm : FlightMove s n c u) (hs : Coherent s)
    (hc : s.flights.call? n = some c) :
    (∃ w, u.flights.call? n = some { c with status := .running w } ∧ u.entries = s.entries ∧
      u.dropOnLanding = s.dropOnLanding) ∨
    ∃ o, u.flights.call? n = some { c with status := .finished o } ∧ Leaves s u c.key o ∧
      (∀ q, q ≠ c.key → u.entries.get? q = s.entries.get? q) ∧
      ∀ r, o = .result (.ok r) → c.cancelled = false := by
  cases hm with
  | hold _ _ _ _ =>
      exact .inl ⟨_, by rw [Table.call?_progress, if_pos rfl, hc]; rfl, rfl, rfl⟩
  | recheck _ _ _ _ => exact .inl ⟨_, call?_await_self hc _ _ _, rfl, rfl⟩
  | gather _ _ _ _ _ _ =>
      exact .inl ⟨_, call?_await_self (s := { s with graph := _ }) hc _ _ _, rfl, rfl⟩
  | land hgo hl hwanted =>
      obtain ⟨hother, e, he, hn, hr, -⟩ := hl.get? hs hc hgo
      exact .inr ⟨_, call?_finish_self hc _, by rw [Leaves, if_neg hwanted]; exact ⟨e, he, hn, hr⟩,
        hother, fun _ _ => hgo⟩
  | @discard m r hgo hl hunwanted =>
      obtain ⟨hother, -⟩ := hl.get? hs hc hgo
      refine .inr ⟨_, call?_finish_self hc _, ?_, fun q hq => ?_, fun _ _ => hgo⟩
      · rw [Leaves, if_pos hunwanted]
        show (m.erase c.key).get? c.key = none
        rw [PathMap.get?_erase, if_pos rfl]
      · show (m.erase c.key).get? q = _
        rw [PathMap.get?_erase, if_neg hq]
        exact hother q hq
  | _ => exact .inr ⟨_, call?_finish_self hc _, rfl, fun _ _ => rfl, fun _ ho => by cases ho⟩

/-- A piece of what a flight does leaves all as it is, or the flight ends. -/
theorem leaves_of_flightSteps (h : ReflTransGen (FlightStep n) s u) (hs : Coherent s)
    (hc : s.flights.call? n = some c) (hr : c.isRunning = true) :
    Coherent u ∧
    ((∃ w, u.flights.call? n = some { c with status := .running w } ∧ u.entries = s.entries ∧
      u.dropOnLanding = s.dropOnLanding) ∨
    ∃ o, u.flights.call? n = some { c with status := .finished o } ∧ Leaves s u c.key o ∧
      (∀ q, q ≠ c.key → u.entries.get? q = s.entries.get? q) ∧
      ∀ r, o = .result (.ok r) → c.cancelled = false) := by
  induction h with
  | refl =>
      obtain ⟨w, hst⟩ := isRunning_iff.1 hr
      exact ⟨hs, .inl ⟨w, by rw [hc, ← hst], rfl, rfl⟩⟩
  | @tail v u _ hm ih =>
      obtain ⟨hv, ih⟩ := ih
      refine ⟨hv.flightStep hm, ?_⟩
      rcases hm with hq | ⟨c', hc', hm⟩
      · cases hq; exact ih
      · rcases ih with ⟨w, hcv, hentries, hnoted⟩ | ⟨o, hcv, -⟩
        · rw [hcv] at hc'; cases hc'
          have hleaves : ∀ {o}, Leaves v u c.key o → Leaves s u c.key o := fun {o} hl => by
            unfold Leaves at *
            rw [hentries, hnoted] at hl
            exact hl
          rcases hm.leaves hv hcv with ⟨w', hcu, he, hd⟩ | ⟨o, hcu, hl, hother, hgo⟩
          · exact .inl ⟨w', hcu, he.trans hentries, hd.trans hnoted⟩
          · exact .inr ⟨o, hcu, hleaves hl, fun q hq => hentries ▸ hother q hq, hgo⟩
        · rw [hcv] at hc'; cases hc'
          cases hm.isRunning

/-- How a flight comes not to be under way any more: it ends, or it is asked to stop, and then nothing
else happens to its path. -/
theorem UnderWay.over (h : s.UnderWay p n) (hs : Coherent s) {a : Action} (ha : s.Admits a)
    (hover : ¬ (s.act a).UnderWay p n) :
    (a = .step (.flight n) ∧ ∃ c o, (s.act a).flights.call? n = some c ∧ c.key = p ∧ c.status = .finished o ∧
      (s.act a).flights.slots = s.flights.slots ∧ Leaves s (s.act a) p o) ∨
    (∃ c, (s.act a).flights.call? n = some c ∧ c.isRunning = true) ∧
      (s.act a).flights.slots.get? p ≠ some n ∧ (∀ m, a ≠ .step (.flight m)) ∧
      ((s.act a).entries.get? p).isSome = (s.entries.get? p).isSome := by
  obtain ⟨c, hc, hk, -, hr⟩ := h.exists_call hs
  have hslot : s.flights.slots.get? p ≠ none := fun hnone => by rw [h.1] at hnone; cases hnone
  -- the flight goes on in its slot unless it ended in this action or lost the slot
  have hgone : ∀ {c'}, (s.act a).flights.call? n = some c' → c'.status = c.status →
      (∃ c, (s.act a).flights.call? n = some c ∧ c.isRunning = true) ∧
        (s.act a).flights.slots.get? p ≠ some n := fun {c'} hc' hst =>
    have hr' : c'.isRunning = true := (isRunning_congr hst).trans hr
    ⟨⟨c', hc', hr'⟩, fun hslot => hover ⟨hslot, c', hc', hr'⟩⟩
  by_cases hf : ∃ m, a = .step (.flight m)
  · obtain ⟨m, rfl⟩ := hf
    have hsteps : ReflTransGen (FlightStep m) s (s.act (.step (.flight m))) :=
      flightSteps_runFlight s m
    have hslots := slots_of_flightSteps hsteps
    by_cases hmn : n = m
    · subst hmn
      obtain ⟨-, ⟨w, hcu, -⟩ | ⟨o, hcu, hl, -⟩⟩ := leaves_of_flightSteps hsteps hs hc hr
      · exact absurd ⟨hslots ▸ h.1, _, hcu, rfl⟩ hover
      · exact .inl ⟨rfl, _, o, hcu, hk, rfl, hslots, hk ▸ hl⟩
    · have hcu := call?_of_flightSteps_of_ne hsteps hmn
      exact absurd ⟨hslots ▸ h.1, c, hcu.trans hc, hr⟩ hover
  · have hf' : ∀ m, a ≠ .step (.flight m) := fun m hm => hf ⟨m, hm⟩
    have hkept := isSome_entries_act hf' hslot
    rcases act_cases ha with ⟨m, hm⟩ | hshifts | ⟨rs, hrs, -⟩
    · exact absurd hm (hf' m)
    · obtain ⟨c', hc', -, hst⟩ := exists_call?_of_shifts hshifts hc
      obtain ⟨hrun, hne⟩ := hgone hc' hst
      exact .inr ⟨hrun, hne, hf', hkept⟩
    · -- callers that are cancelled leave all flights as they are
      have hc' : (s.act a).flights.call? n = some c := by rw [hrs]; exact hc
      obtain ⟨hrun, hne⟩ := hgone hc' rfl
      exact .inr ⟨hrun, hne, hf', hkept⟩

end HashedAssets.Resolver
