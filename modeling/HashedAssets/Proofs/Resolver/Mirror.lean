import HashedAssets.Proofs.Resolver.Changes

/-!
# The graph and what is kept

A resolver finds what depends on an asset through the edges of its graph. These are meant to be those
that were recorded with the kept results, and they are, but for the paths that have lost them: when a
flight that checks a kept result fails or is asked to stop, the edges are taken back and the result
stays.

* `Mirrored`: the edges of each path, up to those lost;
* `lostBy_trans`: a flight loses in a piece what it loses in its moves;
* `Course.induction`: what every move keeps, a whole run keeps; `Course.mirrored`: it keeps this.
-/

namespace HashedAssets.Resolver

open SingleFlight Relation

/-! ### Edges up to those lost -/

/-- A flight that may have edges without a kept result: it waits for its targets, or has ended in a
failure that does not lie in the assets. -/
def LeavesEdges (c : Flight) : Prop :=
  (∃ a es kept children, c.status = .running (.gathering a es kept children)) ∨
    ∃ f : Failure, c.status = .finished (.result (.error f)) ∧ f.isOfAsset = false

/-- The edges of a kept result, and of an asset that is resolved anew, are in the graph unless they are
lost; no other path has edges, unless a flight has left them. -/
structure Mirrored (s : Resolver) (lost : List String) : Prop where
  entry : ∀ p e, s.entries.get? p = some e →
    s.graph.edgesOf p = if p ∈ lost then [] else e.resolved.edges
  fresh : ∀ n c a es children, s.flights.call? n = some c → c.cancelled = false →
    c.status = .running (.gathering a es none children) →
    s.graph.edgesOf c.key = if c.key ∈ lost then [] else es
  other : ∀ p, s.entries.get? p = none → s.graph.edgesOf p ≠ [] →
    ∃ n c, s.flights.call? n = some c ∧ c.key = p ∧ LeavesEdges c

variable {s u : Resolver} {lost lost' : List String} {n : CallId} {c : Flight}

theorem Mirrored.make (x : Context) (c : Catalog) (watch : Option Watch) :
    Mirrored (make x c watch) [] where
  entry p e h := by cases h
  fresh n c a es children h := by cases h
  other p _ h := absurd rfl h

/-- Only the keys and states of calls matter, and which of them are asked to stop. -/
theorem Mirrored.calls (h : Mirrored s lost) {t : Table Phase Answer} {rs : List Request}
    (ht : ∀ m, (t.call? m).map (fun c => (c.key, c.status)) =
      (s.flights.call? m).map fun c => (c.key, c.status))
    (hgo : ∀ m c c', s.flights.call? m = some c → t.call? m = some c' → c'.cancelled = false →
      c.cancelled = false) : Mirrored { s with flights := t, requests := rs } lost where
  entry := h.entry
  fresh m c a es children hc hcgo hs := by
    have hm := ht m
    rw [show t.call? m = some c from hc] at hm
    obtain ⟨c₀, hc₀, he⟩ := Option.map_eq_some_iff.1 hm.symm
    obtain ⟨hkey, hstatus⟩ := Prod.mk.inj he
    rw [← hkey]
    exact h.fresh m c₀ a es children hc₀ (hgo m c₀ c hc₀ hc hcgo) (hstatus.trans hs)
  other p hp he := by
    obtain ⟨m, c, hc, hkey, hl⟩ := h.other p hp he
    have hm := ht m
    rw [hc] at hm
    obtain ⟨c', hc', he'⟩ := Option.map_eq_some_iff.1 hm
    obtain ⟨hkey', hstatus⟩ := Prod.mk.inj he'
    refine ⟨m, c', hc', hkey'.trans hkey, ?_⟩
    unfold LeavesEdges at *
    rw [hstatus]
    exact hl

theorem Mirrored.lapse (h : Mirrored s lost) (hs : Coherent s) (hm : Lapse s u) :
    Mirrored u lost := by
  cases hm with
  | quiet hq => cases hq; exact ⟨h.entry, h.fresh, h.other⟩
  | @drop p hidle =>
      refine ⟨fun q e he => ?_, fun m c a es children hc hgo hst => ?_, fun q hq he => ?_⟩
      · obtain ⟨hne, he⟩ := get?_of_get?_erase he
        rw [Graph.edgesOf_setEdges_nil, if_neg hne]
        exact h.entry q e he
      · have hslot := hs.wired.held m c hc (isRunning_of_status hst) hgo
        have hne : c.key ≠ p := fun hk => by rw [hk, hidle] at hslot; cases hslot
        rw [Graph.edgesOf_setEdges_nil, if_neg hne]
        exact h.fresh m c a es children hc hgo hst
      · rw [Graph.edgesOf_setEdges_nil] at he
        rw [PathMap.get?_erase] at hq
        split at he
        · exact absurd rfl he
        · next hne => rw [if_neg hne] at hq; exact h.other q hq he
  | defer _ => exact ⟨h.entry, h.fresh, h.other⟩
  | mark p =>
      refine ⟨fun q e he => ?_, h.fresh, fun q hq he => h.other q ?_ he⟩
      · obtain ⟨e₀, he₀, ⟨-, rfl⟩ | ⟨-, rfl⟩⟩ := of_get?_modify he
        · exact h.entry q e₀ he₀
        · exact h.entry q e he₀
      · have hq' : (s.entries.modify p fun e => { e with needsCheck := true }).get? q = none := hq
        rw [PathMap.get?_modify] at hq'
        split at hq'
        · next hqp => subst hqp; exact Option.map_eq_none_iff.1 hq'
        · exact hq'

theorem Mirrored.lapses (h : Mirrored s lost) (hs : Coherent s) (hl : ReflTransGen Lapse s u) :
    Coherent u ∧ Mirrored u lost := by
  induction hl with
  | refl => exact ⟨hs, h⟩
  | tail _ hm ih => exact ⟨ih.1.lapse hm, ih.2.lapse ih.1 hm⟩

theorem Mirrored.launch (h : Mirrored s lost) {slots : PathMap CallId} {p : String}
    {rs : List Request} :
    Mirrored { s with
      flights := ⟨slots, s.flights.calls ++ [(⟨p, .running .launched, 1, false⟩ : Flight)]⟩
      requests := rs } lost where
  entry := h.entry
  fresh m c a es children hc hgo hs := by
    rcases Table.call?_append_cases hc with ⟨-, rfl⟩ | hc
    · cases hs
    · exact h.fresh m c a es children hc hgo hs
  other q hq he := by
    obtain ⟨m, c, hc, hkey, hl⟩ := h.other q hq he
    refine ⟨m, c, ?_, hkey, hl⟩
    rw [Table.call?_append, if_neg (Nat.ne_of_lt (Table.lt_of_call?_eq_some hc))]
    exact hc

theorem Mirrored.shift (h : Mirrored s lost) (hs : Coherent s) (hm : Shift s u) :
    Mirrored u lost := by
  have hsame : ∀ m c c', s.flights.call? m = some c → s.flights.call? m = some c' →
      c'.cancelled = false → c.cancelled = false := fun m c c' hc hc' hgo => by
    rw [hc] at hc'; cases hc'; exact hgo
  cases hm with
  | lapse hl => exact h.lapse hs hl
  | ask t => exact h.calls (fun _ => rfl) hsame
  | @forget n _ _ _ =>
      refine h.calls (fun m => ?_) fun m c c' hc hc' hgo => ?_
      · rw [Table.call?_forget]
      · rw [Table.call?_forget] at hc'
        exact hsame m c c' hc hc' hgo
  | request hr hreq =>
      cases hreq with
      | quit _ _ => exact h.calls (fun _ => rfl) hsame
      | refuse _ _ _ => exact h.calls (fun _ => rfl) hsame
      | hit _ _ _ _ _ _ _ => exact h.calls (fun _ => rfl) hsame
      | join _ _ _ _ =>
          refine h.calls (fun m => ?_) fun m c c' hc hc' hgo => ?_
          · rw [Table.call?_modify]
            split
            · cases s.flights.call? m <;> rfl
            · rfl
          · rw [Table.call?_modify, hc] at hc'
            split at hc' <;> (cases hc'; exact hgo)
      | launch _ _ _ _ _ _ => exact h.launch
      | take _ _ _ _ =>
          exact h.calls (fun m => Table.call?_detach _ _ m)
            fun m c c' hc hc' hgo => Table.cancelled_detach hc hc' hgo

/-! ### Flights -/

/-- What a flight does to which paths have lost their edges. -/
theorem lostBy_eq {c' : Flight} (hc : s.flights.call? n = some c) (hc' : u.flights.call? n = some c') :
    s.lostBy u n lost = lostWith c.key lost (turn (s.entries.contains c.key) c c') := by
  simp only [lostBy, hc, hc']

/-- A flight that takes its edges back has lost them. -/
theorem Mirrored.takenBack (h : Mirrored s lost) (hc : s.flights.call? n = some c)
    {o : Outcome Answer} (hentries : u.entries = s.entries)
    (hflights : u.flights = s.flights.finish n o)
    (hgraph : ∀ q, u.graph.edgesOf q = if q = c.key then [] else s.graph.edgesOf q) :
    Mirrored u (c.key :: lost.filter (· != c.key)) := by
  have hlost : ∀ q, q ≠ c.key → (q ∈ c.key :: lost.filter (· != c.key) ↔ q ∈ lost) := fun q hq => by
    simp [hq]
  refine ⟨fun q e he => ?_, fun m c' a es children hc' hgo hs => ?_, fun q hq he => ?_⟩
  · rw [hentries] at he
    rw [hgraph]
    split
    · next hk => rw [if_pos (by simp [hk])]
    · next hk => rw [h.entry q e he]; simp only [hlost q hk]
  · obtain ⟨-, hc'⟩ := Table.call?_of_finish (hflights ▸ hc') (isRunning_of_status hs)
    rw [hgraph]
    split
    · next hk => rw [if_pos (by simp [hk])]
    · next hk => rw [h.fresh m c' a es children hc' hgo hs]; simp only [hlost _ hk]
  · rw [hgraph] at he
    rw [hentries] at hq
    split at he
    · exact absurd rfl he
    · next hk =>
        obtain ⟨m, c', hc', hkey, hl⟩ := h.other q hq he
        refine ⟨m, c', ?_, hkey, hl⟩
        rw [hflights, Table.call?_finish, if_neg (Table.ne_of_key_ne hc hc' (hkey ▸ hk))]
        exact hc'

/-- A flight ends and leaves the edges as they are. -/
theorem Mirrored.finished (h : Mirrored s lost) (hc : s.flights.call? n = some c)
    {o : Outcome Answer} (hentries : u.entries = s.entries)
    (hflights : u.flights = s.flights.finish n o) (hgraph : u.graph = s.graph)
    (ho : LeavesEdges c → LeavesEdges { c with status := .finished o }) : Mirrored u lost := by
  refine ⟨fun q e he => ?_, fun m c' a es children hc' hgo hs => ?_, fun q hq he => ?_⟩
  · rw [hgraph]; rw [hentries] at he; exact h.entry q e he
  · obtain ⟨-, hc'⟩ := Table.call?_of_finish (hflights ▸ hc') (isRunning_of_status hs)
    rw [hgraph]
    exact h.fresh m c' a es children hc' hgo hs
  · rw [hgraph] at he
    rw [hentries] at hq
    obtain ⟨m, c', hc', hkey, hl⟩ := h.other q hq he
    by_cases hmn : m = n
    · subst hmn
      rw [hc] at hc'; cases hc'
      exact ⟨m, { c with status := .finished o }, by rw [hflights]; exact call?_finish_self hc o,
        hkey, ho hl⟩
    · exact ⟨m, c', by rw [hflights, Table.call?_finish, if_neg hmn]; exact hc', hkey, hl⟩

theorem not_leavesEdges_of_status {w : Phase} (hs : c.status = .running w)
    (hw : ∀ a es kept children, w ≠ .gathering a es kept children) : ¬LeavesEdges c := by
  rintro (⟨a, es, kept, children, h⟩ | ⟨f, h, -⟩)
  · rw [hs] at h; cases h; exact hw _ _ _ _ rfl
  · rw [hs] at h; cases h

/-- A flight comes to wait for its targets. -/
theorem Mirrored.await (h : Mirrored s lost) (hc : s.flights.call? n = some c) {a : Prepared}
    {es : List Edge} {kept : Option Resolved}
    (hfresh : c.cancelled = false → kept = none →
      s.graph.edgesOf c.key = if c.key ∈ lost then [] else es) :
    Mirrored (s.await n a es kept) lost := by
  refine ⟨h.entry, fun m c' a' es' children hc' hgo hs => ?_, fun q hq he => ?_⟩
  · rcases Table.call?_modify_cases hc' with ⟨rfl, c₀, hc₀, rfl⟩ | ⟨-, hc'⟩
    · rw [hc] at hc₀; cases hc₀
      cases hs
      exact hfresh hgo rfl
    · exact h.fresh m c' a' es' children hc' hgo hs
  · obtain ⟨m, c', hc', hkey, hl⟩ := h.other q hq he
    by_cases hmn : m = n
    · subst hmn
      rw [hc] at hc'; cases hc'
      exact ⟨m, _, call?_await_self hc a es kept, hkey, .inl ⟨_, _, _, _, rfl⟩⟩
    · exact ⟨m, c', by rw [Resolver.await, Table.call?_progress, if_neg hmn]; exact hc', hkey, hl⟩

/-- A failure that does not lie in the assets comes to a flight that waits for its targets. -/
theorem FailCause.exists_gathering {f : Failure} (h : FailCause s c f) (hf : f.isOfAsset = false) :
    ∃ a es kept children, c.status = .running (.gathering a es kept children) := by
  cases h with
  | unregistered _ hget =>
      obtain ⟨-, rfl⟩ := Catalog.get_eq_error hget
      cases hf
  | unread _ _ => cases hf
  | unprepared _ _ _ hp => rw [Context.prepare_eq_error_isOfAsset hp] at hf; cases hf
  | target hs _ _ => exact ⟨_, _, _, _, hs⟩
  | unresolved hs _ _ => exact ⟨_, _, _, _, hs⟩

theorem turn_fail {b : Bool} {f : Failure} (hr : c.isRunning = true) (hf : f.isOfAsset = true) :
    turn b c { c with status := .finished (.result (.error f)) } = some true := by
  obtain ⟨k, st, w, x⟩ := c
  cases st with
  | running w => cases w <;> simp [turn, hf]
  | finished o => cases hr

theorem turn_of_gathering {b : Bool} {a : Prepared} {es : List Edge} {kept : Option Resolved}
    {children : List RequestId} (hs : c.status = .running (.gathering a es kept children))
    {o : Outcome Answer} (ho : ∀ f, o = .result (.error f) → f.isOfAsset = false)
    (hcancelled : o ≠ .cancelled) : turn b c { c with status := .finished o } = none := by
  obtain ⟨k, st, w, x⟩ := c
  cases hs
  match o with
  | .cancelled => exact absurd rfl hcancelled
  | .result (.error f) => simp [turn, ho f rfl, Phase.loads]
  | .result (.ok r) => simp [turn, Phase.loads]

/-- A flight asks its source. -/
theorem Mirrored.hold (h : Mirrored s lost) (hc : s.flights.call? n = some c)
    (hs : c.status = .running .launched) {cat : Catalog} {fetched : Catalog.Fetch} :
    Mirrored { s with catalog := cat, flights := s.flights.progress n (.loading fetched) } lost where
  entry := h.entry
  fresh m c' a es children hc' hgo hst := by
    rcases Table.call?_modify_cases hc' with ⟨-, c₀, -, rfl⟩ | ⟨-, hc'⟩
    · cases hst
    · exact h.fresh m c' a es children hc' hgo hst
  other q hq he := by
    obtain ⟨m, c', hc', hkey, hl⟩ := h.other q hq he
    refine ⟨m, c', ?_, hkey, hl⟩
    have hmn : m ≠ n := by
      rintro rfl
      rw [hc] at hc'; cases hc'
      exact not_leavesEdges_of_status hs (fun _ _ _ _ hw => by cases hw) hl
    rw [Table.call?_progress, if_neg hmn]
    exact hc'

/-- The edges of an asset are in the graph while its flight waits for its targets. -/
theorem Mirrored.gathering (h : Mirrored s lost) (hs : Coherent s) (hc : s.flights.call? n = some c)
    (hgo : c.cancelled = false) {a : Prepared} {es : List Edge} {kept : Option Resolved}
    {children : List RequestId} (hst : c.status = .running (.gathering a es kept children)) :
    s.graph.edgesOf c.key = if c.key ∈ lost then [] else es := by
  cases kept with
  | none => exact h.fresh n c a es children hc hgo hst
  | some k =>
      obtain ⟨e₀, he₀, -, hr, -, hk⟩ := hs.tended.exists_entry hc hgo hst
      rw [h.entry c.key e₀ he₀, hr, hk]

/-- A result is recorded with edges that are in the graph already. -/
theorem Landing.edgesOf (h : Mirrored s lost) (hs : Coherent s) (hc : s.flights.call? n = some c)
    (hgo : c.cancelled = false) {m : PathMap Entry} {r : Resolved} (hl : Landing s c m r) :
    s.graph.edgesOf c.key = if c.key ∈ lost then [] else r.edges := by
  obtain ⟨-, e, -, -, -, kept, children, hst⟩ := hl.get? hs hc hgo
  exact h.gathering hs hc hgo hst

theorem Mirrored.land (h : Mirrored s lost) (hs : Coherent s) (hc : s.flights.call? n = some c)
    (hgo : c.cancelled = false) {m : PathMap Entry} {r : Resolved} (hl : Landing s c m r)
    (o : Outcome Answer) : Mirrored ({ s with entries := m }.ended n o) lost := by
  have hedges := hl.edgesOf h hs hc hgo
  obtain ⟨hm, e, he, -, hr, -⟩ := hl.get? hs hc hgo
  refine ⟨fun q e' he' => ?_, fun k c' a es children hc' hgo' hst => ?_, fun q hq hne => ?_⟩
  · by_cases hk : q = c.key
    · subst hk
      have he'' : m.get? c.key = some e' := he'
      rw [he] at he''; cases he''
      rw [hr]
      exact hedges
    · exact h.entry q e' ((hm q hk).symm.trans he')
  · obtain ⟨-, hc'⟩ := Table.call?_of_finish hc' (isRunning_of_status hst)
    exact h.fresh k c' a es children hc' hgo' hst
  · have hk : q ≠ c.key := by
      rintro rfl
      have hq' : m.get? c.key = none := hq
      rw [he] at hq'; cases hq'
    obtain ⟨k, c', hc', hkey, hle⟩ := h.other q ((hm q hk).symm.trans hq) hne
    refine ⟨k, c', ?_, hkey, hle⟩
    rw [ended, Table.call?_finish, if_neg (Table.ne_of_key_ne hc hc' (hkey ▸ hk))]
    exact hc'

/-- What is dropped when a flight ends has no edges any more. -/
theorem Mirrored.discard (h : Mirrored s lost) (hs : Coherent s) (hc : s.flights.call? n = some c)
    (hgo : c.cancelled = false) {m : PathMap Entry} {r : Resolved} (hl : Landing s c m r)
    (o : Outcome Answer) :
    Mirrored (({ s with entries := m.erase c.key }.takeBack c.key).ended n o) lost := by
  obtain ⟨hm, -⟩ := hl.get? hs hc hgo
  have hentries : ∀ q, (m.erase c.key).get? q = if q = c.key then none else s.entries.get? q :=
    fun q => by
      rw [PathMap.get?_erase]
      split
      · rfl
      · next hk => exact hm q hk
  have hgraph : ∀ q, (({ s with entries := m.erase c.key }.takeBack c.key).ended n o).graph.edgesOf q
      = if q = c.key then [] else s.graph.edgesOf q := fun q => Graph.edgesOf_setEdges_nil c.key q
  refine ⟨fun q e he => ?_, fun k c' a es children hc' hgo' hst => ?_, fun q hq hne => ?_⟩
  · have he' : (m.erase c.key).get? q = some e := he
    rw [hentries] at he'
    rw [hgraph]
    split at he'
    · cases he'
    · next hk => rw [if_neg hk]; exact h.entry q e he'
  · obtain ⟨hkn, hc'⟩ := Table.call?_of_finish hc' (isRunning_of_status hst)
    have hne : c'.key ≠ c.key := fun hk =>
      hkn (hs.wired.eq_of_key hc hl.isRunning hgo hc' (isRunning_of_status hst) hgo' hk)
    rw [hgraph, if_neg hne]
    exact h.fresh k c' a es children hc' hgo' hst
  · rw [hgraph] at hne
    have hq' : (m.erase c.key).get? q = none := hq
    rw [hentries] at hq'
    split at hne
    · exact absurd rfl hne
    · next hk =>
        rw [if_neg hk] at hq'
        obtain ⟨k, c', hc', hkey, hle⟩ := h.other q hq' hne
        refine ⟨k, c', ?_, hkey, hle⟩
        rw [ended, Table.call?_finish, if_neg (Table.ne_of_key_ne hc hc' (hkey ▸ hk))]
        exact hc'

/-- A flight that has read its source writes its edges. -/
theorem Mirrored.gather (h : Mirrored s lost) (hs : Coherent s) (hc : s.flights.call? n = some c)
    (hgo : c.cancelled = false) {fetched : Catalog.Fetch}
    (hst : c.status = .running (.loading fetched)) {a : Prepared} {es : List Edge}
    (hes : Edge.Sorted c.key es) :
    Mirrored ({ s with graph := s.graph.setEdges c.key es }.await n a es none)
      (lost.filter (· != c.key)) := by
  -- edges are drawn for a path of which nothing is kept: they are those of the flight that gathers
  have habsent := hs.tended.absent hc hgo (.inl ⟨fetched, hst⟩)
  have hlost : ∀ q, q ∈ lost.filter (· != c.key) ↔ q ∈ lost ∧ q ≠ c.key := fun q => by
    simp [List.mem_filter]
  have hgraph : ∀ q, (s.graph.setEdges c.key es).edgesOf q
      = if q = c.key then es else s.graph.edgesOf q := Graph.edgesOf_setEdges hes
  refine ⟨fun q e he => ?_, fun k c' a' es' children hc' hgo' hst' => ?_, fun q hq hne => ?_⟩
  · have hk : q ≠ c.key := by
      rintro rfl
      rw [show s.entries.get? c.key = some e from he] at habsent
      cases habsent
    show (s.graph.setEdges c.key es).edgesOf q = _
    rw [hgraph, if_neg hk, h.entry q e he]
    simp only [hlost, hk, ne_eq, not_false_iff, and_true]
  · show (s.graph.setEdges c.key es).edgesOf c'.key = _
    rcases Table.call?_modify_cases hc' with ⟨rfl, c₀, hc₀, rfl⟩ | ⟨hkn, hc'⟩
    · obtain rfl : c = c₀ := Option.some.inj (hc.symm.trans hc₀)
      cases hst'
      rw [hgraph, if_pos rfl, if_neg (by simp)]
    · have hne : c'.key ≠ c.key := fun hk => hkn (hs.wired.eq_of_key hc
        (isRunning_of_status hst) hgo hc' (isRunning_of_status hst') hgo' hk)
      rw [hgraph, if_neg hne, h.fresh k c' a' es' children hc' hgo' hst']
      simp only [hlost, hne, ne_eq, not_false_iff, and_true]
  · have hne' : (s.graph.setEdges c.key es).edgesOf q ≠ [] := hne
    rw [hgraph] at hne'
    by_cases hk : q = c.key
    · exact ⟨n, _, call?_await_self hc a es none, hk.symm, .inl ⟨_, _, _, _, rfl⟩⟩
    · rw [if_neg hk] at hne'
      obtain ⟨k, c', hc', hkey, hle⟩ := h.other q hq hne'
      refine ⟨k, c', ?_, hkey, hle⟩
      rw [Resolver.await, Table.call?_progress, if_neg (Table.ne_of_key_ne hc hc' (hkey ▸ hk))]
      exact hc'

/-- A move of a flight keeps the graph in step, up to the edges that the flight takes back. -/
theorem Mirrored.flight (h : Mirrored s lost) (hs : Coherent s) (hc : s.flights.call? n = some c)
    (hm : FlightMove s n c u) : Mirrored u (s.lostBy u n lost) := by
  cases hm with
  | stop hst hcan =>
      rw [lostBy_eq hc (call?_finish_self hc _)]
      have hturn : turn (s.entries.contains c.key) c { c with status := .finished .cancelled }
          = none := by simp [turn, hst, hcan]
      rw [hturn]
      exact h.finished hc rfl rfl rfl fun hl =>
        absurd hl (not_leavesEdges_of_status hst fun _ _ _ _ hw => by cases hw)
  | @abandon w hst hbegun _ =>
      rw [lostBy_eq hc (call?_finish_self hc _)]
      have hturn : turn (s.entries.contains c.key) c { c with status := .finished .cancelled }
          = some true := by
        cases w with
        | launched => exact absurd rfl hbegun
        | loading _ => simp [turn, hst]
        | gathering _ _ _ _ => simp [turn, hst]
      rw [hturn]
      exact h.takenBack hc rfl rfl (Graph.edgesOf_setEdges_nil c.key)
  | @hold d hst hgo _ _ =>
      have hcall : (s.flights.progress n (.loading (s.catalog.fetch d).1)).call? n
          = some { c with status := .running (.loading (s.catalog.fetch d).1) } := by
        rw [Table.call?_progress, if_pos rfl, hc]; rfl
      rw [lostBy_eq hc hcall]
      have hturn : turn (s.entries.contains c.key) c
          { c with status := .running (.loading (s.catalog.fetch d).1) } = none := by
        simp [turn, hst]
      rw [hturn]
      exact h.hold hc hst
  | recheck hst hgo he _ =>
      rw [lostBy_eq hc (call?_await_self hc _ _ _)]
      have hkept : s.entries.contains c.key = true := by simp [PathMap.contains, he]
      rw [show turn _ c _ = none by simp [turn, hst, hkept, Phase.loads]]
      exact h.await hc fun _ hnone => by cases hnone
  | @gather fetched raw d a es hst hgo _ hd hp _ =>
      rw [lostBy_eq hc (call?_await_self (s := { s with graph := s.graph.setEdges c.key es }) hc _ _ _),
        show turn _ c _ = some false by simp [turn, hst, Phase.loads]]
      exact h.gather hs hc hgo hst (hs.sorted_of_prepare hd hp)
  | cycle hst hgo _ hd hp _ =>
      rw [lostBy_eq hc (call?_finish_self hc _), turn_fail (isRunning_of_status hst) rfl]
      refine h.takenBack hc rfl rfl fun q => ?_
      show ((s.graph.setEdges c.key _).setEdges c.key []).edgesOf q = _
      rw [Graph.edgesOf_setEdges_nil, Graph.edgesOf_setEdges (hs.sorted_of_prepare hd hp)]
      split <;> rfl
  | fail hgo hcause hf =>
      rw [lostBy_eq hc (call?_finish_self hc _), turn_fail hcause.isRunning hf]
      exact h.takenBack hc rfl rfl (Graph.edgesOf_setEdges_nil c.key)
  | crash hgo hcause hf =>
      obtain ⟨a, es, kept, children, hst⟩ := hcause.exists_gathering hf
      rw [lostBy_eq hc (call?_finish_self hc _), turn_of_gathering hst
        (fun f hf' => by cases hf'; exact hf) (by simp)]
      exact h.finished hc rfl rfl rfl fun _ => .inr ⟨_, rfl, hf⟩
  | land hgo hl _ =>
      obtain ⟨a, es, kept, children, hst⟩ := hl.exists_gathering
      rw [lostBy_eq hc (call?_finish_self hc _), turn_of_gathering hst (by simp) (by simp)]
      exact h.land hs hc hgo hl _
  | discard hgo hl _ =>
      obtain ⟨a, es, kept, children, hst⟩ := hl.exists_gathering
      rw [lostBy_eq hc (call?_finish_self hc _), turn_of_gathering hst (by simp) (by simp)]
      exact h.discard hs hc hgo hl _

/-! ### Pieces and runs -/

theorem call?_of_flightSteps (h : ReflTransGen (FlightStep n) s u) (hc : s.flights.call? n = some c) :
    ∃ st, u.flights.call? n = some { c with status := st } ∧
      (st = c.status ∨ rank c.status < rank st) := by
  induction h with
  | refl => exact ⟨c.status, hc, .inl rfl⟩
  | tail _ hm ih =>
      obtain ⟨st, hst, hrank⟩ := ih
      rcases hm with hq | ⟨c', hc', hm⟩
      · cases hq; exact ⟨st, hst, hrank⟩
      · rw [hst] at hc'; cases hc'
        obtain ⟨st', hst', hrank'⟩ := hm.call? hst
        refine ⟨st', hst', .inr ?_⟩
        rcases hrank with rfl | hrank
        · exact hrank'
        · exact Nat.lt_trans hrank hrank'

theorem turn_self (b : Bool) (c : Flight) : turn b c c = none := by
  obtain ⟨k, st, w, x⟩ := c
  match st with
  | .running .launched => rfl
  | .running (.loading _) => rfl
  | .running (.gathering ..) => rfl
  | .finished _ => rfl

theorem lostBy_of_flights_eq {t : Resolver} (h : t.flights = s.flights) (n : CallId)
    (lost : List String) : s.lostBy t n lost = lost := by
  cases hc : s.flights.call? n with
  | none => simp [lostBy, hc]
  | some c => rw [lostBy_eq hc (h ▸ hc), turn_self]; rfl

/-- A flight that has ended does nothing more to its edges. -/
theorem lostBy_trans_finished {t : Resolver} {o : Outcome Answer}
    (hc : s.flights.call? n = some c)
    (ht : t.flights.call? n = some { c with status := .finished o })
    (hu : ReflTransGen (FlightStep n) t u) (lost : List String) :
    t.lostBy u n (s.lostBy t n lost) = s.lostBy u n lost := by
  obtain ⟨st, hst, hrank⟩ := call?_of_flightSteps hu ht
  have hst' : st = .finished o := by
    rcases hrank with h | h
    · exact h
    · exact absurd (rank_le st) (Nat.not_le.2 h)
  subst hst'
  rw [lostBy_eq ht hst, lostBy_eq hc ht, lostBy_eq hc hst, turn_self]
  rfl

/-- A flight that has asked its source goes on as one that is about to. -/
theorem turn_of_launched (hst : c.status = .running .launched) (hgo : c.cancelled = false)
    {fetched : Catalog.Fetch} {st : SingleFlight.Status Phase Answer}
    (hrank : 0 < rank st) (b : Bool) :
    turn b { c with status := .running (.loading fetched) } { c with status := st }
      = turn false c { c with status := st } := by
  cases st with
  | running w =>
      cases w with
      | launched => cases hrank
      | loading _ => simp [turn, hst]
      | gathering _ _ _ _ => simp [turn, hst, Phase.loads]
  | finished o =>
      cases o with
      | cancelled => simp [turn, hst, hgo]
      | result r => cases r <;> simp [turn, hst, Phase.loads]

/-- A flight that checks a kept result neither writes edges before it waits nor afterwards. -/
theorem turn_of_checked (hst : c.status = .running .launched) (hgo : c.cancelled = false)
    {a : Prepared} {es : List Edge} {kept : Option Resolved} {children : List RequestId}
    {st : SingleFlight.Status Phase Answer} (hrank : 1 < rank st) (b : Bool) :
    turn b { c with status := .running (.gathering a es kept children) } { c with status := st }
      = turn true c { c with status := st } := by
  cases st with
  | running w =>
      cases w with
      | launched => cases hrank
      | loading _ => exact absurd hrank (Nat.lt_irrefl 1)
      | gathering _ _ _ _ => simp [turn, hst, Phase.loads]
  | finished o =>
      cases o with
      | cancelled => simp [turn, hst, hgo]
      | result r => cases r <;> simp [turn, hst, Phase.loads]

/-- A flight that has loaded its asset has written the edges, whatever it does next. -/
theorem lostWith_turn_of_loading {fetched : Catalog.Fetch}
    (hst : c.status = .running (.loading fetched)) {a : Prepared} {es : List Edge}
    {kept : Option Resolved} {children : List RequestId}
    {st : SingleFlight.Status Phase Answer} (hrank : 1 < rank st) (b : Bool) (p : String)
    (lost : List String) :
    lostWith p (lostWith p lost (some false))
        (turn b { c with status := .running (.gathering a es kept children) }
          { c with status := st })
      = lostWith p lost (turn b c { c with status := st }) := by
  cases st with
  | running w =>
      cases w with
      | launched => cases hrank
      | loading _ => exact absurd hrank (Nat.lt_irrefl 1)
      | gathering _ _ _ _ => simp [turn, hst, Phase.loads, lostWith]
  | finished o =>
      cases o with
      | cancelled => simp [turn, hst, lostWith, List.filter_filter]
      | result r =>
          cases r with
          | ok _ => simp [turn, hst, Phase.loads, lostWith]
          | error f =>
              cases hf : f.isOfAsset <;>
                simp [turn, hst, hf, Phase.loads, lostWith, List.filter_filter]

/-- What a flight does to its edges in two parts of a piece it does in the whole piece. -/
theorem lostBy_trans {t : Resolver} (hs : Coherent s) (hm : FlightStep n s t)
    (hu : ReflTransGen (FlightStep n) t u) (lost : List String) :
    t.lostBy u n (s.lostBy t n lost) = s.lostBy u n lost := by
  rcases hm with hq | ⟨c, hc, hm⟩
  · have hflights : t.flights = s.flights := by cases hq; rfl
    rw [lostBy_of_flights_eq hflights]
    cases hq
    rfl
  · cases hm with
    | stop _ _ => exact lostBy_trans_finished hc (call?_finish_self hc _) hu lost
    | abandon _ _ _ => exact lostBy_trans_finished hc (call?_finish_self hc _) hu lost
    | cycle _ _ _ _ _ _ => exact lostBy_trans_finished hc (call?_finish_self hc _) hu lost
    | fail _ _ _ => exact lostBy_trans_finished hc (call?_finish_self hc _) hu lost
    | crash _ _ _ => exact lostBy_trans_finished hc (call?_finish_self hc _) hu lost
    | land _ _ _ => exact lostBy_trans_finished hc (call?_finish_self hc _) hu lost
    | discard _ _ _ => exact lostBy_trans_finished hc (call?_finish_self hc _) hu lost
    | @hold d hst hgo hunmarked _ =>
        -- nothing is kept, or it would be checked
        have hnone : s.entries.contains c.key = false := by
          simp [PathMap.contains, hs.tended.absent_of_launched hc hgo hst hunmarked]
        have ht : (s.flights.progress n (.loading (s.catalog.fetch d).1)).call? n
            = some { c with status := .running (.loading (s.catalog.fetch d).1) } := by
          rw [Table.call?_progress, if_pos rfl, hc]
          rfl
        obtain ⟨st, hst', hrank⟩ := call?_of_flightSteps hu ht
        have hturn : turn false { c with status := .running (.loading (s.catalog.fetch d).1) }
            { c with status := st } = turn false c { c with status := st } :=
          turn_of_launched hst hgo (hrank.elim (fun h => h ▸ Nat.zero_lt_one)
            (Nat.lt_trans Nat.zero_lt_one)) false
        rw [lostBy_eq ht hst', lostBy_eq hc ht, lostBy_eq hc hst', hnone,
          show turn false c { c with status := .running (.loading (s.catalog.fetch d).1) } = none by
            simp [turn, hst]]
        exact congrArg (lostWith c.key lost) hturn
    | recheck hst hgo he _ =>
        have hkept : s.entries.contains c.key = true := by simp [PathMap.contains, he]
        have ht := call?_await_self hc
        obtain ⟨st, hst', hrank⟩ := call?_of_flightSteps hu (ht _ _ _)
        rw [lostBy_eq (ht _ _ _) hst', lostBy_eq hc (ht _ _ _), lostBy_eq hc hst', hkept,
          show turn true c _ = none by simp [turn, hst, Phase.loads]]
        exact congrArg (lostWith c.key lost) (turn_of_checked hst hgo
          (hrank.elim (fun h => h ▸ Nat.one_lt_two) (Nat.lt_trans Nat.one_lt_two)) _)
    | @gather fetched raw d a es hst hgo _ _ _ _ =>
        have ht := call?_await_self (s := { s with graph := s.graph.setEdges c.key es }) hc a es none
        obtain ⟨st, hst', hrank⟩ := call?_of_flightSteps hu ht
        rw [lostBy_eq ht hst', lostBy_eq hc ht, lostBy_eq hc hst',
          show turn _ c _ = some false by simp [turn, hst, Phase.loads]]
        exact lostWith_turn_of_loading hst
          (hrank.elim (fun h => h ▸ Nat.one_lt_two) (Nat.lt_trans Nat.one_lt_two)) _ _ _

/-- What every move keeps, with the paths that have lost their edges, a whole run keeps. -/
theorem Course.induction {ok : Action → Prop} {P : Resolver → List String → Prop} {s₀ : Resolver}
    (h : Course ok s₀ s lost) (hs₀ : Coherent s₀) (hP : P s₀ [])
    (hshift : ∀ s u lost, Coherent s → P s lost → Shift s u → P u lost)
    (hflight : ∀ s u n lost, Coherent s → P s lost → FlightStep n s u → P u (s.lostBy u n lost))
    (hcancel : ∀ s rs lost, (∃ i, ok (.cancel i)) → P s lost → Hushed s.requests rs →
      P { s with requests := rs } lost) : P s lost := by
  induction h with
  | refl => exact hP
  | @next t lost a h ha hadm ih =>
      have ht := h.run.coherent hs₀
      by_cases hf : ∃ n, a = .step (.flight n)
      · obtain ⟨n, rfl⟩ := hf
        -- the flight's moves are taken from the first on, since what is lost adds up in this order
        have hsteps : ∀ {v w : Resolver} {lost : List String}, Coherent v → P v lost →
            ReflTransGen (FlightStep n) v w → P w (v.lostBy w n lost) := by
          intro v w lost hv hPv hsteps
          induction hsteps using ReflTransGen.head_induction_on generalizing lost with
          | refl => rwa [lostBy_of_flights_eq rfl]
          | head hm hw ih =>
              rw [← lostBy_trans hv hm hw lost]
              exact ih (hv.flightStep hm) (hflight _ _ _ _ hv hPv hm)
        exact hsteps ht ih (flightSteps_runFlight t n)
      · have hlost : t.lostAfter a lost = lost := by
          unfold lostAfter
          split
          · exact absurd ⟨_, rfl⟩ hf
          · rfl
        rw [hlost]
        by_cases hp : a.Patient
        · have hmoves := shifts_act hadm hp fun n hn => hf ⟨n, hn⟩
          generalize t.act a = u at hmoves
          have hboth : Coherent u ∧ P u lost := by
            induction hmoves with
            | refl => exact ⟨ht, ih⟩
            | tail _ hm ih => exact ⟨ih.1.shift hm, hshift _ _ _ ih.1 ih.2 hm⟩
          exact hboth.2
        · cases a with
          | cancel i =>
              obtain ⟨rs, hrs, hh⟩ := cancel_eq t i
              rw [show t.act (.cancel i) = { t with requests := rs } from hrs]
              exact hcancel t rs lost ⟨i, ha⟩ ih hh
          | _ => exact absurd trivial hp

theorem Mirrored.flightStep (h : Mirrored s lost) (hs : Coherent s) (hm : FlightStep n s u) :
    Mirrored u (s.lostBy u n lost) := by
  rcases hm with hq | ⟨c, hc, hm⟩
  · rw [lostBy_of_flights_eq (by cases hq; rfl)]
    exact h.lapse hs (.quiet hq)
  · exact h.flight hs hc hm

/-- Every run keeps the graph in step with what is kept, up to the edges lost. -/
theorem Course.mirrored {ok : Action → Prop} {x : Context} {cat : Catalog} {watch : Option Watch}
    (hcat : cat.Keyed) (h : Course ok (make x cat watch) s lost) : Mirrored s lost :=
  h.induction (.make hcat watch) (.make x cat watch) (fun _ _ _ hs hP hm => hP.shift hs hm)
    (fun _ _ _ _ hs hP hm => hP.flightStep hs hm)
    (fun _ _ _ _ hP _ => ⟨hP.entry, hP.fresh, hP.other⟩)

end HashedAssets.Resolver
