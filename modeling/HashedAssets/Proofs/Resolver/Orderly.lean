import HashedAssets.Proofs.Resolver.Keeping
import HashedAssets.Proofs.Resolver.Meanwhile

/-!
# Who asked for what

Requests are made by callers or by flights, and a flight is there for those who wait for it. While callers
are patient this order is kept by everything that goes on by itself.

* `Parted`: every request that has not ended is a caller's or one flight's, and is cancelled with that;
* `Honest`: only what has been cancelled ends as cancelled;
* `Latest`: what the last flight of a path has left: its result, or no edges if it was cancelled;
* `Undisturbed`: nobody who waits, and no flight under way, has been cancelled;
* `Orderly.advance`: a move of what goes on by itself, while nobody is disturbed.
-/

namespace HashedAssets.Resolver

open SingleFlight Relation

variable {x : Context} {cat : Catalog} {callers : List RequestId} {s u : Resolver} {m n : CallId}
  {c c' : Flight} {p : String} {i : RequestId} {r r' : Request}

/-! ### The requests of a flight -/

theorem childrenOf_congr
    (h : (u.flights.call? n).map (·.status) = (s.flights.call? n).map (·.status)) :
    u.childrenOf n = s.childrenOf n := by
  unfold childrenOf
  cases hu : u.flights.call? n with
  | none =>
      rw [hu] at h
      rw [Option.map_eq_none_iff.1 h.symm]
  | some c' =>
      rw [hu] at h
      obtain ⟨c, hc, hst⟩ := Option.map_eq_some_iff.1 h.symm
      rw [hc]
      dsimp only
      rw [hst]

theorem childrenOf_of_gathering (hc : s.flights.call? n = some c) {a : Prepared} {es : List Edge}
    {kept : Option Resolved} {children : List RequestId}
    (hst : c.status = .running (.gathering a es kept children)) : s.childrenOf n = children := by
  unfold childrenOf
  rw [hc]
  dsimp only
  rw [hst]

theorem lt_of_mem_childrenOf (hs : Coherent s) (hi : i ∈ s.childrenOf n) : i < s.requests.length := by
  obtain ⟨c, a, es, kept, children, hc, hst, hmem⟩ := exists_of_mem_childrenOf hi
  obtain ⟨r, q, hr, -⟩ := hs.wired.exists_child hc hst hmem
  exact (List.getElem?_eq_some_iff.1 hr).1

theorem isSome_outcome?_iff (hr : s.requests[i]? = some r) :
    (s.outcome? i).isSome = true ↔ r.caller.isDone = true := by
  rw [outcome?, hr]
  rfl

/-! ### Requests of callers and of flights -/

/-- Every request that has not ended was made by one of the callers, or by one flight. As long as the
flight goes on its requests are not cancelled; when it has been asked to stop all of them are. -/
structure Parted (callers : List RequestId) (s : Resolver) : Prop where
  asked : ∀ i ∈ callers, i < s.requests.length
  inner : ∀ {i n}, i ∈ s.childrenOf n → i ∉ callers
  disjoint : ∀ {i m n}, i ∈ s.childrenOf m → i ∈ s.childrenOf n → m = n
  parent : ∀ {i : Nat} {r}, s.requests[i]? = some r → r.caller.isDone = false → i ∉ callers →
    ∃ n, i ∈ s.childrenOf n
  going : ∀ {n c} {i : Nat} {r}, s.flights.call? n = some c → c.cancelled = false →
    i ∈ s.childrenOf n → s.requests[i]? = some r → r.cancelled = false
  stopping : ∀ {n c} {i : Nat} {r}, s.flights.call? n = some c → c.cancelled = true →
    i ∈ s.childrenOf n → s.requests[i]? = some r → r.caller.isDone = false → r.cancelled = true

/-- What has ended as cancelled has been cancelled, and flights that have been cancelled end so. -/
structure Honest (s : Resolver) : Prop where
  requests : ∀ {i : Nat} {r}, s.requests[i]? = some r → r.caller = .done .cancelled → r.cancelled = true
  calls : ∀ {n c o}, s.flights.call? n = some c → c.status = .finished o →
    (o = .cancelled ↔ c.cancelled = true)

/-- No flight for a path began later. -/
def Last (s : Resolver) (p : String) (n : CallId) : Prop :=
  ∀ m c, s.flights.call? m = some c → c.key = p → m ≤ n

/-- What is known of a path comes from its last flight. While that goes on its edges are in the graph once
it has read its source; the results that are kept are those of last flights; a flight that ended as
cancelled has left no edges. -/
structure Latest (s : Resolver) : Prop where
  running : ∀ {n c}, s.flights.call? n = some c → c.isRunning = true → s.Last c.key n
  begun : ∀ {n c}, s.flights.call? n = some c → c.cancelled = true → c.status ≠ .running .launched
  registered : ∀ {n c}, s.flights.call? n = some c → s.catalog.contains c.key = true
  edged : ∀ {n c a es kept children}, s.flights.call? n = some c → c.cancelled = false →
    c.status = .running (.gathering a es kept children) → s.graph.edgesOf c.key = es
  kept : ∀ {p e}, s.entries.get? p = some e → ∃ n c, s.flights.call? n = some c ∧ c.key = p ∧
    c.status = .finished (.result (.ok e.resolved)) ∧ s.Last p n
  torn : ∀ {n c}, s.flights.call? n = some c → c.status = .finished .cancelled → s.Last c.key n →
    s.graph.edgesOf c.key = []

/-- All three. -/
structure Orderly (callers : List RequestId) (s : Resolver) : Prop where
  parted : Parted callers s
  honest : Honest s
  latest : Latest s

/-- No flight under way has been asked to stop, and no request that has not ended is cancelled. -/
structure Undisturbed (s : Resolver) : Prop where
  calls : ∀ {n c}, s.flights.call? n = some c → c.isRunning = true → c.cancelled = false
  requests : ∀ {i : Nat} {r}, s.requests[i]? = some r → r.caller.isDone = false → r.cancelled = false

theorem Orderly.make (x : Context) (cat : Catalog) : Orderly [] (make x cat none) where
  parted :=
    { asked := fun i hi => absurd hi List.not_mem_nil
      inner := fun _ => List.not_mem_nil
      disjoint := fun hi => absurd hi List.not_mem_nil
      parent := fun hr => by cases hr
      going := fun hc => by cases hc
      stopping := fun hc => by cases hc }
  honest :=
    { requests := fun hr => by cases hr
      calls := fun hc => by cases hc }
  latest :=
    { running := fun hc => by cases hc
      begun := fun hc => by cases hc
      registered := fun hc => by cases hc
      edged := fun hc => by cases hc
      kept := fun he => by cases he
      torn := fun hc => by cases hc }

theorem Last.congr (h : s.Last p n) (hcalls : ∀ {m c'}, u.flights.call? m = some c' → ∃ c,
    s.flights.call? m = some c ∧ c'.key = c.key) : u.Last p n := fun m c' hc' hk => by
  obtain ⟨c, hc, hkey⟩ := hcalls hc'
  exact h m c hc (hkey.symm.trans hk)

/-- Two flights for a path are one if both are under way. -/
theorem Latest.eq_of_key (h : Latest s) (hc : s.flights.call? n = some c) (hr : c.isRunning = true)
    (hc' : s.flights.call? m = some c') (hr' : c'.isRunning = true) (hk : c'.key = c.key) : m = n :=
  Nat.le_antisymm (h.running hc hr m c' hc' hk) (h.running hc' hr' n c hc hk.symm)

/-! ### Requests that go on -/

/-- A change that ends requests or has them wait, but leaves flights as they are, except for new ones that
have not begun. -/
structure Passes (s u : Resolver) : Prop where
  graph : u.graph = s.graph
  entries : u.entries = s.entries
  catalog : u.catalog = s.catalog
  length : u.requests.length = s.requests.length
  requests : ∀ {j : Nat} {r'}, u.requests[j]? = some r' → ∃ r, s.requests[j]? = some r ∧
    r'.cancelled = r.cancelled ∧ (r'.caller.isDone = false → r.caller.isDone = false) ∧
    (r'.caller = .done .cancelled → r.caller = .done .cancelled)
  calls : ∀ {m c'}, u.flights.call? m = some c' →
    (∃ c, s.flights.call? m = some c ∧ c'.key = c.key ∧ c'.status = c.status ∧
      c'.cancelled = c.cancelled) ∨
    m = s.flights.calls.length ∧ c'.status = .running .launched ∧ c'.cancelled = false ∧
      s.flights.slots.get? c'.key = none ∧ s.entries.get? c'.key = none ∧
      s.catalog.contains c'.key = true
  remain : ∀ {m c}, s.flights.call? m = some c → ∃ c', u.flights.call? m = some c' ∧
    c'.key = c.key ∧ c'.status = c.status ∧ c'.cancelled = c.cancelled

namespace Passes

theorem of_eq (hgraph : u.graph = s.graph) (hentries : u.entries = s.entries)
    (hcatalog : u.catalog = s.catalog) (hrequests : u.requests = s.requests)
    (hcalls : ∀ m, u.flights.call? m = s.flights.call? m) : Passes s u where
  graph := hgraph
  entries := hentries
  catalog := hcatalog
  length := by rw [hrequests]
  requests {j r} hr := ⟨r, hrequests ▸ hr, rfl, id, id⟩
  calls {m c} hc := .inl ⟨c, hcalls m ▸ hc, rfl, rfl, rfl⟩
  remain {m c} hc := ⟨c, (hcalls m).trans hc, rfl, rfl, rfl⟩

theorem childrenOf (h : Passes s u) (m : CallId) : u.childrenOf m = s.childrenOf m := by
  cases hc' : u.flights.call? m with
  | none =>
      refine childrenOf_congr ?_
      cases hc : s.flights.call? m with
      | none => rw [hc']
      | some c =>
          obtain ⟨c', h', -⟩ := h.remain hc
          rw [hc'] at h'
          cases h'
  | some c' =>
      rcases h.calls hc' with ⟨c, hc, -, hst, -⟩ | ⟨hm, hst, -⟩
      · exact childrenOf_congr (by rw [hc', hc, Option.map_some, Option.map_some, hst])
      · have hnone : s.flights.call? m = none := Table.call?_eq_none_iff.2 (Nat.le_of_eq hm.symm)
        unfold Resolver.childrenOf
        rw [hc', hnone]
        dsimp only
        rw [hst]

theorem parted (h : Passes s u) (hp : Parted callers s) : Parted callers u where
  asked i hi := h.length ▸ hp.asked i hi
  inner hi := hp.inner (h.childrenOf _ ▸ hi)
  disjoint hi hi' := hp.disjoint (h.childrenOf _ ▸ hi) (h.childrenOf _ ▸ hi')
  parent hr hdone hi := by
    obtain ⟨r, hr', -, hundone, -⟩ := h.requests hr
    obtain ⟨n, hn⟩ := hp.parent hr' (hundone hdone) hi
    exact ⟨n, (h.childrenOf n).symm ▸ hn⟩
  going {n c i r} hc hgo hi hr := by
    obtain ⟨r, hr', hcan, -⟩ := h.requests hr
    rw [hcan]
    have hi' : i ∈ s.childrenOf n := h.childrenOf n ▸ hi
    obtain ⟨c₀, -, -, -, -, hc₀, -⟩ := exists_of_mem_childrenOf hi'
    obtain ⟨c', hc', -, -, hsame⟩ := h.remain hc₀
    obtain rfl : c = c' := Option.some.inj (hc.symm.trans hc')
    exact hp.going hc₀ (hsame.symm.trans hgo) hi' hr'
  stopping {n c i r} hc hcan hi hr hdone := by
    obtain ⟨r, hr', hsame, hundone, -⟩ := h.requests hr
    rw [hsame]
    have hi' : i ∈ s.childrenOf n := h.childrenOf n ▸ hi
    obtain ⟨c₀, -, -, -, -, hc₀, -⟩ := exists_of_mem_childrenOf hi'
    obtain ⟨c', hc', -, -, hsame'⟩ := h.remain hc₀
    obtain rfl : c = c' := Option.some.inj (hc.symm.trans hc')
    exact hp.stopping hc₀ (hsame'.symm.trans hcan) hi' hr' (hundone hdone)

theorem honest (h : Passes s u) (hh : Honest s) : Honest u where
  requests hr hst := by
    obtain ⟨r, hr', hcan, -, hdone⟩ := h.requests hr
    exact hcan.trans (hh.requests hr' (hdone hst))
  calls hc hst := by
    rcases h.calls hc with ⟨c, hc', -, hst', hcan⟩ | ⟨-, hst', -⟩
    · exact hcan ▸ hh.calls hc' (hst'.symm.trans hst)
    · rw [hst] at hst'; cases hst'

theorem undisturbed (h : Passes s u) (hu : Undisturbed s) : Undisturbed u where
  calls hc hr := by
    rcases h.calls hc with ⟨c, hc', -, hst, hcan⟩ | ⟨-, -, hgo, -⟩
    · exact hcan.trans (hu.calls hc' ((isRunning_congr hst).symm.trans hr))
    · exact hgo
  requests hr hdone := by
    obtain ⟨r, hr', hcan, hundone, -⟩ := h.requests hr
    exact hcan.trans (hu.requests hr' (hundone hdone))

/-- A flight begins only for a path whose last flight is over and has left no result. -/
theorem latest (h : Passes s u) (hs : Coherent s) (hu : Undisturbed s) (hl : Latest s) : Latest u := by
  have hlast : ∀ {p n}, u.Last p n → s.Last p n := fun hlast m c hc hk => by
    obtain ⟨c', hc', hkey, -⟩ := h.remain hc
    exact hlast m c' hc' (hkey.trans hk)
  refine ⟨fun {n c} hc hr m d hd hk => ?_, fun {n c} hc hcan => ?_, fun {n c} hc => ?_,
    fun {n c a es kept children} hc hgo hst => ?_, fun {p e} he => ?_, fun {n c} hc hst hn => ?_⟩
  · rcases h.calls hc with ⟨c₀, hc₀, hkey, hst, hcan⟩ | ⟨hn, -⟩
    · have hr₀ : c₀.isRunning = true := (isRunning_congr hst).symm.trans hr
      rcases h.calls hd with ⟨d₀, hd₀, hkey', -⟩ | ⟨-, -, -, hidle, -⟩
      · exact hl.running hc₀ hr₀ m d₀ hd₀ (hkey'.symm.trans (hk.trans hkey))
      · have hheld := hs.wired.held n c₀ hc₀ hr₀ (hu.calls hc₀ hr₀)
        rw [← hkey, ← hk, hidle] at hheld
        cases hheld
    · rcases h.calls hd with ⟨d₀, hd₀, -⟩ | ⟨hm, -⟩
      · exact hn ▸ Nat.le_of_lt (Table.lt_of_call?_eq_some hd₀)
      · exact Nat.le_of_eq (hm.trans hn.symm)
  · rcases h.calls hc with ⟨c₀, hc₀, -, hst, hcan'⟩ | ⟨-, -, hgo, -⟩
    · rw [hst]
      exact hl.begun hc₀ (hcan'.symm.trans hcan)
    · rw [hcan] at hgo; cases hgo
  · rcases h.calls hc with ⟨c₀, hc₀, hkey, -⟩ | ⟨-, -, -, -, -, hreg⟩
    · rw [hkey, h.catalog]
      exact hl.registered hc₀
    · rw [h.catalog]
      exact hreg
  · rcases h.calls hc with ⟨c₀, hc₀, hkey, hst', hcan⟩ | ⟨-, hst', -⟩
    · rw [h.graph, hkey]
      exact hl.edged hc₀ (hcan.symm.trans hgo) (hst'.symm.trans hst)
    · rw [hst] at hst'; cases hst'
  · rw [h.entries] at he
    obtain ⟨n, c, hc, hk, hst, hn⟩ := hl.kept he
    obtain ⟨c', hc', hkey, hst', -⟩ := h.remain hc
    refine ⟨n, c', hc', hkey.trans hk, hst'.trans hst, fun m d hd hdk => ?_⟩
    rcases h.calls hd with ⟨d₀, hd₀, hkey', -⟩ | ⟨-, -, -, -, hnone, -⟩
    · exact hn m d₀ hd₀ (hkey'.symm.trans hdk)
    · rw [hdk, he] at hnone; cases hnone
  · rcases h.calls hc with ⟨c₀, hc₀, hkey, hst', -⟩ | ⟨-, hst', -⟩
    · rw [h.graph, hkey]
      exact hl.torn hc₀ (hst'.symm.trans hst) (hkey ▸ hlast hn)
    · rw [hst] at hst'; cases hst'

end Passes

section SetCaller

variable {y : Caller Answer} (hr : s.requests[i]? = some r) (hundone : r.caller.isDone = false)
  (hy : y ≠ .done .cancelled) {t : Table Phase Answer}

include hr hundone hy

/-- A request that has not ended comes further, but does not end as cancelled. -/
theorem requests_setCaller {j : Nat} (hr' : (s.setCaller i y).requests[j]? = some r') :
    ∃ r, s.requests[j]? = some r ∧ r'.cancelled = r.cancelled ∧
      (r'.caller.isDone = false → r.caller.isDone = false) ∧
      (r'.caller = .done .cancelled → r.caller = .done .cancelled) := by
  rw [getElem?_setCaller] at hr'
  split at hr'
  · next hji =>
      obtain ⟨r₀, hr₀, rfl⟩ := Option.map_eq_some_iff.1 hr'
      subst hji
      obtain rfl : r = r₀ := Option.some.inj (hr.symm.trans hr₀)
      exact ⟨r, hr₀, rfl, fun _ => hundone, fun h => absurd h hy⟩
  · exact ⟨r', hr', rfl, id, id⟩

/-- The table has the same flights, of which one may have more or fewer who wait. -/
theorem Passes.of_table (ht : ∀ m, (t.call? m).map (fun c => (c.key, c.status, c.cancelled)) =
      (s.flights.call? m).map fun c => (c.key, c.status, c.cancelled)) :
    Passes s ({ s with flights := t }.setCaller i y) where
  graph := rfl
  entries := rfl
  catalog := rfl
  length := List.length_modify _ _ _
  requests := requests_setCaller (s := { s with flights := t }) hr hundone hy
  calls {m c'} hc' := by
    have hm := ht m
    rw [show t.call? m = some c' from hc'] at hm
    obtain ⟨c, hc, he⟩ := Option.map_eq_some_iff.1 hm.symm
    simp only [Prod.mk.injEq] at he
    exact .inl ⟨c, hc, he.1.symm, he.2.1.symm, he.2.2.symm⟩
  remain {m c} hc := by
    have hm := ht m
    rw [hc] at hm
    obtain ⟨c', hc', he⟩ := Option.map_eq_some_iff.1 hm
    simp only [Prod.mk.injEq] at he
    exact ⟨c', hc', he.1, he.2.1, he.2.2⟩

theorem Passes.of_modify {f : Flight → Flight} (n : CallId)
    (hf : ∀ c : Flight, (f c).key = c.key ∧ (f c).status = c.status ∧ (f c).cancelled = c.cancelled) :
    Passes s ({ s with flights := s.flights.modify n f }.setCaller i y) :=
  .of_table hr hundone hy fun m => by
    rw [Table.call?_modify]
    split
    · rw [Option.map_map]
      congr 1
      funext c
      obtain ⟨hkey, hst, hcan⟩ := hf c
      simp [hkey, hst, hcan]
    · rfl

/-- A flight is added for a path for which nothing is under way or kept. -/
theorem Passes.of_launch (hreg : s.catalog.contains p = true) (hidle : s.flights.slots.get? p = none)
    (hnone : s.entries.get? p = none) {slots : PathMap CallId} :
    Passes s ({ s with
      flights := ⟨slots, s.flights.calls ++ [(⟨p, .running .launched, 1, false⟩ : Flight)]⟩ }.setCaller i
        y) where
  graph := rfl
  entries := rfl
  catalog := rfl
  length := List.length_modify _ _ _
  requests := requests_setCaller (s := { s with flights := _ }) hr hundone hy
  calls {m c'} hc' := by
    rcases Table.call?_append_cases hc' with ⟨hm, rfl⟩ | hc'
    · exact .inr ⟨hm, rfl, rfl, hidle, hnone, hreg⟩
    · exact .inl ⟨c', hc', rfl, rfl, rfl⟩
  remain {m c} hc := by
    refine ⟨c, ?_, rfl, rfl, rfl⟩
    change Table.call? ⟨_, _ ++ [_]⟩ m = some c
    rw [Table.call?_append, if_neg (Nat.ne_of_lt (Table.lt_of_call?_eq_some hc))]
    exact hc

end SetCaller

/-- While nobody is disturbed a request takes the result of a flight, and nobody else notices. -/
theorem Undisturbed.take (hu : Undisturbed s) (hf : Founded x cat s) (hh : Honest s)
    (hr : s.requests[i]? = some r) (hw : r.caller = .waiting n) {o : Outcome Answer} {rs : List Request}
    (hanswer : s.flights.answer? r.cancelled n = some o)
    (hsilenced : rs ≠ s.requests → ∃ c, (s.flights.detach n).call? n = some c ∧ c.cancelled = true) :
    o ≠ .cancelled ∧ rs = s.requests ∧
      s.flights.detach n = s.flights.modify n fun c => { c with waiters := c.waiters - 1 } := by
  obtain ⟨c, hc, -⟩ := hf.coherent.wired.waiting i r n hr hw
  have hgo : c.cancelled = false := hf.going_of_waiting hr hw hc
  have hst : c.status = .finished o := by
    rw [hu.requests hr (by rw [hw]; rfl)] at hanswer
    simp only [Table.answer?, Bool.false_eq_true, if_false, hc, Option.bind_some] at hanswer
    unfold Call.outcome? at hanswer
    split at hanswer
    · cases hanswer
    · next o' hst => cases hanswer; exact hst
  have hdetach : s.flights.detach n = s.flights.modify n fun c => { c with waiters := c.waiters - 1 } :=
    detach_of_finished hc (isRunning_eq_false_of_status hst)
  refine ⟨fun ho => Bool.false_ne_true (hgo.symm.trans ((hh.calls hc hst).1 ho)), ?_, hdetach⟩
  by_contra hne
  obtain ⟨c', hc', hcan⟩ := hsilenced hne
  rw [hdetach, Table.call?_modify, if_pos rfl, hc] at hc'
  cases hc'
  exact Bool.false_ne_true (hgo.symm.trans hcan)

/-- While nobody is disturbed a request that goes on joins a flight, begins one or takes the result of one;
it stops none. -/
theorem Undisturbed.passes (hu : Undisturbed s) (hf : Founded x cat s) (hh : Honest s)
    (hr : s.requests[i]? = some r) (hm : RequestMove s i r u) : Passes s u := by
  have hundone_of_fresh : r.caller = .fresh → r.caller.isDone = false := fun h => by rw [h]; rfl
  cases hm with
  | quit hfresh hcan =>
      rw [hu.requests hr (hundone_of_fresh hfresh)] at hcan
      cases hcan
  | refuse hfresh _ _ => exact .of_table hr (hundone_of_fresh hfresh) (by simp) fun _ => rfl
  | hit hfresh _ _ _ _ _ _ => exact .of_table hr (hundone_of_fresh hfresh) (by simp) fun _ => rfl
  | @join p k hfresh _ _ hslot =>
      exact .of_modify hr (hundone_of_fresh hfresh) (by simp) k fun _ => ⟨rfl, rfl, rfl⟩
  | @launch p hfresh _ _ hreg hidle hmarked =>
      refine .of_launch hr (hundone_of_fresh hfresh) (by simp) hreg hidle ?_
      cases he : s.entries.get? p with
      | none => rfl
      | some e =>
          have hmark := hmarked e he
          rw [hf.lasting.unmarked p e he] at hmark
          cases hmark
  | @take k o rs hwaits hanswer hothers hsilenced =>
      obtain ⟨hne, rfl, hdetach⟩ := hu.take hf hh hr hwaits hanswer hsilenced
      have hundone : r.caller.isDone = false := by rw [hwaits]; rfl
      rw [hdetach]
      refine .of_modify hr hundone (fun h => ?_) k fun _ => ⟨rfl, rfl, rfl⟩
      cases o with
      | cancelled => exact hne rfl
      | result a => cases h

/-! ### Flights that go on -/

/-- While nobody is disturbed a flight does not stop. -/
theorem Undisturbed.not_stopped (hu : Undisturbed s) (hh : Honest s) (hp : Parted callers s)
    (hc : s.flights.call? n = some c) (hm : FlightMove s n c u) :
    c.cancelled = false ∧ ∃ st, u.flights.call? n = some { c with status := st } ∧
      st ≠ .finished .cancelled := by
  have hgo := hu.calls hc hm.isRunning
  refine ⟨hgo, ?_⟩
  obtain ⟨st, hst, -, hstage⟩ := hm.exists_stage hc
  refine ⟨st, hst, fun hcancelled => ?_⟩
  subst hcancelled
  cases hstage with
  | stopped hcause =>
      rcases hcause with hcan | ⟨a, es, kept, children, hgathering, hcomplete, hcollect⟩
      · rw [hgo] at hcan; cases hcan
      · -- one of its requests ended as cancelled, but none has been cancelled
        obtain ⟨i, hi, hcancelled | hnone⟩ := collect_eq_cancelled hcollect
        · obtain ⟨r, hr, hdone⟩ := outcome?_eq_some_iff.1 hcancelled
          have hchild : i ∈ s.childrenOf n := by rwa [childrenOf_of_gathering hc hgathering]
          have hcan := hh.requests hr hdone
          rw [hp.going hc hgo hchild hr] at hcan
          cases hcan
        · have hsome := hcomplete i hi
          rw [hnone] at hsome
          cases hsome

/-- The requests that a flight makes are its own. -/
theorem FlightMove.mem_childrenOf (hm : FlightMove s n c u) (hc : s.flights.call? n = some c) :
    i ∈ u.childrenOf n ↔ s.requests.length ≤ i ∧ i < u.requests.length := by
  constructor
  · intro hi
    obtain ⟨c', a, es, kept, children, hc', hst, hmem⟩ := exists_of_mem_childrenOf hi
    exact (hm.children hc hc' hst i).1 hmem
  · rintro ⟨hle, hlt⟩
    obtain ⟨c', a, es, kept, children, hc', hst⟩ := hm.exists_gathering hc
      (Nat.ne_of_gt (Nat.lt_of_le_of_lt hle hlt))
    rw [childrenOf_of_gathering hc' hst]
    exact (hm.children hc hc' hst i).2 ⟨hle, hlt⟩

theorem FlightMove.childrenOf_of_ne (hm : FlightMove s n c u) (hmn : m ≠ n) :
    u.childrenOf m = s.childrenOf m := childrenOf_congr (by rw [hm.call?_of_ne hmn])

/-- A flight that goes on has waited until all its requests had ended. -/
theorem FlightMove.isDone_of_mem (hm : FlightMove s n c u) (hc : s.flights.call? n = some c)
    (hgo : c.cancelled = false) (hi : i ∈ s.childrenOf n) (hr : s.requests[i]? = some r) :
    r.caller.isDone = true := by
  obtain ⟨c', a, es, kept, children, hc', hst, hmem⟩ := exists_of_mem_childrenOf hi
  obtain rfl : c = c' := Option.some.inj (hc.symm.trans hc')
  exact (isSome_outcome?_iff hr).1 (hm.isSome_outcome? hc hgo hst hmem)

theorem Parted.flight (h : Parted callers s) (hs : Coherent s) (hu : Undisturbed s)
    (hc : s.flights.call? n = some c) (hm : FlightMove s n c u) : Parted callers u := by
  have hgo := hu.calls hc hm.isRunning
  have hold : ∀ {i k}, k ≠ n → i ∈ u.childrenOf k → i ∈ s.childrenOf k ∧ i < s.requests.length :=
    fun {i k} hk hi => by
      have hi' : i ∈ s.childrenOf k := hm.childrenOf_of_ne hk ▸ hi
      exact ⟨hi', lt_of_mem_childrenOf hs hi'⟩
  refine ⟨fun i hi => Nat.lt_of_lt_of_le (h.asked i hi) hm.length_le, fun {i k} hi hmem => ?_,
    fun {i k l} hi hi' => ?_, fun {i r} hr hdone hi => ?_, fun {k d i r} hd hgo' hi hr => ?_,
    fun {k d i r} hd hcan hi hr hdone => ?_⟩
  · by_cases hk : k = n
    · subst hk
      exact absurd (h.asked i hmem) (Nat.not_lt.2 ((hm.mem_childrenOf hc).1 hi).1)
    · exact h.inner (hold hk hi).1 hmem
  · by_cases hk : k = n <;> by_cases hl : l = n
    · rw [hk, hl]
    · subst hk
      exact absurd (hold hl hi').2 (Nat.not_lt.2 ((hm.mem_childrenOf hc).1 hi).1)
    · subst hl
      exact absurd (hold hk hi).2 (Nat.not_lt.2 ((hm.mem_childrenOf hc).1 hi').1)
    · exact h.disjoint (hold hk hi).1 (hold hl hi').1
  · rcases hm.request_cases hr with hr' | ⟨hle, -⟩
    · obtain ⟨k, hk⟩ := h.parent hr' hdone hi
      by_cases hkn : k = n
      · subst hkn
        rw [hm.isDone_of_mem hc hgo hk hr'] at hdone
        cases hdone
      · exact ⟨k, (hm.childrenOf_of_ne hkn).symm ▸ hk⟩
    · exact ⟨n, (hm.mem_childrenOf hc).2 ⟨hle, (List.getElem?_eq_some_iff.1 hr).1⟩⟩
  · by_cases hk : k = n
    · subst hk
      rcases hm.request_cases hr with hr' | ⟨-, -, hnew⟩
      · exact absurd (List.getElem?_eq_some_iff.1 hr').1
          (Nat.not_lt.2 ((hm.mem_childrenOf hc).1 hi).1)
      · exact hnew
    · obtain ⟨hi', hlt⟩ := hold hk hi
      rcases hm.request_cases hr with hr' | ⟨hle, -⟩
      · exact h.going (hm.call?_of_ne hk ▸ hd) hgo' hi' hr'
      · exact absurd hlt (Nat.not_lt.2 hle)
  · rcases hm.call?_cases hc hd with ⟨rfl, st, rfl, -⟩ | ⟨hk, hd'⟩
    · exact absurd (hgo.symm.trans hcan) Bool.false_ne_true
    · obtain ⟨hi', hlt⟩ := hold hk hi
      rcases hm.request_cases hr with hr' | ⟨hle, -⟩
      · exact h.stopping hd' hcan hi' hr' hdone
      · exact absurd hlt (Nat.not_lt.2 hle)

theorem Honest.flight (h : Honest s) (hp : Parted callers s) (hu : Undisturbed s)
    (hc : s.flights.call? n = some c) (hm : FlightMove s n c u) : Honest u where
  requests hr hst := by
    rcases hm.request_cases hr with hr' | ⟨-, hfresh, -⟩
    · exact h.requests hr' hst
    · rw [hfresh] at hst; cases hst
  calls {k d o} hd hst := by
    rcases hm.call?_cases hc hd with ⟨rfl, -⟩ | ⟨-, hd'⟩
    · obtain ⟨hgo, st, hst', hne⟩ := hu.not_stopped h hp hc hm
      obtain rfl : d = { c with status := st } := Option.some.inj (hd.symm.trans hst')
      exact iff_of_false (fun ho => hne (ho ▸ hst)) (Bool.eq_false_iff.1 hgo)
    · exact h.calls hd' hst

theorem Undisturbed.flight (h : Undisturbed s) (hc : s.flights.call? n = some c)
    (hm : FlightMove s n c u) : Undisturbed u where
  calls {k d} hd hr := by
    rcases hm.call?_cases hc hd with ⟨rfl, st, rfl, -⟩ | ⟨-, hd'⟩
    · show c.cancelled = false
      exact h.calls hc hm.isRunning
    · exact h.calls hd' hr
  requests hr hdone := by
    rcases hm.request_cases hr with hr' | ⟨-, -, hnew⟩
    · exact h.requests hr' hdone
    · exact hnew

/-- A flight that waits has the edges of its asset in the graph, where no kept result is checked. -/
theorem Stage.edgesOf {a : Prepared} {es : List Edge} {kept : Option Resolved}
    {children : List RequestId} (hs : Coherent s) (hl : Lasting s)
    (hstage : Stage s c u (.running (.gathering a es kept children))) :
    u.graph.edgesOf c.key = es := by
  cases hstage with
  | rechecks _ he hmarked _ =>
      rw [hl.unmarked c.key _ he] at hmarked
      cases hmarked
  | gathers _ _ hget hprep hgraph _ =>
      rw [hgraph, Graph.edgesOf_setEdges (hs.sorted_of_prepare hget hprep), if_pos rfl]

theorem Latest.flight (h : Latest s) (hh : Honest s) (hp : Parted callers s) (hu : Undisturbed s)
    (hf : Founded x cat s) (hc : s.flights.call? n = some c) (hm : FlightMove s n c u) : Latest u := by
  have hrun := hm.isRunning
  have hmove : Move s u := .inr ⟨n, .inr ⟨c, hc, hm⟩⟩
  obtain ⟨hgo, st, hst, hne⟩ := hu.not_stopped hh hp hc hm
  have hkeys : ∀ {k d}, u.flights.call? k = some d → ∃ d₀, s.flights.call? k = some d₀ ∧ d.key = d₀.key :=
    fun {k d} hd => by
      rcases hm.call?_cases hc hd with ⟨rfl, st, rfl, -⟩ | ⟨-, hd'⟩
      · exact ⟨c, hc, rfl⟩
      · exact ⟨d, hd', rfl⟩
  have hlast : ∀ {q k}, u.Last q k → s.Last q k := fun {q k} hlast l d hd hk => by
    obtain ⟨d', hd', hkey, -⟩ := hmove.exists_call? hd
    exact hlast l d' hd' (hkey.trans hk)
  refine ⟨fun {k d} hd hr => ?_, fun {k d} hd hcan => ?_, fun {k d} hd => ?_,
    fun {k d a es kept children} hd hgo' hst' => ?_, fun {q e} he => ?_, fun {k d} hd hst' hlast' => ?_⟩
  · refine Last.congr ?_ hkeys
    rcases hm.call?_cases hc hd with ⟨rfl, st, rfl, -⟩ | ⟨-, hd'⟩
    · show s.Last c.key k
      exact h.running hc hrun
    · exact h.running hd' hr
  · rcases hm.call?_cases hc hd with ⟨rfl, st, rfl, -⟩ | ⟨-, hd'⟩
    · exact absurd (hgo.symm.trans hcan) Bool.false_ne_true
    · exact h.begun hd' hcan
  · obtain ⟨d₀, hd₀, hkey⟩ := hkeys hd
    rw [hkey, Catalog.contains, hmove.frame.2]
    exact h.registered hd₀
  · rcases hm.call?_cases hc hd with ⟨rfl, st, rfl, -⟩ | ⟨hk, hd'⟩
    · cases hst'
      have hedges := (hm.stage hc hd).edgesOf hf.coherent hf.lasting
      exact hedges
    · have hkey : d.key ≠ c.key := fun hkey =>
        hk (h.eq_of_key hc hrun hd' (isRunning_of_status hst') hkey)
      rw [hm.edgesOf_of_ne hf.coherent hkey]
      exact h.edged hd' hgo' hst'
  · rcases hmove.entry hf.coherent he with ⟨e₀, he₀, -, hr, -⟩ | ⟨k, d, m, hd, -, rfl, hl, -, hended⟩
    · obtain ⟨k, d, hd, hkey, hst', hlast'⟩ := h.kept he₀
      obtain ⟨d', hd', hkey', hst''⟩ := hmove.finished hd hst'
      exact ⟨k, d', hd', hkey'.trans hkey, hr ▸ hst'', hlast'.congr hkeys⟩
    · exact ⟨k, _, hended, rfl, rfl, (h.running hd hl.isRunning).congr hkeys⟩
  · rcases hm.call?_cases hc hd with ⟨rfl, -⟩ | ⟨hk, hd'⟩
    · obtain rfl : d = { c with status := st } := Option.some.inj (hd.symm.trans hst)
      exact absurd hst' hne
    · -- a flight that is the last for its path is not followed by the one that goes on
      have hkey : d.key ≠ c.key := fun hkey => hk <| Nat.le_antisymm
        (h.running hc hrun k d hd' hkey) (hlast hlast' n c hc hkey.symm)
      rw [hm.edgesOf_of_ne hf.coherent hkey]
      exact h.torn hd' hst' (hlast hlast')

/-- What goes on by itself keeps the order while nobody is disturbed, and disturbs nobody. -/
theorem Orderly.advance (h : Orderly callers s) (hu : Undisturbed s) (hf : Founded x cat s)
    (hm : Advance s u) : Orderly callers u ∧ Undisturbed u := by
  have hpass : Passes s u → Orderly callers u ∧ Undisturbed u := fun hpass =>
    ⟨⟨hpass.parted h.parted, hpass.honest h.honest, hpass.latest hf.coherent hu h.latest⟩,
      hpass.undisturbed hu⟩
  cases hm with
  | calm hm =>
      cases hm with
      | quiet hq => cases hq; exact hpass (.of_eq rfl rfl rfl rfl fun _ => rfl)
      | request hr hm => exact hpass (hu.passes hf h.honest hr hm)
  | forget _ _ => exact hpass (.of_eq rfl rfl rfl rfl fun m => Table.call?_forget _ _ m)
  | flight hc hm =>
      exact ⟨⟨h.parted.flight hf.coherent hu hc hm, h.honest.flight h.parted hu hc hm,
        h.latest.flight h.honest h.parted hu hf hc hm⟩, hu.flight hc hm⟩

end HashedAssets.Resolver
