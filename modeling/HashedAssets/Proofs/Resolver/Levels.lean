import HashedAssets.Proofs.Resolver.Blame
import Mathlib.Data.Fintype.Card
import Mathlib.Logic.Hydra
import Mathlib.Tactic.Abel

/-!
# How deep requests go

A flight makes requests, and these begin flights. As each flight under way is for another registered
path, this has an end.

* `Levelled`: a request is one level below the flight that has made it, and a flight is on the level of a
  request that waits for it; `Levelled.lt_length`: there are no more levels than registered paths;
* `work`: how much each request and flight may still bring about, more on a higher level;
* `Levelled.request`, `Levelled.flight`, `Levelled.forget`: with each move one of them has less to bring
  about, and what is new has less than that one had.
-/

namespace HashedAssets.Resolver

open SingleFlight Relation

/-! ### Levels -/

/-- Levels of requests and flights: a request that has not ended is on the first level or one level below
a flight that waits for it, and a flight under way is on the level of a request that waits for it. -/
structure Levelled (ℓ : RequestId → Nat) (k : CallId → Nat) (s : Resolver) : Prop where
  registered : ∀ n c, s.flights.call? n = some c → c.isRunning = true →
    s.catalog.contains c.key = true
  flights : ∀ n c, s.flights.call? n = some c → c.isRunning = true →
    ∃ (i : Nat) (r : Request), s.requests[i]? = some r ∧ r.caller = .waiting n ∧ ℓ i = k n
  requests : ∀ (i : Nat) r, s.requests[i]? = some r → r.caller.isDone = false → ℓ i = 0 ∨
    ∃ n c a es kept children, s.flights.call? n = some c ∧
      c.status = .running (.gathering a es kept children) ∧ i ∈ children ∧ ℓ i = k n + 1

variable {ℓ : RequestId → Nat} {k : CallId → Nat} {s u : Resolver} {n : CallId} {c : Flight}
  {i : RequestId} {r : Request}

/-- Levels, with one for all that comes after the first `m`. -/
def extended (ℓ : Nat → Nat) (m level : Nat) (j : Nat) : Nat := if j < m then ℓ j else level

theorem extended_of_lt {m level j : Nat} (h : j < m) : extended ℓ m level j = ℓ j := if_pos h

theorem extended_of_ge {m level j : Nat} (h : m ≤ j) : extended ℓ m level j = level :=
  if_neg (Nat.not_lt.2 h)

/-- There is a flight under way on each level above that of another. -/
theorem Levelled.exists_level (h : Levelled ℓ k s) (hc : s.flights.call? n = some c)
    (hr : c.isRunning = true) {j : Nat} (hj : j ≤ k n) :
    ∃ m c', s.flights.call? m = some c' ∧ c'.isRunning = true ∧ k m = j := by
  induction hk : k n generalizing n c with
  | zero => exact ⟨n, c, hc, hr, by omega⟩
  | succ d ih =>
      by_cases hjd : j = d + 1
      · exact ⟨n, c, hc, hr, by omega⟩
      · obtain ⟨i, r, hr', hw, hi⟩ := h.flights n c hc hr
        rcases h.requests i r hr' (by rw [hw]; rfl) with h0 | ⟨m, c', a, es, kept, children, hc', hst, -, hm⟩
        · omega
        · exact ih hc' (isRunning_of_status hst) (by omega) (by omega)

/-- Flights under way are for different registered paths, so there are no more levels than these. -/
theorem Levelled.lt_length (h : Levelled ℓ k s) (hs : Coherent s) (hun : Unhurried s)
    (hc : s.flights.call? n = some c) (hr : c.isRunning = true) :
    k n < s.catalog.entries.keys.length := by
  have hlevel := fun j : Fin (k n + 1) => h.exists_level hc hr (Nat.le_of_lt_succ j.2)
  choose m c' hc' hrun hk using hlevel
  have hinj : Function.Injective fun j => (c' j).key := by
    intro j j' hkey
    have hm : m j = m j' := hs.wired.eq_of_key (hc' j') (hrun j') (hun.calls _ _ (hc' j')).1 (hc' j)
      (hrun j) (hun.calls _ _ (hc' j)).1 hkey
    exact Fin.ext ((hk j).symm.trans ((congrArg k hm).trans (hk j')))
  have hmem : ∀ j, (c' j).key ∈ s.catalog.entries.keys.toFinset := fun j => by
    obtain ⟨d, hd⟩ := Catalog.contains_iff.1 (h.registered _ _ (hc' j) (hrun j))
    rw [List.mem_toFinset, PathMap.mem_keys, PathMap.mem_iff_get?_isSome, hd]
    rfl
  have hcard := Finset.card_le_card_of_injOn (s := Finset.univ) _ (fun j _ => hmem j) hinj.injOn
  rw [Finset.card_univ, Fintype.card_fin] at hcard
  exact Nat.lt_of_succ_le (Nat.le_trans hcard (List.toFinset_card_le _))

/-! ### Work -/

/-- What a request may still bring about when `d` levels are left. -/
def requestWeight (d : Nat) : Caller Answer → Nat
  | .fresh => 4 * d + 3
  | .waiting _ => 1
  | .done _ => 0

/-- What a flight may still bring about when `d` levels are left. One that has ended has to leave its
slot. -/
def flightWeight (d : Nat) (isInSlot : Bool) : SingleFlight.Status Phase Answer → Nat
  | .running .launched => 4 * d + 2
  | .running (.loading _) => 4 * d + 1
  | .running (.gathering ..) => 4 * d
  | .finished _ => if isInSlot then 1 else 0

theorem flightWeight_lt {d : Nat} (hd : 0 < d) (b : Bool) {st st' : SingleFlight.Status Phase Answer}
    (h : rank st < rank st') : flightWeight d b st' < flightWeight d b st := by
  have hended : (if b = true then 1 else 0 : Nat) ≤ 1 := by split <;> omega
  cases st with
  | finished o => cases st' with
    | finished o' => exact absurd h (Nat.lt_irrefl _)
    | running w => cases w <;> simp [rank] at h
  | running w => cases st' with
    | finished o => cases w <;> simp only [flightWeight] <;> omega
    | running w' => cases w <;> cases w' <;> simp [rank, flightWeight] at h ⊢

/-- The levels below a level, and one more. -/
def levelsLeft (s : Resolver) (level : Nat) : Nat := s.catalog.entries.keys.length + 1 - level

/-- What is left to do for a request. -/
def requestWork (ℓ : RequestId → Nat) (s : Resolver) (i : RequestId) : Nat :=
  match s.requests[i]? with
  | some r => requestWeight (s.levelsLeft (ℓ i)) r.caller
  | none => 0

/-- What is left to do for a flight. -/
def flightWork (k : CallId → Nat) (s : Resolver) (n : CallId) : Nat :=
  match s.flights.call? n with
  | some c => flightWeight (s.levelsLeft (k n)) (s.flights.slots.get? c.key == some n) c.status
  | none => 0

/-- What is left to do for each request and each flight. -/
def work (ℓ : RequestId → Nat) (k : CallId → Nat) (s : Resolver) : Multiset Nat :=
  (Multiset.range s.requests.length).map (requestWork ℓ s) +
    (Multiset.range s.flights.calls.length).map (flightWork k s)

section Cut

variable {f f' g g' : Nat → Nat} {m m' l l' j : Nat}

theorem map_range_add_singleton (hj : j < m) (hsame : ∀ a < m, a ≠ j → f' a = f a) :
    (Multiset.range m).map f' + {f j} = (Multiset.range m).map f + {f' j} := by
  have hmem : j ∈ Multiset.range m := Multiset.mem_range.2 hj
  have hrest : ((Multiset.range m).erase j).map f' = ((Multiset.range m).erase j).map f :=
    Multiset.map_congr rfl fun a ha => by
      obtain ⟨hne, ha⟩ := (Multiset.nodup_range m).mem_erase_iff.1 ha
      exact hsame a (Multiset.mem_range.1 ha) hne
  rw [← Multiset.cons_erase hmem, Multiset.map_cons, Multiset.map_cons, hrest]
  simp only [← Multiset.singleton_add]
  abel

theorem exists_map_range (hm : m ≤ m') (f : Nat → Nat) : ∃ t : Multiset Nat,
    (Multiset.range m').map f = (Multiset.range m).map f + t ∧ ∀ x ∈ t, ∃ a, m ≤ a ∧ a < m' ∧ x = f a := by
  obtain ⟨d, rfl⟩ := Nat.exists_eq_add_of_le hm
  refine ⟨((Multiset.range d).map (m + ·)).map f, ?_, fun x hx => ?_⟩
  · rw [Multiset.range_add, Multiset.map_add]
  · obtain ⟨a, ha, rfl⟩ := Multiset.mem_map.1 hx
    obtain ⟨b, hb, rfl⟩ := Multiset.mem_map.1 ha
    have := Multiset.mem_range.1 hb
    exact ⟨m + b, by omega, by omega, rfl⟩

/-- One number gets smaller, and what is new is smaller than it was. -/
theorem cutExpand_map_range (hm : m ≤ m') (hl : l ≤ l') (hj : j < m) (hlt : f' j < f j)
    (hsame : ∀ a < m, a ≠ j → f' a = f a) (hnew : ∀ a, m ≤ a → a < m' → f' a < f j)
    (hsame' : ∀ a < l, g' a = g a) (hnew' : ∀ a, l ≤ a → a < l' → g' a < f j) :
    CutExpand (· < ·) ((Multiset.range m').map f' + (Multiset.range l').map g')
      ((Multiset.range m).map f + (Multiset.range l).map g) := by
  obtain ⟨t, ht, htnew⟩ := exists_map_range hm f'
  obtain ⟨t', ht', htnew'⟩ := exists_map_range hl g'
  refine ⟨{f' j} + t + t', f j, fun x hx => ?_, ?_⟩
  · rcases Multiset.mem_add.1 hx with hx | hx
    · rcases Multiset.mem_add.1 hx with hx | hx
      · exact Multiset.mem_singleton.1 hx ▸ hlt
      · obtain ⟨a, ha, ha', rfl⟩ := htnew x hx
        exact hnew a ha ha'
    · obtain ⟨a, ha, ha', rfl⟩ := htnew' x hx
      exact hnew' a ha ha'
  · have hg : (Multiset.range l).map g' = (Multiset.range l).map g :=
      Multiset.map_congr rfl fun a ha => hsame' a (Multiset.mem_range.1 ha)
    have hf := map_range_add_singleton hj hsame
    rw [ht, ht', hg]
    calc (Multiset.range m).map f' + t + ((Multiset.range l).map g + t') + {f j}
        = ((Multiset.range m).map f' + {f j}) + (t + (Multiset.range l).map g + t') := by abel
      _ = ((Multiset.range m).map f + {f' j}) + (t + (Multiset.range l).map g + t') := by rw [hf]
      _ = (Multiset.range m).map f + (Multiset.range l).map g + ({f' j} + t + t') := by abel

end Cut

/-! ### Flights -/

/-- A flight that waits goes on when all it waits for have ended. -/
theorem FlightMove.isSome_outcome? (hm : FlightMove s n c u) (hc : s.flights.call? n = some c)
    (hgo : c.cancelled = false) {a : Prepared} {es : List Edge} {kept : Option Resolved}
    {children : List RequestId} (hst : c.status = .running (.gathering a es kept children))
    (hi : i ∈ children) : (s.outcome? i).isSome = true := by
  have hok : ∀ {m}, s.collect children = .result (.ok m) → (s.outcome? i).isSome = true := fun hans => by
    obtain ⟨v, ho, -⟩ := (collect_eq_ok hans).1 i hi
    rw [ho]; rfl
  obtain ⟨st, -, hrank, hstage⟩ := hm.exists_stage hc
  rw [hst] at hrank
  obtain ⟨o, rfl⟩ := exists_finished_of_lt hrank
  cases hstage with
  | stopped hcause =>
      rcases hcause with hcan | ⟨_, _, _, _, hst', hcomplete, -⟩
      · rw [hgo] at hcan; cases hcan
      · rw [hst] at hst'; cases hst'; exact hcomplete i hi
  | failed hcause =>
      cases hcause with
      | unregistered hst' _ => rcases hst' with hst' | ⟨w, hst'⟩ <;> (rw [hst] at hst'; cases hst')
      | unread hst' _ => rw [hst] at hst'; cases hst'
      | unprepared hst' _ _ _ => rw [hst] at hst'; cases hst'
      | target hst' hcomplete _ => rw [hst] at hst'; cases hst'; exact hcomplete i hi
      | unresolved hst' hans _ => rw [hst] at hst'; cases hst'; exact hok hans
  | cyclic hst' _ _ _ _ => rw [hst] at hst'; cases hst'
  | landed _ hl _ =>
      obtain ⟨_, _, _, _, _, hst', hans⟩ := hl.collect
      rw [hst] at hst'; cases hst'
      exact hok hans

theorem Levelled.flight_levels (h : Levelled ℓ k s) (hun : Unhurried s)
    (hc : s.flights.call? n = some c) (hm : FlightMove s n c u) :
    Levelled (extended ℓ s.requests.length (k n + 1)) k u := by
  have hcat : u.catalog.entries = s.catalog.entries := (Move.frame (.inr ⟨n, .inr ⟨c, hc, hm⟩⟩)).2
  refine ⟨fun m c' hc' hr => ?_, fun m c' hc' hr => ?_, fun j r hr hd => ?_⟩
  · rw [Catalog.contains, hcat]
    rcases hm.call?_cases hc hc' with ⟨rfl, st, rfl, -⟩ | ⟨-, hold⟩
    · exact h.registered m c hc hm.isRunning
    · exact h.registered m c' hold hr
  · have hwaits : ∃ (i : Nat) (r : Request), s.requests[i]? = some r ∧ r.caller = .waiting m ∧ ℓ i = k m := by
      rcases hm.call?_cases hc hc' with ⟨rfl, -⟩ | ⟨-, hold⟩
      · exact h.flights m c hc hm.isRunning
      · exact h.flights m c' hold hr
    obtain ⟨i, r, hr, hw, hi⟩ := hwaits
    exact ⟨i, r, hm.getElem? hr, hw, (extended_of_lt (List.getElem?_eq_some_iff.1 hr).1).trans hi⟩
  · rcases hm.request_cases hr with hr' | ⟨hge, -⟩
    · rw [extended_of_lt (List.getElem?_eq_some_iff.1 hr').1]
      refine (h.requests j r hr' hd).imp_right ?_
      rintro ⟨m, c', a, es, kept, children, hc', hst, hj, hm'⟩
      by_cases hmn : m = n
      · -- a flight that goes on waits for nobody any more
        subst hmn
        rw [hc] at hc'; cases hc'
        have hdone := hm.isSome_outcome? hc (hun.calls m c hc).1 hst hj
        obtain ⟨o, ho⟩ := Option.isSome_iff_exists.1 hdone
        obtain ⟨r₀, hr₀, hd₀⟩ := outcome?_eq_some_iff.1 ho
        rw [hr'] at hr₀; cases hr₀
        rw [hd₀] at hd; cases hd
      · exact ⟨m, c', a, es, kept, children, by rw [hm.call?_of_ne hmn]; exact hc', hst, hj, hm'⟩
    · have hlen : u.requests.length ≠ s.requests.length :=
        Nat.ne_of_gt (Nat.lt_of_le_of_lt hge (List.getElem?_eq_some_iff.1 hr).1)
      obtain ⟨c', a, es, kept, children, hc', hst⟩ := hm.exists_gathering hc hlen
      have hmem := (hm.children hc hc' hst j).2 ⟨hge, (List.getElem?_eq_some_iff.1 hr).1⟩
      rw [extended_of_ge hge]
      exact .inr ⟨n, c', a, es, kept, children, hc', hst, hmem, rfl⟩

/-- A flight that is still to wait has more to bring about than its key has levels left. -/
theorem lt_flightWork (hc : s.flights.call? n = some c) {a : Prepared} {es : List Edge}
    {kept : Option Resolved} {children : List RequestId}
    (hrank : rank c.status < rank (.running (.gathering a es kept children))) :
    4 * s.levelsLeft (k n) < s.flightWork k n := by
  unfold flightWork
  rw [hc]
  dsimp only
  cases hcs : c.status with
  | finished o => rw [hcs] at hrank; simp [rank] at hrank
  | running w => cases w with
    | launched => simp [flightWeight]
    | loading _ => simp [flightWeight]
    | gathering _ _ _ _ => rw [hcs] at hrank; simp [rank] at hrank

/-- A flight that goes on has less to bring about, and so have the requests that it makes. -/
theorem Levelled.flight (h : Levelled ℓ k s) (hs : Coherent s) (hun : Unhurried s)
    (hc : s.flights.call? n = some c) (hm : FlightMove s n c u) :
    ∃ ℓ', Levelled ℓ' k u ∧ CutExpand (· < ·) (u.work ℓ' k) (s.work ℓ k) := by
  refine ⟨_, h.flight_levels hun hc hm, ?_⟩
  have hcat : u.catalog.entries = s.catalog.entries := (Move.frame (.inr ⟨n, .inr ⟨c, hc, hm⟩⟩)).2
  have hleft : ∀ l, u.levelsLeft l = s.levelsLeft l := fun l => by rw [levelsLeft, hcat, levelsLeft]
  have hlevel := h.lt_length hs hun hc hm.isRunning
  obtain ⟨st, hn, hrank⟩ := hm.call? hc
  unfold work
  rw [Multiset.add_comm, Multiset.add_comm ((Multiset.range s.requests.length).map _)]
  refine cutExpand_map_range (Nat.le_of_eq hm.length_calls.symm) hm.length_le
    (Table.lt_of_call?_eq_some hc) ?_ (fun m hm' hmn => ?_) (fun m hge hlt => ?_) (fun j hj => ?_)
    fun j hge hlt => ?_
  · unfold flightWork
    simp only [hc, hn, hleft, hm.slots]
    exact flightWeight_lt (by unfold levelsLeft; omega) _ hrank
  · unfold flightWork
    rw [hm.call?_of_ne hmn, hm.slots]
    simp only [hleft]
  · exact absurd hlt (Nat.not_lt.2 (hm.length_calls ▸ hge))
  · unfold requestWork
    rw [hm.getElem? (List.getElem?_eq_getElem hj), List.getElem?_eq_getElem hj]
    simp only [hleft, extended_of_lt hj]
  · -- a new request, which the flight has made when it came to wait
    obtain ⟨c', a, es, kept, children, hc', hst⟩ :=
      hm.exists_gathering hc (Nat.ne_of_gt (Nat.lt_of_le_of_lt hge hlt))
    rw [hn] at hc'; cases hc'
    obtain rfl : st = _ := hst
    obtain ⟨r, hr⟩ : ∃ r, u.requests[j]? = some r := ⟨_, List.getElem?_eq_getElem hlt⟩
    have hcaller : r.caller = .fresh := by
      rcases hm.request_cases hr with hold | ⟨-, hfresh, -⟩
      · exact absurd (List.getElem?_eq_some_iff.1 hold).1 (Nat.not_lt.2 hge)
      · exact hfresh
    have hwork : u.requestWork (extended ℓ s.requests.length (k n + 1)) j
        = 4 * s.levelsLeft (k n + 1) + 3 := by
      unfold requestWork
      simp only [hr, hleft, extended_of_ge hge, hcaller, requestWeight]
    rw [hwork]
    refine Nat.lt_of_lt_of_le ?_ (Nat.succ_le_of_lt (lt_flightWork hc hrank))
    unfold levelsLeft
    omega

/-! ### Requests -/

/-- A request leaves the flights that have begun in their slots, or out of them. -/
theorem RequestMove.slot_iff (hm : RequestMove s i r u) (hun : Unhurried s)
    (hr : s.requests[i]? = some r) (hn : n < s.flights.calls.length) (p : String) :
    u.flights.slots.get? p = some n ↔ s.flights.slots.get? p = some n := by
  cases hm with
  | join _ _ _ _ =>
      show (s.flights.modify _ _).slots.get? p = some n ↔ _
      rw [Table.slots_modify]
  | @launch q _ _ _ _ hidle _ =>
      show (s.flights.slots.insert q s.flights.calls.length).get? p = some n ↔ _
      rw [PathMap.get?_insert]
      split
      · next hpq =>
          subst hpq
          rw [hidle]
          constructor
          · intro h
            exact absurd (Option.some.inj h) (Nat.ne_of_gt hn)
          · intro h
            cases h
      · rfl
  | @take m o rs _ hans _ _ =>
      obtain ⟨c, a, hc, hst, -⟩ := hun.answer hr hans
      show (s.flights.detach m).slots.get? p = some n ↔ _
      rw [detach_of_finished hc (isRunning_eq_false_of_status hst), Table.slots_modify]
  | _ => rfl

/-- A request that goes on has less to bring about. -/
theorem RequestMove.exists_lt (hm : RequestMove s i r u) (hr : s.requests[i]? = some r) (d : Nat) :
    ∃ r', u.requests[i]? = some r' ∧ requestWeight d r'.caller < requestWeight d r.caller := by
  have hset : ∀ {t : Resolver} {y : Caller Answer}, (∃ r₁, t.requests[i]? = some r₁) →
      requestWeight d y < requestWeight d r.caller →
      ∃ r', (t.setCaller i y).requests[i]? = some r' ∧
        requestWeight d r'.caller < requestWeight d r.caller := by
    rintro t y ⟨r₁, hr₁⟩ hlt
    exact ⟨{ r₁ with caller := y }, by rw [getElem?_setCaller, if_pos rfl, hr₁]; rfl, hlt⟩
  cases hm with
  | quit hw _ => exact hset ⟨r, hr⟩ (by rw [hw]; exact Nat.succ_pos _)
  | refuse hw _ _ => exact hset ⟨r, hr⟩ (by rw [hw]; exact Nat.succ_pos _)
  | hit hw _ _ _ _ _ _ => exact hset ⟨r, hr⟩ (by rw [hw]; exact Nat.succ_pos _)
  | join hw _ _ _ => exact hset ⟨r, hr⟩ (by rw [hw]; simp [requestWeight])
  | launch hw _ _ _ _ _ => exact hset ⟨r, hr⟩ (by rw [hw]; simp [requestWeight])
  | take hw _ hrs _ =>
      obtain ⟨r₁, hr₁, -, -⟩ := hrs.symm.exists_eq hr
      exact hset ⟨r₁, hr₁⟩ (by rw [hw]; exact Nat.succ_pos _)

theorem Levelled.request_levels (h : Levelled ℓ k s) (hun : Unhurried s)
    (hr : s.requests[i]? = some r) (hm : RequestMove s i r u) :
    Levelled ℓ (extended k s.flights.calls.length (ℓ i)) u := by
  have hshift : Shift s u := .request hr hm
  have hcat : u.catalog.entries = s.catalog.entries := (Move.frame (.inl hshift)).2
  refine ⟨fun m c' hc' hrun => ?_, fun m c' hc' hrun => ?_, fun j r' hr' hd => ?_⟩
  · rw [Catalog.contains, hcat]
    rcases hshift.call? hc' with ⟨c, hc, hk, hst, -⟩ | ⟨rfl, -⟩
    · exact hk ▸ h.registered m c hc ((isRunning_congr hst).trans hrun)
    · exact (hm.begins hc').registered
  · rcases hshift.call? hc' with ⟨c, hc, -, hst, -⟩ | ⟨rfl, -⟩
    · have hrun' : c.isRunning = true := (isRunning_congr hst).trans hrun
      obtain ⟨j, r', hr', hw, hj⟩ := h.flights m c hc hrun'
      rw [extended_of_lt (Table.lt_of_call?_eq_some hc)]
      by_cases hji : j = i
      · -- a request takes the answer of a flight that has ended only
        subst hji
        rw [hr] at hr'; cases hr'
        obtain ⟨o, -, hans, -⟩ := hm.of_waiting hr hw
        obtain ⟨c₀, a, hc₀, hst₀, -⟩ := hun.answer hr hans
        rw [hc] at hc₀; cases hc₀
        exact absurd hst₀ (not_finished_of_isRunning hrun' _)
      · obtain ⟨r'', hr'', hw'⟩ := hm.caller_of_ne hji hr'
        exact ⟨j, r'', hr'', hw'.trans hw, hj⟩
    · obtain ⟨r', hr', hw⟩ := (hm.begins hc').waits hr
      exact ⟨i, r', hr', hw, (extended_of_ge (Nat.le_refl _)).symm⟩
  · have hpending : ∃ r₀, s.requests[j]? = some r₀ ∧ r₀.caller.isDone = false := by
      by_cases hji : j = i
      · subst hji
        refine ⟨r, hr, ?_⟩
        cases hw : r.caller with
        | done o => exact absurd hw (hm.not_done o)
        | fresh => rfl
        | waiting _ => rfl
      · obtain ⟨r₀, hr₀, hc⟩ := hm.caller_of_ne' hji hr'
        exact ⟨r₀, hr₀, hc ▸ hd⟩
    obtain ⟨r₀, hr₀, hd₀⟩ := hpending
    refine (h.requests j r₀ hr₀ hd₀).imp_right ?_
    rintro ⟨m, c, a, es, kept, children, hc, hst, hj, hm'⟩
    obtain ⟨c', hc', -, hst'⟩ := hshift.exists_call? hc
    exact ⟨m, c', a, es, kept, children, hc', hst'.trans hst, hj,
      (extended_of_lt (Table.lt_of_call?_eq_some hc)).symm ▸ hm'⟩

/-- A request that goes on has less to bring about, and so has the flight that it begins. -/
theorem Levelled.request (h : Levelled ℓ k s) (hun : Unhurried s)
    (hr : s.requests[i]? = some r) (hm : RequestMove s i r u) :
    ∃ k', Levelled ℓ k' u ∧ CutExpand (· < ·) (u.work ℓ k') (s.work ℓ k) := by
  refine ⟨_, h.request_levels hun hr hm, ?_⟩
  have hshift : Shift s u := .request hr hm
  have hcat : u.catalog.entries = s.catalog.entries := (Move.frame (.inl hshift)).2
  have hleft : ∀ l, u.levelsLeft l = s.levelsLeft l := fun l => by rw [levelsLeft, hcat, levelsLeft]
  have hcalls : s.flights.calls.length ≤ u.flights.calls.length := by
    by_contra hlt
    obtain ⟨c', hc', -⟩ := hshift.exists_call? (List.getElem?_eq_getElem (Nat.not_le.1 hlt))
    exact Nat.lt_irrefl _ (Table.lt_of_call?_eq_some hc')
  unfold work
  -- the request's own weight pays for the flight that it may begin
  refine cutExpand_map_range (Nat.le_of_eq hm.length_eq.symm) hcalls
    (List.getElem?_eq_some_iff.1 hr).1 ?_ (fun j hj hji => ?_) (fun j hge hlt => ?_)
    (fun m hlt => ?_) fun m hge hlt => ?_
  · obtain ⟨r', hr', hlt⟩ := hm.exists_lt hr (s.levelsLeft (ℓ i))
    unfold requestWork
    simp only [hr, hr', hleft]
    exact hlt
  · obtain ⟨r', hr'⟩ : ∃ r', s.requests[j]? = some r' := ⟨_, List.getElem?_eq_getElem hj⟩
    obtain ⟨r'', hr'', hc⟩ := hm.caller_of_ne hji hr'
    unfold requestWork
    simp only [hr', hr'', hc, hleft]
  · exact absurd hlt (Nat.not_lt.2 (hm.length_eq ▸ hge))
  · obtain ⟨c, hc⟩ : ∃ c, s.flights.call? m = some c := ⟨_, List.getElem?_eq_getElem hlt⟩
    obtain ⟨c', hc', hk, hst⟩ := hshift.exists_call? hc
    have hslot : (u.flights.slots.get? c'.key == some m) = (s.flights.slots.get? c.key == some m) := by
      rw [Bool.eq_iff_iff, beq_iff_eq, beq_iff_eq, hk]
      exact hm.slot_iff hun hr hlt c.key
    unfold flightWork
    simp only [hc, hc', hst, hleft, hslot, extended_of_lt hlt]
  · -- the flight that the request has begun
    obtain ⟨c, hc⟩ : ∃ c, u.flights.call? m = some c := ⟨_, List.getElem?_eq_getElem hlt⟩
    rcases hshift.call? hc with ⟨c₀, hc₀, -⟩ | ⟨rfl, hst⟩
    · exact absurd (Table.lt_of_call?_eq_some hc₀) (Nat.not_lt.2 hge)
    · have hfresh : r.caller = .fresh := (hm.begins hc).fresh
      unfold flightWork requestWork
      simp only [hc, hst, hr, hfresh, hleft, extended_of_ge (Nat.le_refl _), flightWeight,
        requestWeight]
      omega

/-! ### All else -/

theorem Levelled.congr (h : Levelled ℓ k s) (hcat : u.catalog.entries = s.catalog.entries)
    (hflights : ∀ n, u.flights.call? n = s.flights.call? n) (hrequests : u.requests = s.requests) :
    Levelled ℓ k u := by
  refine ⟨fun n c hc hr => ?_, fun n c hc hr => ?_, fun i r hr hd => ?_⟩
  · rw [Catalog.contains, hcat]
    exact h.registered n c (hflights n ▸ hc) hr
  · rw [hrequests]
    exact h.flights n c (hflights n ▸ hc) hr
  · refine (h.requests i r (hrequests ▸ hr) hd).imp_right ?_
    rintro ⟨n, c, a, es, kept, children, hc, hst, hi, hn⟩
    exact ⟨n, c, a, es, kept, children, (hflights n).trans hc, hst, hi, hn⟩

/-- What makes kept results outdated brings nothing about. -/
theorem Levelled.lapse (h : Levelled ℓ k s) (hl : Lapse s u) :
    Levelled ℓ k u ∧ u.work ℓ k = s.work ℓ k := by
  obtain ⟨-, hcat, hflights, hrequests⟩ := hl.frame
  refine ⟨h.congr (by rw [hcat]) (fun n => by rw [hflights]) hrequests, ?_⟩
  have hr : requestWork ℓ u = requestWork ℓ s := by
    funext i
    unfold requestWork levelsLeft
    rw [hrequests, hcat]
  have hf : flightWork k u = flightWork k s := by
    funext n
    unfold flightWork levelsLeft
    rw [hflights, hcat]
  unfold work
  rw [hr, hf, hrequests, hflights]

/-- A flight that leaves its slot has nothing to bring about any more. -/
theorem Levelled.forget (h : Levelled ℓ k s) (hc : s.flights.call? n = some c)
    (hdone : c.isRunning = false) (hslot : s.flights.slots.get? c.key = some n) :
    Levelled ℓ k { s with flights := s.flights.forget n } ∧
      CutExpand (· < ·) (work ℓ k { s with flights := s.flights.forget n }) (s.work ℓ k) := by
  refine ⟨h.congr rfl (fun m => Table.call?_forget _ _ _) rfl, ?_⟩
  obtain ⟨o, hst⟩ := isRunning_eq_false_iff.1 hdone
  unfold work
  rw [Multiset.add_comm, Multiset.add_comm ((Multiset.range s.requests.length).map _)]
  refine cutExpand_map_range (Nat.le_of_eq (Table.length_forget _ _).symm) (Nat.le_refl _)
    (Table.lt_of_call?_eq_some hc) ?_ (fun m hlt hmn => ?_) (fun m hge hlt => ?_) (fun _ _ => rfl)
    fun m hge hlt => absurd hlt (Nat.not_lt.2 hge)
  · unfold flightWork
    simp only [Table.call?_forget, hc, Table.slots_forget hc, hslot, and_self, if_true, hst,
      flightWeight, beq_self_eq_true]
    exact Nat.zero_lt_one
  · obtain ⟨c', hc'⟩ : ∃ c', s.flights.call? m = some c' := ⟨_, List.getElem?_eq_getElem hlt⟩
    have hsame : ((s.flights.forget n).slots.get? c'.key == some m)
        = (s.flights.slots.get? c'.key == some m) := by
      rw [Table.slots_forget hc]
      split
      · next hk =>
          -- the slot is that of the flight that has ended
          rw [hk.2, Bool.eq_iff_iff, beq_iff_eq, beq_iff_eq]
          constructor
          · intro h
            cases h
          · intro h
            exact absurd (Option.some.inj h).symm hmn
      · rfl
    unfold flightWork
    simp only [Table.call?_forget, hc', hsame]
    rfl
  · exact absurd hlt (Nat.not_lt.2 (by rw [Table.length_forget]; exact hge))

/-- Where nothing goes on, all are on the first level. -/
theorem Levelled.rest (hflights : ∀ n c, s.flights.call? n = some c → c.isRunning = false)
    (hrequests : ∀ (i : Nat) r, s.requests[i]? = some r → r.caller.isDone = true) :
    Levelled (fun _ => 0) (fun _ => 0) s where
  registered n c hc hr := by rw [hflights n c hc] at hr; cases hr
  flights n c hc hr := by rw [hflights n c hc] at hr; cases hr
  requests i r hr hd := by rw [hrequests i r hr] at hd; cases hd

/-- A request that is made from outside is on the first level. -/
theorem Levelled.ask (h : Levelled ℓ k s) (t : Target) :
    Levelled (extended ℓ s.requests.length 0) k (s.ask t).2 := by
  refine ⟨h.registered, fun n c hc hr => ?_, fun i r hr hd => ?_⟩
  · obtain ⟨i, r, hr, hw, hi⟩ := h.flights n c hc hr
    have hlt := (List.getElem?_eq_some_iff.1 hr).1
    exact ⟨i, r, (List.getElem?_append_left hlt).trans hr, hw, (extended_of_lt hlt).trans hi⟩
  · rcases Nat.lt_or_ge i s.requests.length with hlt | hge
    · rw [extended_of_lt hlt]
      exact h.requests i r ((List.getElem?_append_left hlt).symm.trans hr) hd
    · exact .inl (extended_of_ge hge)

/-- Every move keeps a resolver levelled. -/
theorem Levelled.move (h : Levelled ℓ k s) (hun : Unhurried s) (hm : Move s u) :
    ∃ ℓ' k', Levelled ℓ' k' u := by
  rcases hm with hm | ⟨n, hq | ⟨c, hc, hm⟩⟩
  · cases hm with
    | lapse hl => exact ⟨ℓ, k, (h.lapse hl).1⟩
    | ask t => exact ⟨_, k, h.ask t⟩
    | forget _ _ => exact ⟨ℓ, k, h.congr rfl (fun m => Table.call?_forget _ _ _) rfl⟩
    | request hr hm => exact ⟨ℓ, _, h.request_levels hun hr hm⟩
  · exact ⟨ℓ, k, (h.lapse (.quiet hq)).1⟩
  · exact ⟨_, k, h.flight_levels hun hc hm⟩

end HashedAssets.Resolver
