import HashedAssets.Proofs.Resolver.Host
import HashedAssets.Proofs.Resolver.Patience

/-!
# What is reported

A flight reports when it begins and when it ends, and a request reports when it uses what is kept.
Nothing else is reported, so all that is reported on a path can be told from how its flights stand, but
for the hits between them.

* `Standing`, `reportsOf`: how a flight stands, and what has been reported on it by then;
* `record`: all reports, and how all flights stand; `record_invalidate`, `record_runRequest`: who leaves
  this as it is, and what a request adds; `record_runFlight`: a flight reports as it goes on;
* `Logged`: a path has one flight after the other, with hits between them; `Run.sequenced`: in every run
  of patient callers this is so on each path.
-/

namespace HashedAssets.Resolver

open SingleFlight Relation

variable {s t : Resolver} {n : CallId} {c : Flight} {p q : String}

/-! ### Reports -/

/-- How a flight stands. -/
abbrev Standing := SingleFlight.Status Phase Answer

/-- A flight has ended. -/
def Over (st : Standing) : Prop := ∃ o, st = .finished o

/-- That a flight has begun. -/
def pendingOn (p : String) : Event := ⟨p, .pending, ""⟩

/-- What has been reported on a flight for a path: that it has begun, and with what it has ended. A failure
that does not lie in the assets is not reported. -/
def reportsOf (p : String) : Standing → List Event
  | .running .launched => []
  | .running _ => [pendingOn p]
  | .finished (.result (.ok r)) => [pendingOn p, ⟨p, .completed, r.publicPath⟩]
  | .finished (.result (.error f)) =>
      pendingOn p :: if f.isOfAsset then [⟨p, .failed, f.message⟩] else []
  | .finished .cancelled => []

theorem of_mem_reportsOf {st : Standing} {e : Event} (he : e ∈ reportsOf p st) :
    e.path = p ∧ e.status ≠ .cached := by
  have hpending : (pendingOn p).path = p ∧ (pendingOn p).status ≠ .cached := ⟨rfl, by simp [pendingOn]⟩
  unfold reportsOf at he
  split at he
  · cases he
  · exact List.mem_singleton.1 he ▸ hpending
  · rcases List.mem_cons.1 he with rfl | he
    · exact hpending
    · exact List.mem_singleton.1 he ▸ ⟨rfl, by simp⟩
  · rcases List.mem_cons.1 he with rfl | he
    · exact hpending
    · split at he
      · exact List.mem_singleton.1 he ▸ ⟨rfl, by simp⟩
      · cases he
  · cases he

/-- What was reported on a path. -/
def reports (s : Resolver) (p : String) : List Event := s.events.filter (·.path == p)

/-- The flights for a path, in the order in which they began. -/
def flightsFor (s : Resolver) (p : String) : List Flight := s.flights.calls.filter (·.key == p)

/-- For each flight its path, and how it stands. -/
def stands (t : Table Phase Answer) : List (String × Standing) := t.calls.map fun c => (c.key, c.status)

/-- All that was reported, and how all flights stand. -/
def record (s : Resolver) : List Event × List (String × Standing) := (s.events, stands s.flights)

theorem status_flightsFor (s : Resolver) (p : String) : (s.flightsFor p).map (·.status) =
    ((stands s.flights).filter (·.1 == p)).map (·.2) := by
  simp only [flightsFor, stands, List.filter_map, List.map_map]
  rfl

theorem getElem?_stands (t : Table Phase Answer) (n : CallId) :
    (stands t)[n]? = (t.call? n).map fun c => (c.key, c.status) := List.getElem?_map

theorem stands_forget (t : Table Phase Answer) (n : CallId) : stands (t.forget n) = stands t :=
  List.ext_getElem? fun m => by rw [getElem?_stands, getElem?_stands, Table.call?_forget]

theorem stands_detach (t : Table Phase Answer) (n : CallId) : stands (t.detach n) = stands t :=
  List.ext_getElem? fun m => by rw [getElem?_stands, getElem?_stands, Table.call?_detach]

theorem stands_waiters (t : Table Phase Answer) (n : CallId) (k : Nat → Nat) :
    stands (t.modify n fun c => { c with waiters := k c.waiters }) = stands t :=
  List.ext_getElem? fun m => by
    rw [getElem?_stands, getElem?_stands, Table.call?_modify]
    split
    · cases t.call? m <;> rfl
    · rfl

theorem stands_status {t : Table Phase Answer} (hc : t.call? n = some c) (st : Standing) :
    stands (t.modify n fun c => { c with status := st }) = (stands t).set n (c.key, st) :=
  List.ext_getElem? fun m => by
    rw [getElem?_stands, Table.call?_modify, List.getElem?_set, getElem?_stands]
    by_cases hm : m = n
    · subst hm
      have hlt : m < (stands t).length := by
        rw [stands, List.length_map]
        exact Table.lt_of_call?_eq_some hc
      rw [if_pos rfl, if_pos rfl, if_pos hlt, hc]
      rfl
    · rw [if_neg hm, if_neg (Ne.symm hm)]

/-! ### Who reports nothing -/

theorem record_leave (s : Resolver) (n : CallId) : (s.leave n).record = s.record := by
  obtain ⟨rs, hrs, -⟩ := leave_eq s n
  rw [hrs]
  exact Prod.ext rfl (stands_detach s.flights n)

theorem record_takeAnswer (s : Resolver) (i : RequestId) : (s.takeAnswer i).record = s.record := by
  unfold takeAnswer
  split
  · rfl
  · split
    · split
      · rfl
      · exact record_leave s _
      · exact record_leave s _
    · rfl

theorem record_dropOrDefer (s : Resolver) (p : String) : (s.dropOrDefer p).record = s.record := by
  unfold dropOrDefer
  split <;> rfl

theorem record_invalidate (s : Resolver) (p : String) : (s.invalidate p).2.record = s.record := by
  unfold invalidate
  split
  · rfl
  · exact (eq_of_foldl (g := record) (f := mark) (fun _ _ => rfl) _ _).trans
      (eq_of_foldl record_dropOrDefer _ _)

theorem record_clear (s : Resolver) : s.clear.record = s.record :=
  eq_of_foldl record_dropOrDefer s s.entries.keys

theorem record_checkPath (s : Resolver) (p : String) : (s.checkPath p).record = s.record := by
  unfold checkPath
  split
  · split
    · rfl
    · dsimp only
      split
      · exact record_invalidate _ p
      · rfl
  · rfl

theorem record_kept? (s : Resolver) (p : String) : (s.kept? p).2.record = s.record := by
  unfold kept?
  split
  · rfl
  · have hstale : (if s.watch.isSome then s.dropStale p else s).record = s.record := by
      split
      · exact eq_of_foldl record_checkPath s _
      · rfl
    dsimp only
    generalize (if s.watch.isSome then s.dropStale p else s) = t at hstale ⊢
    split <;> exact hstale

/-! ### Requests -/

/-- A hit for a path. -/
def cachedOn (p : String) : Event := ⟨p, .cached, ""⟩

/-- A request that goes on reports nothing and begins no flight, unless no flight for its path is in its
slot. -/
theorem record_request (s : Resolver) (i : RequestId) (target : Target) (p : String) :
    (s.request i target p).record = s.record ∨ s.flights.slots.get? p = none ∧
      ((s.request i target p).record = (s.events ++ [cachedOn p], stands s.flights) ∨
        (s.request i target p).record = (s.events, stands s.flights ++ [(p, .running .launched)])) := by
  obtain ⟨hl, hcases⟩ := kept?_cases s p
  have hflights := (frame_of_lapses hl).2.2.1
  have hrecord := record_kept? s p
  unfold request
  split
  · exact .inl rfl
  · revert hcases hflights hrecord
    clear hl
    generalize s.kept? p = y
    obtain ⟨k, t⟩ := y
    intro hcases hflights hrecord
    dsimp only at *
    obtain ⟨hevents, hstands⟩ := Prod.mk.inj hrecord
    rcases hcases with ⟨e, rfl, -, -, hidle⟩ | ⟨rfl, -⟩
    · exact .inr ⟨hidle, .inl (Prod.ext (congrArg (· ++ [cachedOn p]) hevents) hstands)⟩
    · dsimp only
      rw [record_takeAnswer]
      cases hslot : t.flights.slots.get? p with
      | some n =>
          rw [Table.attach_of_some hslot]
          exact .inl (Prod.ext hevents ((stands_waiters t.flights n (· + 1)).trans hstands))
      | none =>
          rw [Table.attach_of_none hslot]
          refine .inr ⟨hflights ▸ hslot, .inr (Prod.ext hevents ?_)⟩
          exact List.map_append.trans (congrArg (· ++ _) hstands)

theorem record_runRequest (s : Resolver) (i : RequestId) : (s.runRequest i).record = s.record ∨
    ∃ p, s.flights.slots.get? p = none ∧
      ((s.runRequest i).record = (s.events ++ [cachedOn p], stands s.flights) ∨
        (s.runRequest i).record = (s.events, stands s.flights ++ [(p, .running .launched)])) := by
  have hrequest : ∀ target p, (s.request i target p).record = s.record ∨
      ∃ p', s.flights.slots.get? p' = none ∧
        ((s.request i target p).record = (s.events ++ [cachedOn p'], stands s.flights) ∨
          (s.request i target p).record = (s.events, stands s.flights ++ [(p', .running .launched)])) :=
    fun target p => (record_request s i target p).imp_right fun h => ⟨p, h⟩
  unfold runRequest
  split
  · exact .inl rfl
  · split
    · split
      · exact .inl rfl
      · split
        · exact hrequest _ _
        · split
          · exact hrequest _ _
          · exact .inl rfl
    · exact .inl (record_takeAnswer s i)
    · exact .inl rfl

/-! ### Flights -/

/-- A flight that has reported that it has begun reports what it ends with, if it does. -/
def Tells (n : CallId) (p : String) (t : Resolver) (before : List Event × List (String × Standing)) :
    Prop :=
  ∃ st new, t.record = (before.1 ++ new, before.2.set n (p, st)) ∧ reportsOf p st = pendingOn p :: new

theorem tells_fail (hc : s.flights.call? n = some c) (f : Failure) :
    Tells n c.key (s.fail n c.key f) s.record := by
  have hstands := stands_status hc (.finished (.result (.error f)))
  refine ⟨.finished (.result (.error f)), _, ?_, rfl⟩
  unfold fail
  cases f.isOfAsset
  · exact Prod.ext (List.append_nil _).symm hstands
  · exact Prod.ext rfl hstands

theorem tells_succeed (hc : s.flights.call? n = some c) (r : Resolved) :
    Tells n c.key (s.succeed n c.key r) s.record := by
  refine ⟨.finished (.result (.ok r)), _, ?_, rfl⟩
  unfold succeed
  split <;> exact Prod.ext rfl (stands_status hc _)

theorem tells_conclude (hc : s.flights.call? n = some c) (a : Prepared) (es : List Edge)
    (kept : Option Resolved) (m : PathMap Resolved) :
    Tells n c.key (s.conclude n c.key a es kept m) s.record := by
  unfold conclude
  split
  · exact tells_succeed (by exact hc) _
  · split
    · exact tells_fail hc _
    · exact tells_succeed (by exact hc) _

theorem tells_gather (hc : s.flights.call? n = some c) (a : Prepared) (es : List Edge)
    (kept : Option Resolved) : Tells n c.key (s.gather n c.key a es kept) s.record := by
  unfold gather
  split
  · exact tells_conclude hc a es kept ∅
  · exact ⟨_, [], Prod.ext (List.append_nil _).symm (stands_status hc _), rfl⟩

theorem tells_loaded (hc : s.flights.call? n = some c) (result : Except Fault Bytes) :
    Tells n c.key (s.loaded n c.key result) s.record := by
  unfold loaded
  split
  · exact tells_fail hc _
  · split
    · exact tells_fail hc _
    · split
      · exact tells_fail hc _
      · dsimp only
        split
        · exact tells_fail (by exact hc) _
        · exact tells_gather (by exact hc) _ _ none

theorem tells_load (hc : s.flights.call? n = some c) : Tells n c.key (s.load n c.key) s.record := by
  unfold load
  split
  · exact tells_fail hc _
  · dsimp only
    split
    · exact tells_loaded (by exact hc) _
    · exact ⟨_, [], Prod.ext (List.append_nil _).symm (stands_status hc _), rfl⟩

theorem tells_start (hc : s.flights.call? n = some c) :
    Tells n c.key (s.start n c.key) (s.report c.key .pending "").record := by
  unfold start
  dsimp only
  split
  · split
    · exact tells_gather (by exact hc) _ _ _
    · exact tells_load (by exact hc)
  · exact tells_load (by exact hc)

/-- A flight that goes on changes how it stands itself, if anything, and reports what belongs to this. -/
theorem record_runFlight (hun : Unhurried s) (hun' : Unhurried (s.runFlight n)) :
    (s.runFlight n).record = s.record ∨ ∃ c st new, s.flights.call? n = some c ∧ c.isRunning = true ∧
      (s.runFlight n).record = (s.events ++ new, (stands s.flights).set n (c.key, st)) ∧
      reportsOf c.key st = reportsOf c.key c.status ++ new := by
  revert hun'
  unfold runFlight
  split
  · exact fun _ => .inl rfl
  · next c hc =>
      have hgoing : c.cancelled = false := (hun.calls n c hc).1
      -- a flight under way has reported that it is pending, and nothing else
      have hadd : ∀ {t}, Tells n c.key t s.record → c.isRunning = true →
          reportsOf c.key c.status = [pendingOn c.key] → t.record = s.record ∨ ∃ c' st new,
            s.flights.call? n = some c' ∧ c'.isRunning = true ∧
            t.record = (s.events ++ new, (stands s.flights).set n (c'.key, st)) ∧
            reportsOf c'.key st = reportsOf c'.key c'.status ++ new := by
        rintro t ⟨st, new, ht, hnew⟩ hrun hbegun
        exact .inr ⟨c, st, new, hc, hrun, ht, hnew.trans (by rw [hbegun]; rfl)⟩
      split
      · exact fun _ => .inl rfl
      · next hst =>
          rw [hgoing, if_neg (by decide)]
          obtain ⟨st, new, ht, hnew⟩ := tells_start (s := s) hc
          refine fun _ => .inr ⟨c, st, pendingOn c.key :: new, hc, isRunning_of_status hst, ?_, ?_⟩
          · rw [ht]
            exact Prod.ext (List.append_assoc _ _ _) rfl
          · rw [hnew, hst]
            rfl
      · next fetched hst =>
          have hbegun : reportsOf c.key c.status = [pendingOn c.key] := by rw [hst]; rfl
          rw [hgoing, if_neg (by decide)]
          split
          · exact fun _ => hadd (tells_loaded hc _) (isRunning_of_status hst) hbegun
          · exact fun _ => .inl rfl
      · next a es kept children hst =>
          have hbegun : reportsOf c.key c.status = [pendingOn c.key] := by rw [hst]; rfl
          split
          · exact fun _ => .inl rfl
          · rw [hgoing, if_neg (by decide)]
            split
            · -- no request is given up, so no flight is
              intro hun'
              refine absurd rfl (hun'.calls n { c with status := .finished .cancelled } ?_).2
              exact call?_finish_self hc _
            · exact fun _ => hadd (tells_fail hc _) (isRunning_of_status hst) hbegun
            · exact fun _ => hadd (tells_conclude hc _ _ _ _) (isRunning_of_status hst) hbegun

/-! ### One flight after the other -/

/-- What is reported on a path when one flight begins after the other has ended, and hits are reported
while there is none. -/
inductive Logged (p : String) : List Standing → List Event → Prop
  | nil : Logged p [] []
  | hit {sts : List Standing} {es : List Event} (before : Logged p sts es) (ended : ∀ st ∈ sts, Over st) :
      Logged p sts (es ++ [cachedOn p])
  | flight {sts : List Standing} {es : List Event} (before : Logged p sts es)
      (ended : ∀ st ∈ sts, Over st) (st : Standing) : Logged p (sts ++ [st]) (es ++ reportsOf p st)

/-- A flight that goes on is the last one, and nothing has been reported behind its own reports. -/
theorem Logged.advance {before after : List Standing} {st st' : Standing} {es new : List Event}
    (h : Logged p (before ++ st :: after) es) (hst : ¬ Over st)
    (hnew : reportsOf p st' = reportsOf p st ++ new) :
    Logged p (before ++ st' :: after) (es ++ new) := by
  generalize hsts : before ++ st :: after = sts at h
  have hmem : st ∈ sts := hsts ▸ by simp
  cases h with
  | nil => cases hmem
  | hit _ ended => exact absurd (ended st hmem) hst
  | @flight sts₀ es₀ h₀ ended last =>
      rcases List.eq_nil_or_concat after with rfl | ⟨after, y, rfl⟩
      · obtain ⟨rfl, hlast⟩ := List.append_inj' hsts rfl
        obtain rfl : st = last := by simpa using hlast
        rw [List.append_assoc, ← hnew]
        exact .flight h₀ ended st'
      · have hsplit : (before ++ st :: after) ++ [y] = sts₀ ++ [last] := by
          rw [← hsts, List.concat_eq_append, List.append_assoc]
          rfl
        obtain ⟨hsts₀, -⟩ := List.append_inj' hsplit rfl
        exact absurd (ended st (hsts₀ ▸ by simp)) hst

/-- On each path one flight has been reported after the other. -/
def Sequenced (s : Resolver) : Prop := ∀ p, Logged p ((s.flightsFor p).map (·.status)) (s.reports p)

/-- The same, told from the record. -/
theorem sequenced_iff : Sequenced s ↔ ∀ p, Logged p (((stands s.flights).filter (·.1 == p)).map (·.2))
    (s.events.filter (·.path == p)) := by
  simp only [Sequenced, status_flightsFor]
  rfl

theorem Sequenced.congr (h : Sequenced s) (he : t.record = s.record) : Sequenced t := by
  obtain ⟨hevents, hstands⟩ := Prod.mk.inj he
  rw [sequenced_iff] at h ⊢
  rw [hstands, hevents]
  exact h

/-- Where no flight for a path is in its slot, all flights for it have ended. -/
theorem over_of_idle (hs : Coherent s) (hun : Unhurried s) (hp : s.flights.slots.get? p = none) :
    ∀ st ∈ (s.flightsFor p).map (·.status), Over st := by
  intro st hst
  obtain ⟨c, hc, rfl⟩ := List.mem_map.1 hst
  obtain ⟨hmem, hkey⟩ := List.mem_filter.1 hc
  obtain ⟨n, hn⟩ := List.mem_iff_getElem?.1 hmem
  cases hstatus : c.status with
  | finished o => exact ⟨o, rfl⟩
  | running w =>
      have hslot := hs.wired.held n c hn (isRunning_of_status hstatus) (hun.calls n c hn).1
      rw [eq_of_beq hkey, hp] at hslot
      cases hslot

theorem Sequenced.runRequest (h : Sequenced s) (hs : Coherent s) (hun : Unhurried s) (i : RequestId) :
    Sequenced (s.runRequest i) := by
  rcases record_runRequest s i with he | ⟨q, hq, he | he⟩
  · exact h.congr he
  all_goals
    have hover := over_of_idle hs hun hq
    rw [status_flightsFor] at hover
    obtain ⟨hevents, hstands⟩ := Prod.mk.inj he
    rw [sequenced_iff] at h ⊢
    intro p
    have hp := h p
    rw [hstands, hevents]
  · -- a hit
    by_cases hpq : p = q
    · subst hpq
      simpa [cachedOn] using hp.hit hover
    · simpa [cachedOn, Ne.symm hpq] using hp
  · -- a flight that has not begun, and has not reported anything
    by_cases hpq : p = q
    · subst hpq
      simpa [reportsOf] using hp.flight hover (.running .launched)
    · simpa [Ne.symm hpq] using hp

theorem Sequenced.runFlight (h : Sequenced s) (hun : Unhurried s) (hun' : Unhurried (s.runFlight n)) :
    Sequenced (s.runFlight n) := by
  rcases record_runFlight hun hun' with he | ⟨c, st, new, hc, hrun, he, hnew⟩
  · exact h.congr he
  · obtain ⟨hevents, hstands⟩ := Prod.mk.inj he
    have hlt : n < (stands s.flights).length := by
      rw [stands, List.length_map]
      exact Table.lt_of_call?_eq_some hc
    obtain ⟨before, after, hsplit, -, hset⟩ :
        ∃ before after, stands s.flights = before ++ (stands s.flights)[n] :: after ∧
          before.length = n ∧ (stands s.flights).set n (c.key, st) = before ++ (c.key, st) :: after :=
      List.exists_of_set hlt
    have hat : (stands s.flights)[n] = (c.key, c.status) := by
      rw [← Option.some.injEq, ← List.getElem?_eq_getElem hlt, getElem?_stands, hc]
      rfl
    have hpaths : ∀ e ∈ new, e.path = c.key := fun e hmem => by
      have hmem' : e ∈ reportsOf c.key st := hnew ▸ List.mem_append_right _ hmem
      exact (of_mem_reportsOf hmem').1
    have hgoing : ¬ Over c.status := fun ⟨o, ho⟩ => not_finished_of_isRunning hrun o ho
    rw [sequenced_iff] at h ⊢
    intro p
    have hp := h p
    rw [hstands, hevents, hset]
    rw [hsplit, hat] at hp
    rw [List.filter_append, List.map_append] at hp ⊢
    rw [List.filter_append]
    -- the new reports are the flight's own, so those on other paths are as they were
    by_cases hpc : c.key = p
    · subst hpc
      have hown : new.filter (·.path == c.key) = new :=
        List.filter_eq_self.2 fun e he => beq_iff_eq.2 (hpaths e he)
      have hcons : ∀ st : Standing, ((c.key, st) :: after).filter (·.1 == c.key) =
          (c.key, st) :: after.filter (·.1 == c.key) := fun st => List.filter_cons_of_pos (by simp)
      rw [hcons, List.map_cons] at hp ⊢
      rw [hown]
      exact hp.advance hgoing hnew
    · have hnone : new.filter (·.path == p) = [] :=
        List.filter_eq_nil_iff.2 fun e he => by simpa [hpaths e he] using hpc
      have hcons : ∀ st : Standing, ((c.key, st) :: after).filter (·.1 == p) =
          after.filter (·.1 == p) := fun st => List.filter_cons_of_neg (by simpa using hpc)
      rw [hcons] at hp ⊢
      rw [hnone, List.append_nil]
      exact hp

theorem Sequenced.act (h : Sequenced s) (hs : Coherent s) (hun : Unhurried s) {a : Action} (ha : a.Patient)
    (hun' : Unhurried (s.act a)) : Sequenced (s.act a) := by
  cases a with
  | ask t => exact h
  | cancel i => exact ha.elim
  | openGate g => exact h
  | closeGate g => exact h
  | invalidate p => exact h.congr (record_invalidate s p)
  | clear => exact h.congr (record_clear s)
  | step x =>
      cases x with
      | forget n => exact h.congr (Prod.ext rfl (stands_forget s.flights n))
      | request i => exact h.runRequest hs hun i
      | flight n => exact h.runFlight hun hun'

/-- In every run of patient callers one flight is reported after the other. -/
theorem Run.sequenced {x : Context} {cat : Catalog} {watch : Option Watch} {ok : Action → Prop}
    (hcat : cat.Keyed) (h : Run ok (make x cat watch) s) (hok : ∀ a, ok a → a.Patient) :
    Coherent s ∧ Unhurried s ∧ Sequenced s := by
  induction h with
  | refl => exact ⟨.make hcat watch, .make x cat watch, fun p => .nil⟩
  | @next t a _ ha hadm ih =>
      obtain ⟨hs, hun, hseq⟩ := ih
      have hun' : Unhurried (t.act a) := hun.moves (moves_act hadm (hok a ha))
      exact ⟨hs.act hadm, hun', hseq.act hs hun (hok a ha) hun'⟩

end HashedAssets.Resolver
