import HashedAssets.Proofs.Resolver.Moves

/-!
# Runs

* `Action`, `act`, `Admits`: what can happen to a resolver;
* `Run`: any number of admitted actions, in any order;
* `Course`: a run that notes which paths have lost their edges: those whose last flight that did not
  write edges took them back;
* `Run.induction`: what each move keeps, a run of patient callers keeps; `Run.induction_advance`,
  `Run.induction_internal`: so does what goes on by itself.
-/

namespace HashedAssets

open SingleFlight Relation

/-- Whether a flight at a phase is still to read its source; a flight that has not begun checks what is
kept, if anything is. -/
def Phase.loads (isKept : Bool) : Phase → Bool
  | .launched => !isKept
  | .loading _ => true
  | .gathering .. => false

namespace Resolver

/-- What can happen to a resolver: what callers and the host do, and pieces of what goes on by itself. -/
inductive Action
  | ask (target : Target)
  | cancel (i : RequestId)
  | openGate (gate : String)
  | closeGate (gate : String)
  | invalidate (path : String)
  | clear
  | step (x : Step)

/-- Whether something can happen: only what can go on goes on by itself. -/
def Admits (s : Resolver) : Action → Prop
  | .step x => x ∈ s.ready
  | _ => True

/-- The state after something has happened. -/
def act (s : Resolver) : Action → Resolver
  | .ask t => (s.ask t).2
  | .cancel i => (s.cancel i).2
  | .openGate g => s.openGate g
  | .closeGate g => s.closeGate g
  | .invalidate p => (s.invalidate p).2
  | .clear => s.clear
  | .step x => s.step x

/-- Whether an action is not that of a caller who gives up. -/
def Action.Patient : Action → Prop
  | .cancel _ => False
  | _ => True

/-- Whether an action is what goes on by itself, or one at a gate. -/
def Action.Internal : Action → Prop
  | .step _ => True
  | .openGate _ => True
  | .closeGate _ => True
  | _ => False

theorem Action.Internal.patient {a : Action} (h : a.Internal) : a.Patient := by
  cases a <;> trivial

/-- Actions of an admitted kind, one after the other. -/
inductive Run (ok : Action → Prop) (s : Resolver) : Resolver → Prop
  | refl : Run ok s s
  | next {t : Resolver} {a : Action} : Run ok s t → ok a → t.Admits a → Run ok s (t.act a)

/-! ### Lost edges -/

/-- What a flight that goes on does to the edges of its path: it takes them back (`some true`), writes
them (`some false`), or leaves them. -/
def turn (isKept : Bool) (before after : Flight) : Option Bool :=
  match before.status, after.status with
  | .running .launched, .finished .cancelled => if before.cancelled then none else some true
  | .running _, .finished .cancelled => some true
  | .running w, .finished (.result (.error f)) =>
      if f.isOfAsset then some true else if w.loads isKept then some false else none
  | .running w, .finished (.result (.ok _)) => if w.loads isKept then some false else none
  | .running w, .running (.gathering ..) => if w.loads isKept then some false else none
  | _, _ => none

/-- The paths that have lost their edges when those of one path are taken back, written, or left. -/
def lostWith (path : String) (lost : List String) : Option Bool → List String
  | some true => path :: lost.filter (· != path)
  | some false => lost.filter (· != path)
  | none => lost

/-- The paths that have lost their edges when a flight has gone on. -/
def lostBy (s t : Resolver) (n : CallId) (lost : List String) : List String :=
  match s.flights.call? n, t.flights.call? n with
  | some c, some c' => lostWith c.key lost (turn (s.entries.contains c.key) c c')
  | _, _ => lost

/-- The paths that have lost their edges when something has happened. -/
def lostAfter (s : Resolver) (a : Action) (lost : List String) : List String :=
  match a with
  | .step (.flight n) => s.lostBy (s.runFlight n) n lost
  | _ => lost

/-- A run, with the paths whose edges were taken back by a flight and not written again since. -/
inductive Course (ok : Action → Prop) (s : Resolver) : Resolver → List String → Prop
  | refl : Course ok s s []
  | next {t : Resolver} {lost : List String} {a : Action} : Course ok s t lost → ok a → t.Admits a →
      Course ok s (t.act a) (t.lostAfter a lost)

/-! ### What runs are made of -/

variable {s t u : Resolver} {n : CallId} {c c' : Flight} {ok : Action → Prop}

theorem forget_mem_ready : Step.forget n ∈ s.ready ↔ n ∈ s.flights.lingering := by
  simp [ready]

theorem request_mem_ready {i : RequestId} : Step.request i ∈ s.ready ↔
    ∃ r, s.requests[i]? = some r ∧ s.requestReady r = true := by
  simp [ready, List.mem_zipIdx_iff_getElem?]

theorem flight_mem_ready : Step.flight n ∈ s.ready ↔
    ∃ c, s.flights.call? n = some c ∧ s.flightReady c = true := by
  simp [ready, List.mem_zipIdx_iff_getElem?, Table.call?]

theorem exists_of_forget_mem_ready (h : Step.forget n ∈ s.ready) :
    ∃ c, s.flights.call? n = some c ∧ c.isRunning = false := by
  obtain ⟨-, hn⟩ := List.mem_filter.1 (forget_mem_ready.1 h)
  cases hc : s.flights.call? n with
  | none => simp [hc] at hn
  | some c => exact ⟨c, rfl, by simpa [hc] using hn⟩

/-- All that patient callers, the host and requests do is made of moves that no flight makes. -/
theorem shifts_act {a : Action} (h : s.Admits a) (hp : a.Patient)
    (ha : ∀ n, a ≠ .step (.flight n)) : ReflTransGen Shift s (s.act a) := by
  cases a with
  | ask t => exact .single (.ask t)
  | cancel i => exact hp.elim
  | openGate g => exact shifts_of_lapses (lapses_quiet (.intro _ _ _ _ _ _ id))
  | closeGate g => exact shifts_of_lapses (lapses_quiet (.intro _ _ _ _ _ _ id))
  | invalidate p => exact shifts_of_lapses (lapses_invalidate s p)
  | clear => exact shifts_of_lapses (lapses_clear s)
  | step x =>
      cases x with
      | forget n =>
          obtain ⟨c, hc, hfin⟩ := exists_of_forget_mem_ready h
          exact .single (.forget hc hfin)
      | request i => exact shifts_runRequest s i
      | flight n => exact absurd rfl (ha n)

/-- A move, whoever makes it. -/
def Move (s t : Resolver) : Prop := Shift s t ∨ ∃ n, FlightStep n s t

/-- All that patient callers, the host, requests and flights do is made of moves. -/
theorem moves_act {a : Action} (h : s.Admits a) (hp : a.Patient) :
    ReflTransGen Move s (s.act a) := by
  by_cases ha : ∀ n, a ≠ .step (.flight n)
  · exact ReflTransGen.mono (fun _ _ => .inl) _ _ (shifts_act h hp ha)
  · obtain ⟨n, hn⟩ := not_forall.1 ha
    obtain rfl := not_not.1 hn
    exact ReflTransGen.mono (fun _ _ hm => .inr ⟨n, hm⟩) _ _ (flightSteps_runFlight s n)

theorem moves_of_requestSteps {i : RequestId} (h : ReflTransGen (RequestStep i) s t) :
    ReflTransGen Move s t :=
  ReflTransGen.mono (fun _ _ hm => .inl hm.shift) _ _ (calms_of_requestSteps h)

/-- What every move keeps, a whole run of patient callers keeps. -/
theorem Run.induction {P : Resolver → Prop} (hrun : Run ok s t) (hok : ∀ a, ok a → a.Patient)
    (hs : P s) (hmove : ∀ s t, P s → Move s t → P t) : P t := by
  induction hrun with
  | refl => exact hs
  | @next t a _ ha hadm ih =>
      have hmoves := moves_act hadm (hok _ ha)
      generalize t.act a = u at hmoves
      induction hmoves with
      | refl => exact ih
      | tail _ hm ih' => exact hmove _ _ ih' hm

/-! ### What goes on by itself -/

/-- One move of what goes on by itself, while the host is not asked about outdated results. -/
inductive Advance (s : Resolver) : Resolver → Prop
  | calm {t : Resolver} (move : Calm s t) : Advance s t
  | forget {n : CallId} {c : Flight} (call : s.flights.call? n = some c)
      (finished : c.isRunning = false) : Advance s { s with flights := s.flights.forget n }
  | flight {n : CallId} {c : Flight} {t : Resolver} (call : s.flights.call? n = some c)
      (move : FlightMove s n c t) : Advance s t

theorem Advance.move (h : Advance s t) : Move s t := by
  cases h with
  | calm hm => exact .inl hm.shift
  | forget hc hdone => exact .inl (.forget hc hdone)
  | flight hc hm => exact .inr ⟨_, .inr ⟨_, hc, hm⟩⟩

theorem Advance.watch_eq_none (h : Advance s t) (hw : s.watch = none) : t.watch = none := by
  cases h with
  | calm hm =>
      cases hm with
      | quiet hq => cases hq with | intro _ _ _ _ _ _ hunwatched => exact hunwatched hw
      | request _ hm => cases hm <;> exact hw
  | forget _ _ => exact hw
  | flight _ hm => cases hm <;> exact hw

theorem advances_act {a : Action} (h : s.Admits a) (ha : a.Internal) (hw : s.watch = none) :
    ReflTransGen Advance s (s.act a) := by
  cases a with
  | openGate g => exact .single (.calm (.quiet (.intro _ _ _ _ _ _ id)))
  | closeGate g => exact .single (.calm (.quiet (.intro _ _ _ _ _ _ id)))
  | step x =>
      cases x with
      | forget n =>
          obtain ⟨c, hc, hfin⟩ := exists_of_forget_mem_ready h
          exact .single (.forget hc hfin)
      | request i =>
          obtain ⟨t, -, ht, hcalm⟩ := calm_runRequest s i
          rw [ht hw] at hcalm
          exact ReflTransGen.mono (fun _ _ => .calm) _ _ hcalm
      | flight n =>
          refine ReflTransGen.mono (fun t u hm => ?_) _ _ (flightSteps_runFlight s n)
          rcases hm with hq | ⟨c, hc, hm⟩
          · exact .calm (.quiet hq)
          · exact .flight hc hm
  | _ => exact ha.elim

/-- What every move of what goes on by itself keeps, a whole run of it keeps. -/
theorem Run.induction_advance {P : Resolver → Prop} (hrun : Run Action.Internal s t)
    (hw : s.watch = none) (hs : P s) (hmove : ∀ s t, P s → Advance s t → P t) :
    t.watch = none ∧ P t := by
  induction hrun with
  | refl => exact ⟨hw, hs⟩
  | @next t a _ ha hadm ih =>
      have hmoves := advances_act hadm ha ih.1
      generalize t.act a = u at hmoves
      induction hmoves with
      | refl => exact ih
      | tail _ hm ih' => exact ⟨hm.watch_eq_none ih'.1, hmove _ _ ih'.2 hm⟩

/-- What everything that goes on by itself keeps, and everything that makes kept results outdated, a whole
run keeps in which the host may be asked about outdated results. -/
theorem Run.induction_internal {P : Resolver → Prop} (hrun : Run Action.Internal s t) (hs : P s)
    (hlapse : ∀ s t, P s → Lapse s t → P t) (hadvance : ∀ s t, P s → Advance s t → P t) : P t := by
  have hlapses : ∀ {s t}, ReflTransGen Lapse s t → P s → P t := fun h hs => by
    induction h with
    | refl => exact hs
    | tail _ hm ih => exact hlapse _ _ ih hm
  have hadvances : ∀ {s t}, ReflTransGen Advance s t → P s → P t := fun h hs => by
    induction h with
    | refl => exact hs
    | tail _ hm ih => exact hadvance _ _ ih hm
  induction hrun with
  | refl => exact hs
  | @next t a _ ha hadm ih =>
      cases a with
      | openGate g => exact hadvance _ _ ih (.calm (.quiet (.intro _ _ _ _ _ _ id)))
      | closeGate g => exact hadvance _ _ ih (.calm (.quiet (.intro _ _ _ _ _ _ id)))
      | step x =>
          cases x with
          | forget n =>
              obtain ⟨c, hc, hfin⟩ := exists_of_forget_mem_ready hadm
              exact hadvance _ _ ih (.forget hc hfin)
          | request i =>
              obtain ⟨u, hl, -, hcalm⟩ := calm_runRequest t i
              exact hadvances (ReflTransGen.mono (fun _ _ => .calm) _ _ hcalm) (hlapses hl ih)
          | flight n =>
              refine hadvances (ReflTransGen.mono (fun t u hm => ?_) _ _ (flightSteps_runFlight t n)) ih
              rcases hm with hq | ⟨c, hc, hm⟩
              · exact .calm (.quiet hq)
              · exact .flight hc hm
      | _ => exact ha.elim

theorem Run.trans (h : Run ok s t) (h' : Run ok t u) : Run ok s u := by
  induction h' with
  | refl => exact h
  | next _ ha hadm ih => exact ih.next ha hadm

theorem Run.mono {ok' : Action → Prop} (h : Run ok s t) (hok : ∀ a, ok a → ok' a) : Run ok' s t := by
  induction h with
  | refl => exact .refl
  | next _ ha hadm ih => exact ih.next (hok _ ha) hadm

/-- Every run has lost some paths, or none. -/
theorem Run.exists_course (h : Run ok s t) : ∃ lost, Course ok s t lost := by
  induction h with
  | refl => exact ⟨[], .refl⟩
  | next _ ha hadm ih =>
      obtain ⟨lost, hc⟩ := ih
      exact ⟨_, hc.next ha hadm⟩

theorem Course.run {lost : List String} (h : Course ok s t lost) : Run ok s t := by
  induction h with
  | refl => exact .refl
  | next _ ha hadm ih => exact ih.next ha hadm

/-! ### Lists of actions -/

instance (s : Resolver) : DecidablePred s.Admits
  | .ask _ => isTrue trivial
  | .cancel _ => isTrue trivial
  | .openGate _ => isTrue trivial
  | .closeGate _ => isTrue trivial
  | .invalidate _ => isTrue trivial
  | .clear => isTrue trivial
  | .step x => inferInstanceAs (Decidable (x ∈ s.ready))

/-- Whether the actions of a list can happen one after the other. -/
def Playable (s : Resolver) : List Action → Prop
  | [] => True
  | a :: rest => s.Admits a ∧ (s.act a).Playable rest

instance decidablePlayable (s : Resolver) : (as : List Action) → Decidable (s.Playable as)
  | [] => isTrue trivial
  | a :: rest =>
      have := decidablePlayable (s.act a) rest
      inferInstanceAs (Decidable (s.Admits a ∧ (s.act a).Playable rest))

/-- The state after the actions of a list, and the paths that have lost their edges then. -/
def play (s : Resolver) (lost : List String) : List Action → Resolver × List String
  | [] => (s, lost)
  | a :: rest => (s.act a).play (s.lostAfter a lost) rest

theorem Course.play {lost : List String} (h : Course ok s t lost) {as : List Action}
    (has : t.Playable as) (hok : ∀ a ∈ as, ok a) :
    Course ok s (t.play lost as).1 (t.play lost as).2 := by
  induction as generalizing t lost with
  | nil => exact h
  | cons a rest ih =>
      exact ih (h.next (hok a List.mem_cons_self) has.1) has.2
        fun b hb => hok b (List.mem_cons_of_mem _ hb)

end Resolver

end HashedAssets
