import HashedAssets.Proofs.Resolver.Ends

/-!
# What is loaded and what is counted

* `loadBy?`: the asset whose source is asked when something happens; `catalog_act`: the catalog is as after
  that load, and as before if there is none;
* `Balanced`: as many more resolutions are counted as results kept; `balanced_runFlight`;
* `Tally`: a run that notes which paths were loaded.
-/

namespace HashedAssets

theorem PathMap.size_insert {α : Type} {m : PathMap α} {p : String} {a : α} (h : m.get? p = none) :
    (m.insert p a).size = m.size + 1 := by
  have hput : ∀ l : List (String × α), l.lookup p = none → (PathMap.put p a l).length = l.length + 1 := by
    intro l hl
    induction l with
    | nil => rfl
    | cons y rest ih =>
        rw [PathMap.lookup_cons_ite] at hl
        split at hl
        · cases hl
        · next hne =>
            rw [PathMap.put]
            split
            · rfl
            · rw [List.length_cons, ih hl, List.length_cons]
  exact hput m.bindings h

namespace Resolver

open SingleFlight Relation

variable {s t u : Resolver} {n : CallId} {c : Flight} {p : String} {a : Prepared} {es : List Edge}
  {kept : Option Resolved} {ok : Action → Prop}

/-! ### Loads -/

/-- The asset whose source is asked when a flight goes on: that of a flight that begins, was not asked to
stop, and has no marked result to check. -/
def loadOf? (s : Resolver) (c : Flight) : Option Definition :=
  match c.status with
  | .running .launched =>
      if c.cancelled ∨ (s.entries.get? c.key).any (·.needsCheck) then none
      else (s.catalog.get c.key).toOption
  | _ => none

/-- The asset whose source is asked when something happens, if any is. -/
def loadBy? (s : Resolver) : Action → Option Definition
  | .step (.flight n) => (s.flights.call? n).bind s.loadOf?
  | _ => none

theorem Calm.catalog (h : Calm s t) : t.catalog = s.catalog := by
  cases h with
  | quiet hq => cases hq; rfl
  | request _ hm => cases hm <;> rfl

/-- A run, with the paths whose sources were asked in it, the last first. -/
inductive Tally (ok : Action → Prop) (s : Resolver) : Resolver → List String → Prop
  | refl : Tally ok s s []
  | next {t : Resolver} {loaded : List String} {b : Action} : Tally ok s t loaded → ok b → t.Admits b →
      Tally ok s (t.act b) (((t.loadBy? b).map (·.path)).toList ++ loaded)

/-- The paths whose sources are asked in the course of a list of actions, the last first. -/
def loadsOf (s : Resolver) : List Action → List String
  | [] => []
  | b :: rest => (s.act b).loadsOf rest ++ ((s.loadBy? b).map (·.path)).toList

theorem Tally.play {loaded : List String} (h : Tally ok s t loaded) {as : List Action}
    (has : t.Playable as) (hok : ∀ b ∈ as, ok b) (lost : List String) :
    Tally ok s (t.play lost as).1 (t.loadsOf as ++ loaded) := by
  induction as generalizing t lost loaded with
  | nil => exact h
  | cons b rest ih =>
      have hrest := ih (h.next (hok b List.mem_cons_self) has.1) has.2
        (fun b' hb' => hok b' (List.mem_cons_of_mem _ hb')) (t.lostAfter b lost)
      rw [loadsOf, List.append_assoc]
      exact hrest

/-! ### Counted resolutions -/

/-- As many more resolutions are counted as results are kept. -/
def Balanced (s t : Resolver) : Prop :=
  t.stats.resolutions + s.entries.size = s.stats.resolutions + t.entries.size

theorem Balanced.trans (h : Balanced s t) (h' : Balanced t u) : Balanced s u := by
  unfold Balanced at *
  omega

theorem balanced_of_eq (hentries : t.entries = s.entries)
    (hcount : t.stats.resolutions = s.stats.resolutions) : Balanced s t := by
  rw [Balanced, hentries, hcount]

theorem balanced_fail (s : Resolver) (n : CallId) (p : String) (f : Failure) :
    Balanced s (s.fail n p f) := by
  unfold fail
  split <;> exact balanced_of_eq rfl rfl

theorem balanced_succeed (hd : s.dropOnLanding = []) (n : CallId) (p : String) (r : Resolved) :
    Balanced s (s.succeed n p r) := by
  unfold succeed
  rw [hd]
  exact balanced_of_eq rfl rfl

/-- A flight that resolves an asset of which nothing is kept counts this and keeps the result. -/
theorem balanced_conclude (hd : s.dropOnLanding = []) (he : s.entries.get? p = none)
    (m : PathMap Resolved) : Balanced s (s.conclude n p a es none m) := by
  unfold conclude
  rw [Option.filter_none]
  dsimp only
  split
  · exact balanced_fail s n p _
  · next r _ =>
      have hsize : (s.entries.insert p ⟨a, r, false⟩).size = s.entries.size + 1 := PathMap.size_insert he
      have hkept : Balanced s (({ s with
          stats := { s.stats with resolutions := s.stats.resolutions + 1 } } : Resolver).keep p
            ⟨a, r, false⟩) := by
        show s.stats.resolutions + 1 + s.entries.size =
          s.stats.resolutions + (s.entries.insert p ⟨a, r, false⟩).size
        omega
      refine hkept.trans (balanced_succeed ?_ n p r)
      exact hd

theorem balanced_gather (hd : s.dropOnLanding = []) (he : s.entries.get? p = none) :
    Balanced s (s.gather n p a es none) := by
  unfold gather
  split
  · exact balanced_conclude hd he ∅
  · exact balanced_of_eq rfl rfl

theorem balanced_loaded (hd : s.dropOnLanding = []) (he : s.entries.get? p = none)
    (result : Except Fault Bytes) : Balanced s (s.loaded n p result) := by
  unfold loaded
  split
  · exact balanced_fail s n p _
  · split
    · exact balanced_fail s n p _
    · split
      · exact balanced_fail s n p _
      · dsimp only
        split
        · exact balanced_fail _ n p _
        · exact balanced_gather (s := { s with graph := _ }) hd he

theorem balanced_load (hd : s.dropOnLanding = []) (he : s.entries.get? p = none) :
    Balanced s (s.load n p) := by
  unfold load
  split
  · exact balanced_fail s n p _
  · next d _ =>
      dsimp only
      split
      · have hloaded := balanced_loaded (s := { s with catalog := (s.catalog.fetch d).2 }) (n := n) hd he
          (s.catalog.fetch d).1.result
        exact hloaded
      · exact balanced_of_eq rfl rfl

/-- A flight for a path of which nothing is kept counts a resolution if and only if it keeps a result. -/
theorem balanced_runFlight (hd : s.dropOnLanding = [])
    (he : ∀ c, s.flights.call? n = some c → c.isRunning = true → s.entries.get? c.key = none)
    (hk : ∀ c a es kept children, s.flights.call? n = some c →
      c.status = .running (.gathering a es kept children) → kept = none) :
    Balanced s (s.runFlight n) := by
  unfold runFlight
  split
  · exact balanced_of_eq rfl rfl
  · next c hc =>
      have hnone : ∀ {w : Phase}, c.status = .running w → s.entries.get? c.key = none :=
        fun hst => he c hc (isRunning_of_status hst)
      split
      · exact balanced_of_eq rfl rfl
      · next hst =>
          split
          · exact balanced_of_eq rfl rfl
          · unfold start
            dsimp only
            -- nothing is kept of the path, so the flight loads and does not check
            have hentry : (s.report c.key .pending "").entries.get? c.key = none := hnone hst
            rw [hentry]
            exact balanced_load (s := s.report c.key .pending "") hd hentry
      · next fetched hst =>
          split
          · exact balanced_of_eq rfl rfl
          · split
            · exact balanced_loaded hd (hnone hst) _
            · exact balanced_of_eq rfl rfl
      · next a es kept children hst =>
          split
          · exact balanced_of_eq rfl rfl
          · split
            · exact balanced_of_eq rfl rfl
            · split
              · exact balanced_of_eq rfl rfl
              · exact balanced_fail s n _ _
              · rw [hk c a es kept children hc hst]
                exact balanced_conclude hd (hnone hst) _

theorem Calm.entries (h : Calm s t) : t.entries = s.entries := by
  cases h with
  | quiet hq => cases hq; rfl
  | request _ hm => cases hm <;> rfl

theorem resolutions_takeAnswer (s : Resolver) (i : RequestId) :
    (s.takeAnswer i).stats.resolutions = s.stats.resolutions := by
  have hleave : ∀ n, (s.leave n).stats = s.stats := fun n => by
    obtain ⟨rs, hrs, -⟩ := leave_eq s n
    rw [hrs]
  unfold takeAnswer
  split
  · rfl
  · split
    · next n _ =>
        split
        · rfl
        · exact congrArg _ (hleave n)
        · exact congrArg _ (hleave n)
    · rfl

theorem resolutions_request (hw : s.watch = none) (i : RequestId) (target : Target) (p : String) :
    (s.request i target p).stats.resolutions = s.stats.resolutions := by
  have hkept := kept?_of_watch_eq_none hw p
  unfold request
  split
  · rfl
  · revert hkept
    generalize s.kept? p = y
    obtain ⟨k, t⟩ := y
    rintro rfl
    cases k with
    | some r => rfl
    | none => exact resolutions_takeAnswer _ i

/-- A request keeps nothing and resolves nothing, if the host is not asked about outdated results. -/
theorem balanced_runRequest (hw : s.watch = none) (i : RequestId) : Balanced s (s.runRequest i) := by
  obtain ⟨t, -, ht, hcalm⟩ := calm_runRequest s i
  rw [ht hw] at hcalm
  refine balanced_of_eq ?_ ?_
  · generalize s.runRequest i = u at hcalm
    induction hcalm with
    | refl => rfl
    | tail _ hm ih => exact hm.entries.trans ih
  · unfold runRequest
    split
    · rfl
    · split
      · split
        · rfl
        · split
          · exact resolutions_request hw i _ _
          · split
            · exact resolutions_request hw i _ _
            · rfl
      · exact resolutions_takeAnswer s i
      · rfl

end Resolver

end HashedAssets
