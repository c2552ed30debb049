import HashedAssets.Proofs.Resolver.Agreement

/-!
# Public paths in use

Assets may have the same public path. The index holds one of them for it, and forgets the public path
when any of them is dropped.

* `publicOf`: the public path of what is kept; `Thinned`, `Renews`: what happens to kept results and index
  when results are dropped, and when an asset is resolved anew;
* `thinned_act`, `turns_runFlight`: nothing else ever happens to them;
* `Record`, `records`, `Chronicle`: a run with the history of what was kept and dropped; `Chronicled`: kept
  results and index are what this history says;
* `Withdrawn`: an asset of a public path was dropped, and none was resolved to it since;
* `published_of_chronicle`: what the index holds is kept with that public path; and the public path of a
  kept asset is in the index unless it is withdrawn.
-/

namespace HashedAssets.Resolver

open SingleFlight

variable {s t u : Resolver} {p q : String} {n : CallId} {c : Flight}

/-- The public path of what is kept for a path. -/
def publicOf (s : Resolver) (p : String) : Option String :=
  (s.entries.get? p).map (·.resolved.publicPath)

theorem publicOf_eq_none : s.publicOf p = none ↔ s.entries.contains p = false := by
  simp [publicOf, PathMap.contains]

/-! ### Results are dropped -/

/-- Some results were dropped. The index has forgotten the public path of each of them, and nothing
else. -/
structure Thinned (s t : Resolver) : Prop where
  kept : ∀ p, t.publicOf p = s.publicOf p ∨ t.publicOf p = none
  dropped : ∀ p q, s.publicOf p = some q → t.publicOf p = none → t.byPublic.get? q = none
  left : ∀ q, (∀ p, s.publicOf p = some q → t.publicOf p = some q) →
    t.byPublic.get? q = s.byPublic.get? q

theorem Thinned.of_eq (hpublic : t.publicOf = s.publicOf) (hindex : t.byPublic = s.byPublic) :
    Thinned s t where
  kept p := .inl (by rw [hpublic])
  dropped p q hp hnone := by rw [hpublic, hp] at hnone; cases hnone
  left q _ := by rw [hindex]

theorem Thinned.refl (s : Resolver) : Thinned s s := .of_eq rfl rfl

/-- The index has forgotten a public path, or holds for it what it held, and no result that has it was
dropped. -/
theorem Thinned.index_cases (h : Thinned s t) (q : String) : t.byPublic.get? q = none ∨
    (∀ p, s.publicOf p = some q → t.publicOf p = some q) ∧ t.byPublic.get? q = s.byPublic.get? q := by
  by_cases hall : ∀ p, s.publicOf p = some q → t.publicOf p = some q
  · exact .inr ⟨hall, h.left q hall⟩
  · push Not at hall
    obtain ⟨p, hp, hne⟩ := hall
    refine .inl (h.dropped p q hp ((h.kept p).resolve_left fun he => hne ?_))
    rw [he, hp]

theorem Thinned.trans (h : Thinned s t) (h' : Thinned t u) : Thinned s u where
  kept p := by
    rcases h'.kept p with he | hnone
    · rw [he]; exact h.kept p
    · exact .inr hnone
  dropped p q hp hnone := by
    rcases h.kept p with he | ht
    · exact h'.dropped p q (he.trans hp) hnone
    · rcases h'.index_cases q with he | ⟨-, he⟩
      · exact he
      · rw [he, h.dropped p q hp ht]
  left q hall := by
    have hmid : ∀ p, s.publicOf p = some q → t.publicOf p = some q := fun p hp => by
      rcases h.kept p with he | hnone
      · rw [he, hp]
      · have hu := hall p hp
        rcases h'.kept p with he | he <;> rw [he] at hu
        · rw [hnone] at hu; cases hu
        · cases hu
    rw [h'.left q fun p hp => ?_, h.left q hmid]
    rcases h.kept p with he | hnone
    · exact hall p (he ▸ hp)
    · rw [hnone] at hp; cases hp

theorem Thinned.foldl {α : Type} {f : Resolver → α → Resolver} (hf : ∀ s a, Thinned s (f s a))
    (s : Resolver) (l : List α) : Thinned s (l.foldl f s) := by
  induction l generalizing s with
  | nil => exact .refl s
  | cons a rest ih => exact (hf s a).trans (ih (f s a))

theorem publicOf_drop (s : Resolver) (p p' : String) :
    (s.drop p).publicOf p' = if p' = p then none else s.publicOf p' := by
  rw [publicOf, drop, PathMap.get?_erase]
  split <;> rfl

theorem index_drop (s : Resolver) (p q : String) : (s.drop p).byPublic.get? q
    = if s.publicOf p = some q then none else s.byPublic.get? q := by
  rw [drop, publicOf]
  dsimp only
  cases s.entries.get? p with
  | none => rfl
  | some e => simp [PathMap.get?_erase, eq_comm]

theorem thinned_drop (s : Resolver) (p : String) : Thinned s (s.drop p) := by
  refine ⟨fun p' => ?_, fun p' q hq hnone => ?_, fun q hall => ?_⟩
  · rw [publicOf_drop]
    split
    · exact .inr rfl
    · exact .inl rfl
  · rw [publicOf_drop] at hnone
    split at hnone
    · next he => rw [index_drop, if_pos (he ▸ hq)]
    · rw [hq] at hnone; cases hnone
  · rw [index_drop, if_neg]
    intro hp
    have := hall p hp
    rw [publicOf_drop, if_pos rfl] at this
    cases this

theorem thinned_modify (s : Resolver) (p : String) {f : Entry → Entry}
    (hf : ∀ e, (f e).resolved = e.resolved) :
    Thinned s { s with entries := s.entries.modify p f } := by
  refine .of_eq (funext fun q => ?_) rfl
  rw [publicOf, PathMap.get?_modify, publicOf]
  split
  · next h =>
      rw [h, Option.map_map]
      exact congrArg (fun g => (s.entries.get? p).map g)
        (funext fun e => congrArg Resolved.publicPath (hf e))
  · rfl

theorem thinned_mark (s : Resolver) (p : String) : Thinned s (s.mark p) :=
  thinned_modify s p fun _ => rfl

theorem thinned_dropOrDefer (s : Resolver) (p : String) : Thinned s (s.dropOrDefer p) := by
  unfold dropOrDefer
  split
  · exact .of_eq rfl rfl
  · exact thinned_drop s p

theorem thinned_invalidate (s : Resolver) (p : String) : Thinned s (s.invalidate p).2 := by
  unfold invalidate
  split
  · exact .refl s
  · refine .trans ?_ (Thinned.foldl thinned_mark _ _)
    refine .trans ?_ (Thinned.foldl thinned_dropOrDefer _ _)
    exact .of_eq rfl rfl

theorem thinned_clear (s : Resolver) : Thinned s s.clear :=
  (Thinned.foldl thinned_dropOrDefer s _).trans (.of_eq rfl rfl)

theorem thinned_checkPath (s : Resolver) (p : String) : Thinned s (s.checkPath p) := by
  unfold checkPath
  split
  · split
    · exact .refl s
    · dsimp only
      split
      · refine .trans ?_ (thinned_invalidate _ p)
        exact .of_eq rfl rfl
      · exact .of_eq rfl rfl
  · exact .refl s

theorem thinned_kept? (s : Resolver) (p : String) : Thinned s (s.kept? p).2 := by
  unfold kept?
  split
  · exact .refl s
  · dsimp only
    have hstale : Thinned s (if s.watch.isSome then s.dropStale p else s) := by
      split
      · exact Thinned.foldl thinned_checkPath s _
      · exact .refl s
    split <;> exact hstale

/-! ### Requests -/

theorem thinned_cancel (s : Resolver) (i : RequestId) : Thinned s (s.cancel i).2 := by
  obtain ⟨rs, hrs, -⟩ := cancel_eq s i
  rw [hrs]
  exact .of_eq rfl rfl

theorem thinned_takeAnswer (s : Resolver) (i : RequestId) : Thinned s (s.takeAnswer i) := by
  have hleave : ∀ n o, Thinned s ((s.leave n).setCaller i o) := fun n o => by
    obtain ⟨rs, hrs, -⟩ := leave_eq s n
    rw [hrs]
    exact .of_eq rfl rfl
  unfold takeAnswer
  split
  · exact .refl s
  · split
    · split
      · exact .refl s
      · exact hleave _ _
      · exact hleave _ _
    · exact .refl s

theorem thinned_request (s : Resolver) (i : RequestId) (target : Target) (p : String) :
    Thinned s (s.request i target p) := by
  unfold request
  split
  · exact .of_eq rfl rfl
  · have hkept := thinned_kept? s p
    split
    · next r t heq =>
        rw [heq] at hkept
        exact hkept.trans (.of_eq rfl rfl)
    · next t heq =>
        rw [heq] at hkept
        refine hkept.trans (.trans ?_ (thinned_takeAnswer _ i))
        exact .of_eq rfl rfl

theorem thinned_runRequest (s : Resolver) (i : RequestId) : Thinned s (s.runRequest i) := by
  unfold runRequest
  split
  · exact .refl s
  · split
    · split
      · exact .of_eq rfl rfl
      · split
        · exact thinned_request s i _ _
        · split
          · exact thinned_request s i _ _
          · exact .of_eq rfl rfl
    · exact thinned_takeAnswer s i
    · exact .refl s

/-- Whatever happens but that a flight goes on: at most, results are dropped. -/
theorem thinned_act {a : Action} (ha : ∀ n, a ≠ .step (.flight n)) : Thinned s (s.act a) := by
  cases a with
  | ask target => exact .of_eq rfl rfl
  | cancel i => exact thinned_cancel s i
  | openGate g => exact .of_eq rfl rfl
  | closeGate g => exact .of_eq rfl rfl
  | invalidate p => exact thinned_invalidate s p
  | clear => exact thinned_clear s
  | step x =>
      cases x with
      | forget n => exact .of_eq rfl rfl
      | request i => exact thinned_runRequest s i
      | flight n => exact absurd rfl (ha n)

/-! ### An asset is resolved anew -/

/-- An asset was resolved anew: its result is kept in place of what was kept for it before, and stands in
the index for its public path. Then it may be dropped at once. -/
def Renews (s : Resolver) (p q : String) (t : Resolver) : Prop :=
  ∃ e : Entry, e.resolved.publicPath = q ∧ Thinned (s.keep p e) t ∧
    ∀ p', p' ≠ p → t.publicOf p' = (s.keep p e).publicOf p'

/-- The path and the public path of an asset that a flight has resolved anew. -/
def renewal? (s t : Resolver) (n : CallId) : Option (String × String) :=
  if s.stats.resolutions < t.stats.resolutions then
    (t.flights.call? n).bind fun c => match c.status with
      | .finished (.result (.ok r)) => some (c.key, r.publicPath)
      | _ => none
  else none

/-- A flight resolves nothing anew, and at most drops a result; or it resolves its asset anew. -/
def Turns (s t : Resolver) (n : CallId) : Prop :=
  Thinned s t ∧ t.stats = s.stats ∨ ∃ p q, renewal? s t n = some (p, q) ∧ Renews s p q t

theorem turns_of_eq (hentries : t.entries = s.entries) (hindex : t.byPublic = s.byPublic)
    (hstats : t.stats = s.stats) : Turns s t n :=
  .inl ⟨.of_eq (by unfold publicOf; rw [hentries]) hindex, hstats⟩

theorem turns_fail (s : Resolver) (n : CallId) (p : String) (f : Failure) :
    Turns s (s.fail n p f) n := by
  unfold fail
  dsimp only
  split <;> exact turns_of_eq rfl rfl rfl

theorem Turns.of_eq (h : Turns u t n) (hentries : u.entries = s.entries)
    (hindex : u.byPublic = s.byPublic) (hstats : u.stats = s.stats) : Turns s t n := by
  have hpublic : u.publicOf = s.publicOf := by unfold publicOf; rw [hentries]
  rcases h with ⟨h, hu⟩ | ⟨p, q, hr, h⟩
  · exact .inl ⟨(Thinned.of_eq hpublic hindex).trans h, hu.trans hstats⟩
  · obtain ⟨e, he, hthin, hother⟩ := h
    have hkeep : (u.keep p e).publicOf = (s.keep p e).publicOf := by unfold publicOf keep; rw [hentries]
    refine .inr ⟨p, q, ?_, e, he, .trans (.of_eq hkeep ?_) hthin, fun p' hp' => ?_⟩
    · rw [← hr, renewal?, renewal?, hstats]
    · unfold keep; rw [hentries, hindex]
    · rw [← hkeep]; exact hother p' hp'

/-- A flight that ends with a result hands it out, and at most drops what is kept. -/
theorem thinned_succeed (s : Resolver) (n : CallId) (p : String) (r : Resolved) :
    Thinned s (s.succeed n p r) ∧ (s.succeed n p r).stats = s.stats := by
  unfold succeed
  dsimp only
  split
  · have hdrop : Thinned s
        ({ s with dropOnLanding := s.dropOnLanding.filter (· != p) }.drop p) := by
      refine .trans ?_ (thinned_drop _ p)
      exact .of_eq rfl rfl
    exact ⟨hdrop.trans (.of_eq rfl rfl), rfl⟩
  · exact ⟨.of_eq rfl rfl, rfl⟩

theorem call?_succeed (hc : s.flights.call? n = some c) (r : Resolved) :
    (s.succeed n p r).flights.call? n = some { c with status := .finished (.result (.ok r)) } := by
  have hflights : (s.succeed n p r).flights = s.flights.finish n (.result (.ok r)) := by
    unfold succeed
    dsimp only
    split <;> rfl
  rw [hflights, Table.call?_finish, if_pos rfl, hc]
  rfl

theorem publicOf_succeed (s : Resolver) (n : CallId) (p : String) (r : Resolved) {p' : String}
    (hp' : p' ≠ p) : (s.succeed n p r).publicOf p' = s.publicOf p' := by
  unfold succeed
  dsimp only
  split
  · exact (publicOf_drop { s with dropOnLanding := s.dropOnLanding.filter (· != p) } p p').trans
      (if_neg hp')
  · rfl

theorem turns_conclude (hc : s.flights.call? n = some c) (a : Prepared) (es : List Edge)
    (kept : Option Resolved) (m : PathMap Resolved) : Turns s (s.conclude n c.key a es kept m) n := by
  unfold conclude
  split
  · next r hr =>
      obtain ⟨hthin, hstats⟩ := thinned_succeed
        { s with entries := s.entries.modify c.key fun e => { e with needsCheck := false } } n c.key r
      exact .inl ⟨(thinned_modify s c.key (f := fun e => { e with needsCheck := false })
        fun _ => rfl).trans hthin, hstats⟩
  · split
    · exact turns_fail s n _ _
    · next r hr =>
        dsimp only
        set k := { s with stats := { s.stats with resolutions := s.stats.resolutions + 1 } }
        obtain ⟨hthin, hstats⟩ := thinned_succeed (k.keep c.key ⟨a, r, false⟩) n c.key r
        have hbegun : Thinned (s.keep c.key ⟨a, r, false⟩) (k.keep c.key ⟨a, r, false⟩) := .of_eq rfl rfl
        refine .inr ⟨c.key, r.publicPath, ?_, ⟨a, r, false⟩, rfl, hbegun.trans hthin,
          fun p' hp' => publicOf_succeed _ n c.key r hp'⟩
        have hmore : s.stats.resolutions < (k.keep c.key ⟨a, r, false⟩).stats.resolutions :=
          Nat.lt_succ_self _
        have hcall := call?_succeed (s := k.keep c.key ⟨a, r, false⟩) (p := c.key) hc r
        rw [renewal?, hstats, if_pos hmore, hcall]
        rfl

theorem turns_gather (hc : s.flights.call? n = some c) (a : Prepared) (es : List Edge)
    (kept : Option Resolved) : Turns s (s.gather n c.key a es kept) n := by
  unfold gather
  split
  · exact turns_conclude hc a es kept ∅
  · exact turns_of_eq rfl rfl rfl

theorem turns_loaded (hc : s.flights.call? n = some c) (result : Except Fault Bytes) :
    Turns s (s.loaded n c.key result) n := by
  unfold loaded
  split
  · exact turns_fail s n _ _
  · split
    · exact turns_fail s n _ _
    · split
      · exact turns_fail s n _ _
      · next a es _ =>
          dsimp only
          split
          · exact (turns_fail _ n _ _).of_eq rfl rfl rfl
          · exact (turns_gather (s := { s with graph := s.graph.setEdges c.key es }) hc a es none).of_eq
              rfl rfl rfl

theorem turns_load (hc : s.flights.call? n = some c) : Turns s (s.load n c.key) n := by
  unfold load
  split
  · exact turns_fail s n _ _
  · next d _ =>
      dsimp only
      split
      · exact (turns_loaded (s := { s with catalog := (s.catalog.fetch d).2 }) hc _).of_eq rfl rfl rfl
      · exact turns_of_eq rfl rfl rfl

theorem turns_start (hc : s.flights.call? n = some c) : Turns s (s.start n c.key) n := by
  have hreport := turns_load (s := s.report c.key .pending "") hc
  unfold start
  dsimp only
  split
  · split
    · exact (turns_gather (s := s.report c.key .pending "") hc _ _ _).of_eq rfl rfl rfl
    · exact hreport.of_eq rfl rfl rfl
  · exact hreport.of_eq rfl rfl rfl

/-- A flight that goes on resolves nothing anew and at most drops a result, or resolves its asset anew. -/
theorem turns_runFlight (s : Resolver) (n : CallId) : Turns s (s.runFlight n) n := by
  unfold runFlight
  split
  · exact turns_of_eq rfl rfl rfl
  · next c hc =>
      split
      · exact turns_of_eq rfl rfl rfl
      · split
        · exact turns_of_eq rfl rfl rfl
        · exact turns_start hc
      · split
        · exact turns_of_eq rfl rfl rfl
        · split
          · exact turns_loaded hc _
          · exact turns_of_eq rfl rfl rfl
      · split
        · exact turns_of_eq rfl rfl rfl
        · split
          · exact turns_of_eq rfl rfl rfl
          · split
            · exact turns_of_eq rfl rfl rfl
            · exact turns_fail s n _ _
            · exact turns_conclude hc _ _ _ _

/-! ### Histories -/

/-- A record of what happened to a kept result. -/
inductive Record
  /-- An asset was resolved, to the given public path. -/
  | kept (path publicPath : String)
  /-- A kept result of the given public path was dropped, or replaced. -/
  | dropped (path publicPath : String)
  deriving DecidableEq, Repr

/-- The asset that a record is about. -/
def Record.path : Record → String
  | .kept p _ => p
  | .dropped p _ => p

/-- The public path that a record is about. -/
def Record.publicPath : Record → String
  | .kept _ q => q
  | .dropped _ q => q

/-- The kept results that are there no more. -/
def losses (s t : Resolver) : List Record :=
  s.entries.bindings.filterMap fun y =>
    if t.entries.contains y.1 then none else some (.dropped y.1 y.2.resolved.publicPath)

/-- What an action does to kept results, the latest first. A result that is made anew takes the place of
an earlier one, and may be dropped at once. -/
def records (s : Resolver) (a : Action) : List Record :=
  match a with
  | .step (.flight n) => match renewal? s (s.act a) n with
    | some (p, q) => (if (s.act a).entries.contains p then [] else [.dropped p q])
        ++ .kept p q :: ((s.publicOf p).map (.dropped p)).toList
    | none => s.losses (s.act a)
  | _ => s.losses (s.act a)

/-- A run with the history of what was kept and dropped, the latest record first. The host may register
assets at any time. -/
inductive Chronicle (s : Resolver) : Resolver → List Record → Prop
  | refl : Chronicle s s []
  | next {t : Resolver} {h : List Record} {a : Action} : Chronicle s t h → t.Admits a →
      Chronicle s (t.act a) (t.records a ++ h)
  | register {t : Resolver} {h : List Record} (catalog : Catalog) : Chronicle s t h →
      Chronicle s { t with catalog } h

/-- The history that the actions of a list add to one. -/
def history (s : Resolver) (h : List Record) : List Action → List Record
  | [] => h
  | a :: rest => (s.act a).history (s.records a ++ h) rest

theorem Chronicle.play {h : List Record} (hrun : Chronicle s t h) {as : List Action}
    (has : t.Playable as) (lost : List String) :
    Chronicle s (t.play lost as).1 (t.history h as) := by
  induction as generalizing t h lost with
  | nil => exact hrun
  | cons a rest ih => exact ih (hrun.next has.1) has.2 (t.lostAfter a lost)

/-- The latest record about a public path is that a result was dropped. -/
def Withdrawn (q : String) (h : List Record) : Prop :=
  ∃ p, h.find? (·.publicPath == q) = some (.dropped p q)

/-! ### What is kept is what the history says -/

variable {h l : List Record}

/-- What is kept, and what the index holds, is what the history says: the latest record about an asset tells
whether it is kept, the latest record about a public path whether it is in the index. -/
structure Chronicled (s : Resolver) (h : List Record) : Prop where
  kept : ∀ p q, s.publicOf p = some q ↔ h.find? (·.path == p) = some (.kept p q)
  index : ∀ q p, s.byPublic.get? q = some p ↔ h.find? (·.publicPath == q) = some (.kept p q)
  inUse : ∀ q p, s.byPublic.get? q = some p → s.publicOf p = some q
  paired : ∀ p q, .dropped p q ∈ h → .kept p q ∈ h

theorem chronicled_make (x : Context) (catalog : Catalog) (watch : Option Watch) :
    Chronicled (make x catalog watch) [] := by
  constructor <;> simp [make, publicOf]

/-- The records of what was dropped: results that were kept, and are kept no more. -/
def Drops (s t : Resolver) (l : List Record) : Prop :=
  ∀ a, a ∈ l ↔ ∃ p q, a = .dropped p q ∧ s.publicOf p = some q ∧ t.publicOf p = none

theorem drops_losses (s t : Resolver) : Drops s t (s.losses t) := by
  intro a
  simp only [losses, List.mem_filterMap, Option.ite_none_left_eq_some, Option.some.injEq, Prod.exists,
    ← PathMap.get?_eq_some_iff, Bool.not_eq_true, ← publicOf_eq_none]
  constructor
  · rintro ⟨p, e, he, hnone, rfl⟩
    exact ⟨p, _, rfl, by rw [publicOf, he]; rfl, hnone⟩
  · rintro ⟨p, q, rfl, hq, hnone⟩
    obtain ⟨e, he, rfl⟩ := Option.map_eq_some_iff.1 hq
    exact ⟨p, e, he, hnone, rfl⟩

theorem drops_drop (s : Resolver) (p : String) :
    Drops s (s.drop p) ((s.publicOf p).map (.dropped p)).toList := by
  intro a
  simp only [Option.mem_toList, Option.map_eq_some_iff]
  constructor
  · rintro ⟨q, hq, rfl⟩
    exact ⟨p, q, rfl, hq, by rw [publicOf_drop, if_pos rfl]⟩
  · rintro ⟨p', q, rfl, hq, hnone⟩
    rw [publicOf_drop] at hnone
    split at hnone
    · next he => exact ⟨q, he ▸ hq, by rw [he]⟩
    · rw [hq] at hnone; cases hnone

/-- The latest record of a kind is of a result just dropped, or no such result was dropped and it is the
one it was. -/
theorem Drops.find?_cases (hl : Drops s t l) (h : List Record) (f : Record → Bool) :
    (∃ p q, s.publicOf p = some q ∧ t.publicOf p = none ∧ f (.dropped p q) = true ∧
      (l ++ h).find? f = some (.dropped p q)) ∨
    (∀ p q, s.publicOf p = some q → t.publicOf p = none → f (.dropped p q) = false) ∧
      (l ++ h).find? f = h.find? f := by
  rw [List.find?_append]
  cases hfind : l.find? f with
  | some a =>
      obtain ⟨p, q, rfl, hs, ht⟩ := (hl a).1 (List.mem_of_find?_eq_some hfind)
      exact .inl ⟨p, q, hs, ht, List.find?_some hfind, rfl⟩
  | none =>
      refine .inr ⟨fun p q hs ht => ?_, rfl⟩
      exact Bool.eq_false_iff.2 (List.find?_eq_none.1 hfind _ ((hl _).2 ⟨p, q, rfl, hs, ht⟩))

/-- Results are dropped: their records hide those that they were kept. -/
theorem Chronicled.thin (hr : Chronicled s h) (ht : Thinned s t) (hl : Drops s t l) :
    Chronicled t (l ++ h) where
  kept p q := by
    rcases hl.find?_cases h (·.path == p) with ⟨p', q', -, hnone, hp, hfind⟩ | ⟨hall, hfind⟩
    · obtain rfl : p' = p := beq_iff_eq.1 hp
      simp [hfind, hnone]
    · rw [hfind, ← hr.kept]
      rcases ht.kept p with he | hnone
      · rw [he]
      · refine iff_of_false (by simp [hnone]) fun hq => ?_
        simpa [Record.path] using hall p q hq hnone
  index q p := by
    rcases hl.find?_cases h (·.publicPath == q) with ⟨p', q', hkept, hnone, hq, hfind⟩ | ⟨hall, hfind⟩
    · obtain rfl : q' = q := beq_iff_eq.1 hq
      simp [hfind, ht.dropped p' q' hkept hnone]
    · rw [hfind, ← hr.index, ht.left q fun p' hp' => ?_]
      rcases ht.kept p' with he | hnone
      · rw [he, hp']
      · simpa [Record.publicPath] using hall p' q hp' hnone
  inUse q p hq := by
    rcases ht.index_cases q with he | ⟨hall, he⟩
    · rw [he] at hq; cases hq
    · exact hall p (hr.inUse q p (he ▸ hq))
  paired p q hmem := by
    rcases List.mem_append.1 hmem with hmem | hmem
    · obtain ⟨p', q', he, hs, -⟩ := (hl _).1 hmem
      cases he
      exact List.mem_append_right _ (List.mem_of_find?_eq_some ((hr.kept p q).1 hs))
    · exact List.mem_append_right _ (hr.paired p q hmem)

theorem publicOf_keep (s : Resolver) (p : String) (e : Entry) (p' : String) : (s.keep p e).publicOf p'
    = if p' = p then some e.resolved.publicPath else (s.drop p).publicOf p' := by
  rw [publicOf_drop, publicOf, keep]
  dsimp only
  rw [PathMap.get?_insert]
  split <;> rfl

theorem index_keep (s : Resolver) (p : String) (e : Entry) (q : String) : (s.keep p e).byPublic.get? q
    = if q = e.resolved.publicPath then some p else (s.drop p).byPublic.get? q :=
  PathMap.get?_insert ..

/-- A result that is kept takes the place of what was kept before. -/
theorem Chronicled.keep (hr : Chronicled s h) (p : String) (e : Entry) : Chronicled (s.keep p e)
    (.kept p e.resolved.publicPath :: (((s.publicOf p).map (.dropped p)).toList ++ h)) := by
  -- what was kept for the path is dropped first
  have hd := hr.thin (thinned_drop s p) (drops_drop s p)
  have hnone : (s.drop p).publicOf p = none := by rw [publicOf_drop, if_pos rfl]
  generalize ((s.publicOf p).map (Record.dropped p)).toList ++ h = k at hd
  refine ⟨fun p' q' => ?_, fun q' p' => ?_, fun q' p' hq' => ?_, fun p' q' hmem => ?_⟩
  · rw [publicOf_keep, List.find?_cons]
    by_cases hp : p' = p
    · simp [hp, Record.path]
    · have hne : (p == p') = false := beq_false_of_ne (Ne.symm hp)
      simp only [if_neg hp, Record.path, hne]
      exact hd.kept p' q'
  · rw [index_keep, List.find?_cons]
    by_cases hq : q' = e.resolved.publicPath
    · simp [hq, Record.publicPath]
    · have hne : (e.resolved.publicPath == q') = false := beq_false_of_ne (Ne.symm hq)
      simp only [if_neg hq, Record.publicPath, hne]
      exact hd.index q' p'
  · rw [index_keep] at hq'
    rw [publicOf_keep]
    split at hq'
    · next hq => rw [← Option.some.inj hq', if_pos rfl, hq]
    · have hkept := hd.inUse q' p' hq'
      have hp : p' ≠ p := fun hp => by rw [hp, hnone] at hkept; cases hkept
      rw [if_neg hp, hkept]
  · exact List.mem_cons_of_mem _ (hd.paired p' q' ((List.mem_cons.1 hmem).resolve_left nofun))

theorem Renews.drops (h : Renews s p q t) : ∃ e : Entry, e.resolved.publicPath = q ∧
    Thinned (s.keep p e) t ∧
    Drops (s.keep p e) t (if t.entries.contains p then [] else [.dropped p q]) := by
  obtain ⟨e, rfl, hthin, hother⟩ := h
  refine ⟨e, rfl, hthin, fun a => ?_⟩
  have hself : (s.keep p e).publicOf p = some e.resolved.publicPath := by
    rw [publicOf_keep, if_pos rfl]
  constructor
  · intro ha
    split at ha
    · cases ha
    · next hnot =>
        exact ⟨p, _, List.mem_singleton.1 ha, hself, publicOf_eq_none.2 (Bool.eq_false_iff.2 hnot)⟩
  · rintro ⟨p', q', rfl, hq', hnone⟩
    obtain rfl : p' = p := by
      by_contra hp
      rw [hother p' hp, hq'] at hnone
      cases hnone
    rw [hself] at hq'
    rw [if_neg (Bool.eq_false_iff.1 (publicOf_eq_none.1 hnone)), List.mem_singleton,
      Option.some.inj hq']

/-- One action. -/
theorem Chronicled.act (hr : Chronicled s h) (a : Action) :
    Chronicled (s.act a) (s.records a ++ h) := by
  by_cases ha : ∃ n, a = .step (.flight n)
  · obtain ⟨n, rfl⟩ := ha
    rcases turns_runFlight s n with ⟨hthin, hstats⟩ | ⟨p, q, hrenewal, hrenews⟩
    · have hrenewal : renewal? s (s.runFlight n) n = none := by
        rw [renewal?, hstats, if_neg (Nat.lt_irrefl _)]
      have hrecords : s.records (.step (.flight n)) = s.losses (s.runFlight n) := by
        simp only [records, Resolver.act, step, hrenewal]
      rw [hrecords]
      exact hr.thin hthin (drops_losses _ _)
    · obtain ⟨e, rfl, hthin, hdrops⟩ := hrenews.drops
      have hrecords : s.records (.step (.flight n)) = (if (s.runFlight n).entries.contains p then []
          else [.dropped p e.resolved.publicPath]) ++ .kept p e.resolved.publicPath
            :: ((s.publicOf p).map (.dropped p)).toList := by
        simp only [records, Resolver.act, step, hrenewal]
        rfl
      rw [hrecords, List.append_assoc, List.cons_append]
      exact (hr.keep p e).thin hthin hdrops
  · have hflight : ∀ n, a ≠ .step (.flight n) := fun n hn => ha ⟨n, hn⟩
    have hrecords : s.records a = s.losses (s.act a) := by
      unfold records
      split
      · exact absurd rfl (hflight _)
      · rfl
    rw [hrecords]
    exact hr.thin (thinned_act hflight) (drops_losses _ _)

/-- A whole run. -/
theorem Chronicle.chronicled {s₀ : Resolver} (hrun : Chronicle s₀ s h) (hr : Chronicled s₀ []) :
    Chronicled s h := by
  induction hrun with
  | refl => exact hr
  | next _ _ ih => exact ih.act _
  | register catalog _ ih => exact ⟨ih.kept, ih.index, ih.inUse, ih.paired⟩

/-- Two records each of which is the latest of a kind that both are of are the same. -/
theorem eq_of_find? {α : Type} {f g : α → Bool} {a b : α} {l : List α} (ha : l.find? f = some a)
    (hb : l.find? g = some b) (hga : g a = true) (hfb : f b = true) : a = b := by
  induction l with
  | nil => cases ha
  | cons c rest ih =>
      rw [List.find?_cons] at ha hb
      grind

/-- A public path of what is kept is in the index, or the latest record about it is of a dropped result. -/
theorem Chronicled.index_cases (hr : Chronicled s h) (hq : s.publicOf p = some q) :
    (∃ p', s.byPublic.get? q = some p') ∨ Withdrawn q h := by
  have hmem : Record.kept p q ∈ h := List.mem_of_find?_eq_some ((hr.kept p q).1 hq)
  cases hfind : h.find? (·.publicPath == q) with
  | none => simpa [Record.publicPath] using List.find?_eq_none.1 hfind _ hmem
  | some a =>
      have ha : a.publicPath = q := by simpa using List.find?_some hfind
      cases a with
      | kept p' q' => exact .inl ⟨p', (hr.index q p').2 (by rw [hfind, ← ha]; rfl)⟩
      | dropped p' q' => exact .inr ⟨p', by rw [hfind, ← ha]; rfl⟩

/-- A public path that only one asset ever had is in the index while the asset is kept. -/
theorem Chronicled.index_of_single (hr : Chronicled s h) (hq : s.publicOf p = some q)
    (hone : ∀ p', .kept p' q ∈ h → p' = p) : s.byPublic.get? q = some p := by
  rcases hr.index_cases hq with ⟨p', hp'⟩ | ⟨p', hdropped⟩
  · rw [hp', hone p' (List.mem_of_find?_eq_some ((hr.index q p').1 hp'))]
  -- it was withdrawn from `p` itself, and then `p` is not kept
  · obtain rfl := hone p' (hr.paired p' q (List.mem_of_find?_eq_some hdropped))
    cases eq_of_find? ((hr.kept p' q).1 hq) hdropped (beq_self_eq_true q) (beq_self_eq_true p')

/-! ### A sample

The assets `a` and `b` have the same content and, but for their digests, the same public path. -/

namespace Twins

/-- How both are treated. -/
def options : Options := ({ hashBetween := some ("x-", ".css") } : Choices).options true

/-- The two assets. -/
def catalog : Catalog :=
  ((∅ : Catalog).add ⟨"a", .static (Bytes.ofText "same"), options, Pair.a_ne_empty⟩).add
    ⟨"b", .static (Bytes.ofText "same"), options, Pair.b_ne_empty⟩

/-- Both are asked for and resolved. Then `b` is dropped. -/
def actions : List Action :=
  [.ask (.logical "a"), .ask (.logical "b"), .step (.request 0), .step (.request 1),
    .step (.flight 0), .step (.flight 1), .step (.request 0), .step (.request 1), .step (.forget 0),
    .step (.forget 1), .invalidate "b"]

/-- The state after that. -/
def left : Resolver := ((make Sample.context catalog none).play [] actions).1

/-- What happened to kept results meanwhile. -/
def past : List Record := (make Sample.context catalog none).history [] actions

theorem playable : (make Sample.context catalog none).Playable actions := by decide +kernel

theorem chronicle : Chronicle (make Sample.context catalog none) left past :=
  Chronicle.refl.play playable []

end Twins

/-- **What the index of public paths holds.** Whatever happens: an asset is kept with a public path if the
latest record about it says so. If the index holds an asset for a public path, the asset is kept with that
public path. The public path of a kept asset is in the index, for an asset that is kept with it, exactly when
it is not withdrawn, that is unless an asset of that public path was dropped or replaced and none was resolved
to it since. So a public path that one asset alone ever had is in the index as long as the asset is kept. -/
theorem published_of_chronicle {x : Context} {catalog : Catalog} {watch : Option Watch}
    (hrun : Chronicle (make x catalog watch) s h) :
    (∀ p q, s.publicOf p = some q ↔ h.find? (·.path == p) = some (.kept p q)) ∧
    (∀ q p, s.byPublic.get? q = some p → s.publicOf p = some q) ∧
    (∀ p q, s.publicOf p = some q →
      ((∃ p', s.byPublic.get? q = some p' ∧ s.publicOf p' = some q) ↔ ¬ Withdrawn q h)) ∧
    ∀ p q, s.publicOf p = some q → (∀ p', .kept p' q ∈ h → p' = p) → s.byPublic.get? q = some p := by
  have hr := hrun.chronicled (chronicled_make x catalog watch)
  refine ⟨hr.kept, hr.inUse, fun p q hq => ⟨?_, fun hnot => ?_⟩, fun p q => hr.index_of_single⟩
  · rintro ⟨p', hindex, -⟩ ⟨p'', hdropped⟩
    rw [(hr.index q p').1 hindex] at hdropped
    cases hdropped
  · obtain ⟨p', hindex⟩ := (hr.index_cases hq).resolve_right hnot
    exact ⟨p', hindex, hr.inUse q p' hindex⟩

/-- In the sample: the public path of `a` is withdrawn, and so it is in the index for no asset. -/
theorem withdrawn_twins : ∃ q, Twins.left.publicOf "a" = some q ∧ Withdrawn q Twins.past ∧
    ¬ ∃ p, Twins.left.byPublic.get? q = some p ∧ Twins.left.publicOf p = some q := by
  obtain ⟨-, -, hiff, -⟩ := published_of_chronicle Twins.chronicle
  have hq : Twins.left.publicOf "a" = some "x-c2FtZQAAAAAA.css" := by decide +kernel
  have hwithdrawn : Withdrawn "x-c2FtZQAAAAAA.css" Twins.past := ⟨"b", by decide +kernel⟩
  exact ⟨_, hq, hwithdrawn, fun h => (hiff _ _ hq).1 h hwithdrawn⟩

/-- The public path of a kept asset may be lost: two assets have it, and the one that was resolved first is
still kept when the other is dropped. -/
theorem exists_run_unpublished : ∃ s r, Run (fun _ => True) (make Sample.context Twins.catalog none) s ∧
    s.cached "a" = some r ∧ s.byPublic.get? r.publicPath = none ∧
    s.logicalFor? r.publicPath = none := by
  have hkept : (Twins.left.cached "a").isSome = true := by decide +kernel
  obtain ⟨r, hr⟩ := Option.isSome_iff_exists.1 hkept
  have hlost : ((Twins.left.cached "a").map fun r =>
      (Twins.left.byPublic.get? r.publicPath, Twins.left.logicalFor? r.publicPath)) = some (none, none) := by
    decide +kernel
  rw [hr, Option.map_some, Option.some.injEq, Prod.mk.injEq] at hlost
  exact ⟨Twins.left, r, (Course.refl.play Twins.playable fun _ _ => trivial).run, hr, hlost.1, hlost.2⟩

end HashedAssets.Resolver
