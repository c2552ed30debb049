import HashedAssets.Proofs.Resolver.Overtaken

/-!
# What is left when everything is dropped

Dropping everything is to make all that is resolved later come from bytes that are read later. What is in
flight cannot be dropped at once, and it is only noted where an earlier result is kept beside it. So there
is one way for something old to stay: through an asset that was in flight and had been read, or whose kept
result was about to be checked.

* `Context.MadeFrom`: a result that is made of bytes of a kind, all along what it needs;
* `InHand`, `Remains`, `Since`: the assets through which something older may stay, and what is made since
  but for that;
* `Renewed`, `Run.renewed`: whatever is kept or answered later is made since;
* `cleared_of_run`: and what becomes of the assets in hand;
* `exists_run_not_cleared`: an old result that stays.
-/

namespace HashedAssets

open SingleFlight Relation

/-! ### What is made of bytes given lately -/

namespace Catalog

/-- How often the loader of an asset was called. -/
def callsOf (c : Catalog) (d : Definition) : Nat := (c.calls.get? d.path).getD 0

theorem callsOf_le_fetch (c : Catalog) (d d' : Definition) :
    c.callsOf d' ≤ (c.fetch d).2.callsOf d' := by
  unfold fetch
  split
  · exact Nat.le_refl _
  · exact Nat.le_refl _
  · dsimp only
    split
    · rw [callsOf, callsOf, PathMap.get?_insert]
      split
      · next h => rw [h]; exact Nat.le_succ _
      · exact Nat.le_refl _
    · exact Nat.le_refl _

end Catalog

/-- A source has given something at a call between the counts of two catalogs, or gives it at any call. -/
def Definition.Gave (d : Definition) (c c' : Catalog) (result : Except Fault Bytes) : Prop :=
  ∃ k, d.give k = result ∧ (c.callsOf d ≤ k ∧ k < c'.callsOf d ∨ ∀ j, d.give j = result)

theorem Definition.gave_fetch {c c' : Catalog} {d : Definition} (h : c.callsOf d ≤ c'.callsOf d) :
    d.Gave c (c'.fetch d).2 (c'.fetch d).1.result := by
  refine ⟨c'.callsOf d, (Catalog.result_fetch c' d).symm, ?_⟩
  rw [Catalog.result_fetch]
  cases hsource : d.source with
  | static b => exact .inr fun j => by simp only [give, hsource]
  | directory b => exact .inr fun j => by simp only [give, hsource]
  | dynamic l held => cases l with
    | constant r => exact .inr fun j => by simp only [give, hsource, Loader.deliver]
    | varying f gate =>
        refine .inl ⟨h, ?_⟩
        simp [Catalog.fetch, hsource, Loader.isCounted, Catalog.callsOf]

namespace Context

variable {x : Context} {c k k' : Catalog} {reads reads' : String → Prepared → List Edge → Prop}
  {old old' : String → Resolved → Prop} {p : String} {a : Prepared} {es : List Edge} {r : Resolved}

/-- Bytes that a source has given between two counts stand for an asset with these edges. -/
def ReadsSince (x : Context) (c k : Catalog) (p : String) (a : Prepared) (es : List Edge) : Prop :=
  ∃ d raw, c.entries.get? p = some d ∧ d.Gave c k (.ok raw) ∧ x.prepare c d raw = .ok (a, es)

/-- A result is made of an asset of a kind, and so are all those that it is made with, but for some old
ones. -/
inductive MadeFrom (x : Context) (c : Catalog) (reads : String → Prepared → List Edge → Prop)
    (old : String → Resolved → Prop) : String → Resolved → Prop
  | old {p : String} {r : Resolved} (h : old p r) : MadeFrom x c reads old p r
  | intro {p : String} {a : Prepared} {es : List Edge} {m : PathMap Resolved} {r : Resolved}
      (asset : reads p a es) (present : ∀ t ∈ Edge.targets es, ∃ v, m.get? t = some v)
      (targets : ∀ t ∈ Edge.targets es, ∀ v, m.get? t = some v → MadeFrom x c reads old t v)
      (result : x.resolve c a es m = .ok r) : MadeFrom x c reads old p r

theorem ReadsSince.mono (h : x.ReadsSince c k p a es) (hk : ∀ d, k.callsOf d ≤ k'.callsOf d) :
    x.ReadsSince c k' p a es := by
  obtain ⟨d, raw, hd, ⟨j, hj, hcount⟩, hprep⟩ := h
  exact ⟨d, raw, hd, ⟨j, hj, hcount.imp_left fun ⟨hle, hlt⟩ => ⟨hle, Nat.lt_of_lt_of_le hlt (hk d)⟩⟩,
    hprep⟩

theorem MadeFrom.mono (h : x.MadeFrom c reads old p r) (hreads : ∀ p a es, reads p a es → reads' p a es)
    (hold : ∀ p r, old p r → old' p r) : x.MadeFrom c reads' old' p r := by
  induction h with
  | old h => exact .old (hold _ _ h)
  | intro hasset hpres _ hres ih => exact .intro (hreads _ _ _ hasset) hpres ih hres

end Context

theorem Target.of_accept_eq_ok {t : Target} {p : String} {b : Answer} {v : Resolved}
    (h : t.accept p b = .ok v) : b = .ok v := by
  unfold Target.accept at h
  split at h
  · split at h
    · exact h
    · cases h
  · exact h

namespace Resolver

variable {ok : Action → Prop} {c₀ : Catalog} {s t u w : Resolver} {n : CallId} {f : Flight} {p : String}
  {a : Prepared} {es : List Edge} {r v : Resolved} {i : RequestId}

/-! ### Since a state -/

/-- An asset is in flight, and its source has been asked for its bytes, or a result of it is kept. -/
def InHand (s : Resolver) (p : String) : Prop :=
  ∃ n f, s.flights.slots.get? p = some n ∧ s.flights.call? n = some f ∧
    (f.status ≠ .running .launched ∨ s.entries.get? p ≠ none)

/-- What may be left of an asset in hand: the result that its flight has ended with by then, or that was
kept. -/
def Remains (s w : Resolver) (p : String) (r : Resolved) : Prop :=
  s.InHand p ∧ ((∃ n, s.flights.slots.get? p = some n ∧ w.Yields n r) ∨
    ∃ e, s.entries.get? p = some e ∧ e.resolved = r)

/-- The bytes of an asset were given since a state, or those of an asset in hand since a count before. -/
def Supplies (c₀ : Catalog) (s w : Resolver) (p : String) (a : Prepared) (es : List Edge) : Prop :=
  s.context.ReadsSince s.catalog w.catalog p a es ∨
    s.InHand p ∧ s.context.ReadsSince c₀ w.catalog p a es

/-- A result is made since a state, but for what may be left of assets in hand. -/
def Since (c₀ : Catalog) (s w : Resolver) (p : String) (r : Resolved) : Prop :=
  s.context.MadeFrom s.catalog (Supplies c₀ s w) (s.Remains w) p r

/-- A flight that has not begun in a state, for an asset that is not in hand there, or one of later. -/
def Late (s : Resolver) (n : CallId) : Prop :=
  ∀ f, s.flights.call? n = some f → f.status = .running .launched ∧ ¬ s.InHand f.key

/-- What a late flight for a path has come to. -/
def Comes (c₀ : Catalog) (s w : Resolver) (p : String) : SingleFlight.Status Phase Answer → Prop
  | .running (.loading fetched) =>
      ∃ d, s.catalog.entries.get? p = some d ∧ d.Gave s.catalog w.catalog fetched.result
  | .running (.gathering a es kept children) => Supplies c₀ s w p a es ∧
      (∀ i ∈ children, s.requests.length ≤ i) ∧ ∀ r, kept = some r → Since c₀ s w p r
  | .finished (.result (.ok r)) => Since c₀ s w p r
  | _ => True

/-- What a request of later may wait for, and have got. -/
def Heard (c₀ : Catalog) (s w : Resolver) : Caller Answer → Prop
  | .waiting n => s.Late n ∨ ∃ p, s.flights.slots.get? p = some n ∧ s.InHand p
  | .done (.result (.ok v)) => Since c₀ s w v.path v
  | _ => True

/-- What holds since everything was dropped: what is kept, and what late flights and requests have come
to, is made since; and only late flights, and those for assets in hand, are in slots. -/
structure Renewed (c₀ : Catalog) (s w t : Resolver) : Prop where
  context : t.context = s.context
  catalog : t.catalog.entries = s.catalog.entries
  loads : ∀ d, s.catalog.callsOf d ≤ t.catalog.callsOf d
  calls : ∀ n f, s.flights.call? n = some f → ∃ f', t.flights.call? n = some f' ∧ f'.key = f.key
  asked : s.requests.length ≤ t.requests.length
  reads : ∀ p e, t.entries.get? p = some e → Supplies c₀ s w p e.asset e.resolved.edges
  kept : ∀ p e, t.entries.get? p = some e → Since c₀ s w p e.resolved
  slots : ∀ p n, t.flights.slots.get? p = some n →
    s.Late n ∨ s.flights.slots.get? p = some n ∧ s.InHand p
  flights : ∀ n f, s.Late n → t.flights.call? n = some f → Comes c₀ s w f.key f.status
  requests : ∀ (i : Nat) r, s.requests.length ≤ i → t.requests[i]? = some r → Heard c₀ s w r.caller

/-- The bytes of all that flights wait with were given since a count. -/
def Sourced (c₀ : Catalog) (s : Resolver) : Prop :=
  ∀ n f a es kept children, s.flights.call? n = some f →
    f.status = .running (.gathering a es kept children) →
      s.context.ReadsSince c₀ s.catalog f.key a es

/-! ### As time goes by -/

/-- A state is later than another one: sources were asked more often, and more flights have ended. -/
structure Later (s t : Resolver) : Prop where
  calls : ∀ d, s.catalog.callsOf d ≤ t.catalog.callsOf d
  yields : ∀ n r, s.Yields n r → t.Yields n r

theorem Move.callsOf_le (hm : Move s u) (d : Definition) :
    s.catalog.callsOf d ≤ u.catalog.callsOf d := by
  rcases hm with hm | ⟨n, hq | ⟨f, hf, hm⟩⟩
  · cases hm with
    | lapse hl => rw [hl.frame.2.1]
    | ask _ => exact Nat.le_refl _
    | forget _ _ => exact Nat.le_refl _
    | request _ hreq => cases hreq <;> exact Nat.le_refl _
  · cases hq; exact Nat.le_refl _
  · cases hm with
    | hold _ _ _ _ => exact Catalog.callsOf_le_fetch _ _ d
    | _ => exact Nat.le_refl _

theorem Move.later (hm : Move s u) : Later s u where
  calls := hm.callsOf_le
  yields n r := by
    rintro ⟨c, hc, hst⟩
    obtain ⟨c', hc', -, hst'⟩ := hm.finished hc hst
    exact ⟨c', hc', hst'⟩

namespace Later

theorem supplies (h : Later w u) (hs : Supplies c₀ s w p a es) : Supplies c₀ s u p a es :=
  hs.imp (·.mono h.calls) fun hs => ⟨hs.1, hs.2.mono h.calls⟩

theorem since (h : Later w u) (hs : Since c₀ s w p r) : Since c₀ s u p r :=
  hs.mono (fun _ _ _ => h.supplies) fun _ _ ⟨hp, hr⟩ =>
    ⟨hp, hr.imp_left fun ⟨n, hn, hy⟩ => ⟨n, hn, h.yields n _ hy⟩⟩

theorem comes (h : Later w u) {st : SingleFlight.Status Phase Answer} (hs : Comes c₀ s w p st) :
    Comes c₀ s u p st := by
  unfold Comes at *
  split at hs
  · obtain ⟨d, hd, j, hj, hcount⟩ := hs
    exact ⟨d, hd, j, hj,
      hcount.imp_left fun ⟨hle, hlt⟩ => ⟨hle, Nat.lt_of_lt_of_le hlt (h.calls d)⟩⟩
  · exact ⟨h.supplies hs.1, hs.2.1, fun r hr => h.since (hs.2.2 r hr)⟩
  · exact h.since hs
  · trivial

theorem heard (h : Later w u) {y : Caller Answer} (hs : Heard c₀ s w y) : Heard c₀ s u y := by
  unfold Heard at *
  split at hs
  · exact hs
  · exact h.since hs
  · trivial

theorem renewed (h : Later w u) (hs : Renewed c₀ s w t) : Renewed c₀ s u t :=
  { hs with
    reads := fun p e he => h.supplies (hs.reads p e he)
    kept := fun p e he => h.since (hs.kept p e he)
    flights := fun n f hn hf => h.comes (hs.flights n f hn hf)
    requests := fun i r hi hr => h.heard (hs.requests i r hi hr) }

end Later

/-! ### What flights get -/

/-- What a flight collects is made since, if the requests were made since. -/
theorem Renewed.collect (h : Renewed c₀ s w t) (ht : Coherent t) (hlab : Labelled t)
    (hf : t.flights.call? n = some f) {kept : Option Resolved} {children : List RequestId}
    (hst : f.status = .running (.gathering a es kept children))
    (hlate : ∀ i ∈ children, s.requests.length ≤ i) {m : PathMap Resolved}
    (hm : t.collect children = .result (.ok m)) :
    (∀ q ∈ Edge.targets es, ∃ v, m.get? q = some v) ∧ ∀ q v, m.get? q = some v → Since c₀ s w q v := by
  obtain ⟨hall, hfrom⟩ := collect_eq_ok hm
  refine ⟨fun q hq => ?_, fun q v hq => ?_⟩
  · obtain ⟨i, hi, r, hr, htarget⟩ := ht.wired.exists_mem_children hf hst hq
    obtain ⟨v, ho, hv⟩ := hall i hi
    obtain ⟨r', hr', hdone⟩ := outcome?_eq_some_iff.1 ho
    rw [hr] at hr'; cases hr'
    rwa [hlab.answers.requests i r _ q (Nat.zero_le i) hr hdone htarget v rfl] at hv
  · obtain ⟨rfl, i, hi, ho⟩ := hfrom q v hq
    obtain ⟨r, hr, hdone⟩ := outcome?_eq_some_iff.1 ho
    have hheard := h.requests i r (hlate i hi) hr
    rwa [hdone] at hheard

/-- A result that a late flight gets is made since. -/
theorem Renewed.since_landing (h : Renewed c₀ s w t) (ht : Coherent t) (hlab : Labelled t)
    (hf : t.flights.call? n = some f) (hlate : s.Late n) {m : PathMap Entry} (hl : Landing t f m r) :
    Since c₀ s w f.key r := by
  have hcomes := h.flights n f hlate hf
  cases hl with
  | reuse hst _ _ =>
      rw [hst] at hcomes
      exact hcomes.2.2 r rfl
  | renew hst hans _ hres =>
      rw [hst] at hcomes
      obtain ⟨hall, hsince⟩ := h.collect ht hlab hf hst hcomes.2.1 hans
      rw [h.context, Context.resolve_catalog_congr h.catalog] at hres
      exact .intro hcomes.1 hall (fun q _ v hv => hsince q v hv) hres

/-- A result that a flight gets, and goes on to have, is made since, or it is what is left of an asset in
hand. -/
theorem Renewed.landing (h : Renewed c₀ s w t) (hlater : Later t w) (ht : Coherent t)
    (hlab : Labelled t) (hsourced : Sourced c₀ t) (hf : t.flights.call? n = some f)
    (hgo : f.cancelled = false) {m : PathMap Entry} (hl : Landing t f m r) (hy : w.Yields n r) :
    Since c₀ s w f.key r ∧
      ∀ e, m.get? f.key = some e → Supplies c₀ s w f.key e.asset r.edges := by
  have hasset : ∀ e, m.get? f.key = some e → ∃ kept children,
      f.status = .running (.gathering e.asset r.edges kept children) := fun e he => by
    obtain ⟨-, e', he', -, -, hst⟩ := hl.get? ht hf hgo
    rw [he] at he'; cases he'
    exact hst
  rcases h.slots _ n (ht.underWay hf hl.isRunning hgo).1 with hlate | ⟨hslot, hp⟩
  · refine ⟨h.since_landing ht hlab hf hlate hl, fun e he => ?_⟩
    obtain ⟨kept, children, hst⟩ := hasset e he
    have hcomes := h.flights n f hlate hf
    rw [hst] at hcomes
    exact hcomes.1
  · refine ⟨.old ⟨hp, .inl ⟨n, hslot, hy⟩⟩, fun e he => ?_⟩
    obtain ⟨kept, children, hst⟩ := hasset e he
    have hreads := hsourced n f _ _ _ _ hf hst
    rw [h.context] at hreads
    exact .inr ⟨hp, hreads.mono hlater.calls⟩

/-- What a late flight comes to is made since. -/
theorem Renewed.comes_stage (h : Renewed c₀ s u t) (ht : Coherent t) (hlab : Labelled t)
    (hf : t.flights.call? n = some f) (hlate : s.Late n) {st : SingleFlight.Status Phase Answer}
    (hstage : Stage t f u st) : Comes c₀ s u f.key st := by
  have hcomes := h.flights n f hlate hf
  cases hstage with
  | held _ hget hcat =>
      exact ⟨_, h.catalog ▸ Catalog.get_eq_ok_iff.1 hget, hcat ▸ Definition.gave_fetch (h.loads _)⟩
  | @rechecks e children _ he _ hasked =>
      exact ⟨h.reads _ e he, fun i hi => Nat.le_trans h.asked ((hasked i).1 hi).1,
        fun r hr => by cases hr; exact h.kept _ e he⟩
  | @gathers fetched raw d a es children hst' hres hget hprep _ hasked =>
      rw [hst'] at hcomes
      obtain ⟨d', hd', hgave⟩ := hcomes
      rw [Catalog.get_eq_ok_iff, h.catalog, hd'] at hget
      cases hget
      rw [h.context, Context.prepare_congr h.catalog] at hprep
      exact ⟨.inl ⟨d, raw, hd', hres ▸ hgave, hprep⟩,
        fun i hi => Nat.le_trans h.asked ((hasked i).1 hi).1, fun r hr => by cases hr⟩
  | landed _ hl _ => exact h.since_landing ht hlab hf hlate hl
  | _ => trivial

/-! ### What requests hear -/

/-- In a slot is the flight that was there, or one that has just begun. -/
theorem Move.slot (hm : Move t u) (hn : u.flights.slots.get? p = some n) :
    t.flights.slots.get? p = some n ∨ t.flights.call? n = none := by
  rcases hm with hm | ⟨m, hq | ⟨f, hf, hm⟩⟩
  · cases hm with
    | lapse hl => exact .inl (hl.frame.2.2.1 ▸ hn)
    | ask _ => exact .inl hn
    | forget _ _ => exact .inl (Table.slots_of_forget hn)
    | request _ hreq =>
        cases hreq with
        | join _ _ _ _ => exact .inl ((Table.slots_modify _ _ _) ▸ hn)
        | @launch q _ _ _ _ _ _ =>
            have hn' : (t.flights.slots.insert q t.flights.calls.length).get? p = some n := hn
            rw [PathMap.get?_insert] at hn'
            split at hn'
            · cases hn'; exact .inr (Table.call?_eq_none_iff.2 (Nat.le_refl _))
            · exact .inl hn'
        | take _ _ _ _ => exact .inl (Table.slots_of_detach hn)
        | _ => exact .inl hn
  · cases hq; exact .inl hn
  · exact .inl (hm.slots ▸ hn)

theorem Renewed.late_of_none (h : Renewed c₀ s w t) (hn : t.flights.call? n = none) : s.Late n := by
  intro f hf
  obtain ⟨f', hf', -⟩ := h.calls n f hf
  rw [hn] at hf'; cases hf'

/-- The answer of a flight that a request waits for is made since. -/
theorem Renewed.since_answer (h : Renewed c₀ s w t) (hlater : Later t w) (hs : Coherent s)
    (hlab : Labelled t) (hn : s.Late n ∨ ∃ p, s.flights.slots.get? p = some n ∧ s.InHand p)
    (hf : t.flights.call? n = some f) (hst : f.status = .finished (.result (.ok v))) :
    Since c₀ s w v.path v := by
  rw [hlab.answers.flights n f _ (Nat.zero_le n) hf hst v rfl]
  rcases hn with hlate | ⟨p, hslot, hp⟩
  · have hcomes := h.flights n f hlate hf
    rwa [hst] at hcomes
  · obtain ⟨f₀, hf₀, rfl, -⟩ := hs.wired.slot p n hslot
    obtain ⟨f', hf', hk⟩ := h.calls n f₀ hf₀
    rw [hf] at hf'; cases hf'
    rw [hk]
    exact .old ⟨hp, .inl ⟨n, hslot, hlater.yields n v ⟨f, hf, hst⟩⟩⟩

/-- What a request comes to wait for, or gets. -/
theorem Renewed.heard_request (h : Renewed c₀ s w t) (hlater : Later t w) (hs : Coherent s)
    (hlab : Labelled t) {r : Request} (hr : t.requests[i]? = some r) (hm : RequestMove t i r u) :
    ∃ rs y, Hushed t.requests rs ∧ u.requests = rs.modify i (fun r => { r with caller := y }) ∧
      (s.requests.length ≤ i → Heard c₀ s w y) := by
  cases hm with
  | quit _ _ => exact ⟨_, _, .refl _, rfl, fun _ => trivial⟩
  | refuse _ _ _ => exact ⟨_, _, .refl _, rfl, fun _ => trivial⟩
  | @hit p e _ _ _ _ _ he _ =>
      refine ⟨_, _, .refl _, rfl, fun _ => ?_⟩
      cases hans : r.target.accept p (.ok e.resolved) with
      | error g => trivial
      | ok v =>
          cases Target.of_accept_eq_ok hans
          show Since c₀ s w e.resolved.path e.resolved
          rw [(hlab.kept p e he).2.1]
          exact h.kept p e he
  | join _ _ _ hslot =>
      exact ⟨_, _, .refl _, rfl, fun _ => (h.slots _ _ hslot).imp_right fun hp => ⟨_, hp⟩⟩
  | launch _ _ _ _ _ _ =>
      exact ⟨_, _, .refl _, rfl, fun _ =>
        .inl (h.late_of_none (Table.call?_eq_none_iff.2 (Nat.le_refl _)))⟩
  | @take n o rs hw hans hrs _ =>
      refine ⟨_, _, hrs, rfl, fun hi => ?_⟩
      have hheard := h.requests i r hi hr
      rw [hw] at hheard
      cases o with
      | cancelled => trivial
      | result b =>
          rw [Target.acceptOutcome]
          cases hb : r.target.accept (t.pathOf n) b with
          | error g => trivial
          | ok v =>
              cases Target.of_accept_eq_ok hb
              obtain ⟨f, hf, hst⟩ := Table.answer?_eq_result hans
              exact h.since_answer hlater hs hlab hheard hf hst

/-- Requests are made, and hear of what is made since. -/
theorem Renewed.heard_move (h : Renewed c₀ s w t) (hlater : Later t w) (hs : Coherent s)
    (hlab : Labelled t) (hm : Move t u) : s.requests.length ≤ u.requests.length ∧
      ∀ (i : Nat) r, s.requests.length ≤ i → u.requests[i]? = some r → Heard c₀ s w r.caller := by
  have happend : ∀ new, u.requests = t.requests ++ new → (∀ r ∈ new, r.caller = .fresh) →
      s.requests.length ≤ u.requests.length ∧ ∀ (i : Nat) r, s.requests.length ≤ i →
        u.requests[i]? = some r → Heard c₀ s w r.caller := fun new hu hnew => by
    rw [hu]
    refine ⟨by rw [List.length_append]; exact Nat.le_trans h.asked (Nat.le_add_right _ _),
      fun i r hi hr => ?_⟩
    rcases request_of_append hr with hr | ⟨-, hmem⟩
    · exact h.requests i r hi hr
    · rw [hnew r hmem]; trivial
  have hsame : u.requests = t.requests → s.requests.length ≤ u.requests.length ∧
      ∀ (i : Nat) r, s.requests.length ≤ i → u.requests[i]? = some r → Heard c₀ s w r.caller :=
    fun hu => happend [] (by rw [hu, List.append_nil]) fun r hr => by cases hr
  rcases hm with hm | ⟨m, hq | ⟨f, hf, hm⟩⟩
  · cases hm with
    | lapse hl => exact hsame hl.frame.2.2.2
    | ask _ => exact happend _ rfl fun r hr => by rw [List.mem_singleton.1 hr]
    | forget _ _ => exact hsame rfl
    | @request i r _ hr hreq =>
        obtain ⟨rs, y, hrs, hu, hy⟩ := h.heard_request hlater hs hlab hr hreq
        refine ⟨hreq.length_eq ▸ h.asked, fun j r' hj hr' => ?_⟩
        rw [hu] at hr'
        obtain ⟨r₁, hr₁, ⟨rfl, rfl⟩ | ⟨-, rfl⟩⟩ := request_of_modify hr'
        · exact hy hj
        · obtain ⟨r₀, hr₀, -, hc⟩ := hrs.exists_eq hr₁
          exact hc ▸ h.requests j r₀ hj hr₀
  · cases hq; exact hsame rfl
  · obtain ⟨new, hrs, hnew⟩ := hm.requests
    exact happend new hrs hnew

/-! ### Moves and runs -/

/-- Every move keeps what holds since everything was dropped. -/
theorem Renewed.move (h : Renewed c₀ s t t) (hs : Coherent s) (ht : Coherent t) (hlab : Labelled t)
    (hsourced : Sourced c₀ t) (hm : Move t u) : Renewed c₀ s u u := by
  have hlater := hm.later
  replace h := hlater.renewed h
  obtain ⟨hasked, hheard⟩ := h.heard_move hlater hs hlab hm
  have hentry : ∀ p e, u.entries.get? p = some e →
      Since c₀ s u p e.resolved ∧ Supplies c₀ s u p e.asset e.resolved.edges := fun p e he => by
    rcases hm.entry ht he with ⟨e₀, he₀, ha, hr, -⟩ | ⟨n, f, m, hf, hgo, rfl, hl, hme, hy⟩
    · exact ha ▸ hr ▸ ⟨h.kept p e₀ he₀, h.reads p e₀ he₀⟩
    · exact (h.landing hlater ht hlab hsourced hf hgo hl ⟨_, hy, rfl⟩).imp_right (· e hme)
  exact
    { context := hm.frame.1.trans h.context
      catalog := hm.frame.2.trans h.catalog
      loads := fun d => Nat.le_trans (h.loads d) (hm.callsOf_le d)
      calls := fun n f hf => by
        obtain ⟨f₁, hf₁, hk₁⟩ := h.calls n f hf
        obtain ⟨f₂, hf₂, hk₂, -⟩ := hm.exists_call? hf₁
        exact ⟨f₂, hf₂, hk₂.trans hk₁⟩
      asked := hasked
      reads := fun p e he => (hentry p e he).2
      kept := fun p e he => (hentry p e he).1
      slots := fun p n hn => (hm.slot hn).elim (h.slots p n) fun hnone => .inl (h.late_of_none hnone)
      flights := fun n f hlate hf => by
        cases hm.before hf with
        | same hf₀ hk hst _ => exact hk ▸ hst ▸ h.flights n _ hlate hf₀
        | begun _ hst _ => rw [hst]; trivial
        | moved hf₀ hm => exact h.comes_stage ht hlab hf₀ hlate (hm.stage hf₀ hf)
      requests := hheard }

theorem Renewed.hush {rs : List Request} (h : Renewed c₀ s t t) (hh : Hushed t.requests rs) :
    Renewed c₀ s { t with requests := rs } { t with requests := rs } :=
  have hlater : Later t { t with requests := rs } := ⟨fun _ => Nat.le_refl _, fun _ _ => id⟩
  { hlater.renewed h with
    asked := Nat.le_trans h.asked hh.length_le
    requests := fun i r hi hr => by
      obtain ⟨r₀, hr₀, -, hc⟩ := hh.exists_eq hr
      exact hc ▸ hlater.heard (h.requests i r₀ hi hr₀) }

theorem not_inHand_make (x : Context) (cat : Catalog) (watch : Option Watch) (p : String) :
    ¬ (make x cat watch).InHand p := by
  rintro ⟨n, f, hn, -⟩
  cases hn

theorem Renewed.make (x : Context) (cat : Catalog) (watch : Option Watch) :
    Renewed cat (make x cat watch) (make x cat watch) (make x cat watch) where
  context := rfl
  catalog := rfl
  loads _ := Nat.le_refl _
  calls n f hf := ⟨f, hf, rfl⟩
  asked := Nat.le_refl _
  reads p e he := by cases he
  kept p e he := by cases he
  slots p n hn := by cases hn
  flights n f _ hf := by cases hf
  requests i r _ hr := by cases hr

/-- All bytes were given since the resolver was made. -/
theorem Renewed.sourced {x : Context} {cat : Catalog} {watch : Option Watch}
    (h : Renewed cat (Resolver.make x cat watch) t t) : Sourced cat t := by
  intro n f a es kept children hf hst
  have hcomes := h.flights n f (fun f hf => by cases hf) hf
  rw [hst] at hcomes
  rw [h.context]
  exact hcomes.1.resolve_right fun hp => not_inHand_make x cat watch _ hp.1

theorem Run.renewed_make {x : Context} {cat : Catalog} {watch : Option Watch} (hcat : cat.Keyed)
    (h : Run ok (make x cat watch) s) : Renewed cat (make x cat watch) s s := by
  have hs : Coherent (make x cat watch) := .make hcat watch
  exact (h.induction_coherent (P := fun s => Labelled s ∧ Renewed cat (make x cat watch) s s) hs
    ⟨.make x cat watch, .make x cat watch⟩
    (fun _ _ ht hP hm => ⟨hP.1.move ht hm, hP.2.move hs ht hP.1 hP.2.sourced hm⟩)
    fun _ _ _ hP hh => ⟨hP.1.hush hh, hP.2.hush hh⟩).2

/-- In a slot when everything is dropped is a flight for an asset in hand, or one that has not begun. -/
theorem Coherent.late_or_inHand (hs : Coherent s) (hn : s.flights.slots.get? p = some n) :
    s.Late n ∨ s.flights.slots.get? p = some n ∧ s.InHand p := by
  by_cases hp : s.InHand p
  · exact .inr ⟨hn, hp⟩
  · refine .inl fun f hf => ?_
    obtain ⟨f', hf', rfl, -⟩ := hs.wired.slot p n hn
    rw [hf] at hf'; cases hf'
    exact ⟨by_contra fun hst => hp ⟨n, f, hn, hf, .inl hst⟩, hp⟩

/-- When everything has just been dropped, what is kept is what was kept of assets in hand. -/
theorem Renewed.clear (hs : Coherent s) (hmade : ∀ p e, s.entries.get? p = some e →
      s.context.ReadsSince c₀ s.catalog p e.asset e.resolved.edges) :
    Renewed c₀ s s.clear s.clear := by
  obtain ⟨hcontext, hcatalog, hflights, hrequests⟩ := frame_of_lapses (lapses_clear s)
  have hkept : ∀ p e, s.clear.entries.get? p = some e → s.InHand p ∧ s.entries.get? p = some e :=
    fun p e he => by
      rw [entries_clear_get?] at he
      split at he
      · cases he
      · next hslot =>
          obtain ⟨n, hn⟩ := Option.ne_none_iff_exists'.1 hslot
          obtain ⟨f, hf, -⟩ := hs.wired.slot p n hn
          exact ⟨⟨n, f, hn, hf, .inr (by simp [he])⟩, he⟩
  exact
    { context := hcontext
      catalog := congrArg _ hcatalog
      loads := fun d => by rw [hcatalog]
      calls := fun n f hf => ⟨f, hflights ▸ hf, rfl⟩
      asked := by rw [hrequests]
      reads := fun p e he => .inr ⟨(hkept p e he).1, hcatalog.symm ▸ hmade p e (hkept p e he).2⟩
      kept := fun p e he => .old ⟨(hkept p e he).1, .inr ⟨e, (hkept p e he).2, rfl⟩⟩
      slots := fun p n hn => hs.late_or_inHand (hflights ▸ hn)
      flights := fun n f hlate hf => by
        rw [(hlate f (hflights ▸ hf)).1]
        trivial
      requests := fun i r hi hr => by
        rw [hrequests, List.getElem?_eq_none hi] at hr
        cases hr }

/-- Whatever happens after everything was dropped, all is made since. -/
theorem Run.renewed {ok' : Action → Prop} {x : Context} {cat : Catalog} {watch : Option Watch}
    (hcat : cat.Keyed) (h : Run ok (make x cat watch) s) (h' : Run ok' s.clear t) :
    Renewed cat s t t := by
  have hs := h.coherent (.make hcat watch)
  have hs₀ : Coherent s.clear := hs.act (a := .clear) trivial
  have hcleared : Run (fun _ => True) (make x cat watch) s.clear :=
    (h.mono fun _ _ => trivial).next (a := .clear) trivial trivial
  have hmade := h.renewed_make hcat
  have hreads : ∀ p e, s.entries.get? p = some e →
      s.context.ReadsSince cat s.catalog p e.asset e.resolved.edges := fun p e he => by
    rw [hmade.context]
    exact (hmade.reads p e he).resolve_right fun hp => not_inHand_make x cat watch _ hp.1
  exact (h'.induction_coherent (P := fun t => Labelled t ∧ Renewed cat (make x cat watch) t t ∧
      Renewed cat s t t) hs₀
    ⟨hcleared.labelled hcat, hcleared.renewed_make hcat, .clear hs hreads⟩
    (fun _ _ ht ⟨hlab, hmade, hP⟩ hm => ⟨hlab.move ht hm,
      hmade.move (.make hcat watch) ht hlab hmade.sourced hm, hP.move hs ht hlab hmade.sourced hm⟩)
    fun _ _ _ ⟨hlab, hmade, hP⟩ hh => ⟨hlab.hush hh, hmade.hush hh, hP.hush hh⟩).2.2

/-- After everything was dropped, all that is kept, and all that is answered to those who ask later, is
made of bytes given since, but for what may be left of assets in hand. When the flight for an asset is over
that was under way, then nothing is left of it just if it has ended with a result that was to be dropped,
or it has no result and nothing was kept. The result is to be dropped if something was kept, unless an
earlier flight that had been asked to stop has ended meanwhile; and if nothing is invalidated later then
only if something was kept, or the asset was noted before. Where the flight had ended before, but was
still in its slot, what was kept is left. -/
theorem cleared_of_run {ok' : Action → Prop} {x : Context} {cat : Catalog} {watch : Option Watch}
    (hcat : cat.Keyed) (h : Run ok (make x cat watch) s) :
    (∀ t, Run ok' s.clear t →
      (∀ p e, t.entries.get? p = some e → Since cat s t p e.resolved) ∧
      ∀ i v, s.requests.length ≤ i → t.outcome? i = some (.result (.ok v)) →
        Since cat s t v.path v) ∧
    ∀ p n, s.flights.slots.get? p = some n →
      (s.UnderWay p n → ∀ t a, Run ok' s.clear t → t.UnderWay p n → t.Admits a →
        ¬ (t.act a).UnderWay p n →
        (Forgotten ok' p (t.act a) ↔
          (∃ r, (t.act a).Yields n r) ∧ p ∈ t.dropOnLanding ∨
            (¬ ∃ r, (t.act a).Yields n r) ∧ s.entries.get? p = none) ∧
        (s.entries.get? p ≠ none → p ∈ t.dropOnLanding ∨ ∃ k, s.Stopped p k ∧ t.Ended k) ∧
        (s.watch = none → (∀ b, ok' b → b.Keeps) → p ∈ t.dropOnLanding →
          p ∈ s.dropOnLanding ∨ s.entries.get? p ≠ none)) ∧
      (¬ s.UnderWay p n → (Forgotten ok' p s.clear ↔ s.entries.get? p = none)) := by
  have hs := h.coherent (.make hcat watch)
  have hs₀ : Coherent s.clear := hs.act (a := .clear) trivial
  have hflights := flights_clear s
  refine ⟨fun t ht => ?_, fun p n hslot => ?_⟩
  · have hrenewed := h.renewed hcat ht
    refine ⟨hrenewed.kept, fun i v hi ho => ?_⟩
    obtain ⟨r, hr, hdone⟩ := outcome?_eq_some_iff.1 ho
    have hheard := hrenewed.requests i r hi hr
    rwa [hdone] at hheard
  · have hbusy : s.flights.slots.get? p ≠ none := by simp [hslot]
    have hentry : s.clear.entries.get? p = s.entries.get? p := by
      rw [entries_clear_get?, if_neg hbusy]
    have hunderWay : s.clear.UnderWay p n ↔ s.UnderWay p n := by
      unfold UnderWay
      rw [hflights]
    refine ⟨fun hn t a hrun hn' ha hover => ?_, fun hn => ?_⟩
    · have hn₀ := hunderWay.2 hn
      rw [hn₀.forgotten_iff hs₀ hrun hn' ha hover, hentry]
      refine ⟨.rfl, fun he => ?_, fun hw hok hd => ?_⟩
      · refine ((hrun.meanwhile hs₀ hn₀ hn').noted (mem_dropOnLanding_clear.2 (.inr ⟨he, hbusy⟩))).imp_right
          fun ⟨k, ⟨c, hc, hrest⟩, hended⟩ => ⟨k, ⟨c, hflights ▸ hc, hrest⟩, hended⟩
      · have hd₀ := (of_mem_dropOnLanding_of_run hrun hok (watch_clear hw)).2 hd
        exact (mem_dropOnLanding_clear.1 hd₀).imp_right And.left
    · rw [forgotten_iff hs₀ (not_gathering_of_slot hs₀ (by rw [hflights]; exact hslot)
        (hunderWay.not.2 hn)), hentry]

/-! ### A sample

`a` refers to `b`, whose source waits at a gate. It has been read, and waits for `b`, when everything is
dropped. -/

namespace Leftover

/-- The two assets. -/
def catalog : Catalog :=
  ((∅ : Catalog).add
    ⟨"a", .dynamic (.varying Revival.version none) none, ({} : Choices).options true,
      Pair.a_ne_empty⟩).add
    ⟨"b", .dynamic (.varying (fun _ => .ok (Bytes.ofText "b")) (some "gate")) none,
      ({} : Choices).options true, Pair.b_ne_empty⟩

theorem keyed_catalog : catalog.Keyed := (Catalog.keyed_empty.add _).add _

/-- The flight for `a` waits for that for `b`, which is held. -/
def first : List Action :=
  [.ask (.logical "a"), .step (.request 0), .step (.flight 0), .step (.request 1), .step (.flight 1)]

/-- The flight for `b` ends. -/
def second : List Action := [.openGate "gate", .step (.flight 1), .step (.request 1), .step (.forget 1)]

/-- The request for `a` is served. -/
def third : List Action := [.step (.request 0), .step (.forget 0)]

/-- The request for `a` that is made then is served. -/
def fourth : List Action := [.step (.request 2)]

/-- The state in which everything is dropped. -/
def waiting : Resolver := ((make Sample.context catalog none).play [] first).1

/-- The state in which the flight for `a` is about to end. -/
def ending : Resolver := (waiting.clear.play [] second).1

/-- The state in which it has ended. -/
def ended : Resolver := ending.act (.step (.flight 0))

/-- The state in which nothing goes on any more. -/
def settled : Resolver := (ended.play [] third).1

/-- The state in which `a` has been asked for once more. -/
def served : Resolver := ((settled.ask (.logical "a")).2.play [] fourth).1

/-- All this can happen. -/
theorem playable : (make Sample.context catalog none).Playable first ∧
    waiting.clear.Playable second ∧ ending.Admits (.step (.flight 0)) ∧ ended.Playable third ∧
    (settled.ask (.logical "a")).2.Playable fourth := by
  decide +kernel

theorem run_waiting : Run Action.Patient (make Sample.context catalog none) waiting :=
  (Course.refl.play playable.1 (by simp [first, Action.Patient])).run

theorem run_ending : Run Action.Internal waiting.clear ending :=
  (Course.refl.play playable.2.1 (by simp [second, Action.Internal])).run

theorem run_settled : Run Action.Internal waiting.clear settled :=
  (run_ending.next (a := .step (.flight 0)) trivial playable.2.2.1).trans
    (Course.refl.play playable.2.2.2.1 (by simp [third, Action.Internal])).run

theorem run_served : Run Action.Internal (settled.ask (.logical "a")).2 served :=
  (Course.refl.play playable.2.2.2.2 (by simp [fourth, Action.Internal])).run

/-- The source of `a` was asked once, before everything was dropped, and gives something else the next
time. -/
theorem given : (waiting.catalog.entries.get? "a").map (fun d => (waiting.catalog.callsOf d,
    settled.catalog.callsOf d, (d.give 0).toOption == (d.give 1).toOption)) = some (1, 1, false) := by
  decide +kernel

/-- So no bytes of `a` were given since. -/
theorem not_readsSince {p : Prepared} {es : List Edge} :
    ¬ waiting.context.ReadsSince waiting.catalog settled.catalog "a" p es := by
  rintro ⟨d, raw, hd, ⟨k, -, hgave⟩, -⟩
  have hgiven := given
  rw [hd, Option.map_some, Option.some.injEq, Prod.mk.injEq, Prod.mk.injEq] at hgiven
  obtain ⟨hbefore, hafter, hdiffer⟩ := hgiven
  rcases hgave with ⟨hle, hlt⟩ | hall
  · omega
  · simp [hall] at hdiffer

end Leftover

/-- In the sample: what is kept in the end is made since, but for what may be left of assets in hand; and
nothing is left of `a` when its flight has ended just if that has a result that was to be dropped, or has
none. -/
theorem cleared_ended :
    (∀ p e, Leftover.settled.entries.get? p = some e →
      Since Leftover.catalog Leftover.waiting Leftover.settled p e.resolved) ∧
    (Forgotten Action.Internal "a" Leftover.ended ↔
      (∃ r, Leftover.ended.Yields 0 r) ∧ "a" ∈ Leftover.ending.dropOnLanding ∨
        (¬ ∃ r, Leftover.ended.Yields 0 r) ∧ Leftover.waiting.entries.get? "a" = none) := by
  have hsince := (cleared_of_run Leftover.keyed_catalog Leftover.run_waiting).1 _ Leftover.run_settled
  have hover := ((cleared_of_run Leftover.keyed_catalog Leftover.run_waiting).2 "a" 0
    (by decide +kernel)).1 (by decide +kernel) Leftover.ending (.step (.flight 0)) Leftover.run_ending
    (by decide +kernel) Leftover.playable.2.2.1 (by decide +kernel)
  exact ⟨hsince.1, hover.1⟩

/-- Something old may be left when everything was dropped: the flight for `a` has read its source before,
and nothing was kept for it. In the end nothing is in flight any more, and its result is kept. The next
request is answered with it, and the source is not asked again. -/
theorem exists_run_not_cleared : ∃ s t r,
    Run Action.Patient (make Sample.context Leftover.catalog none) s ∧ s.UnderWay "a" 0 ∧
    Run Action.Internal s.clear t ∧ (∀ p, t.flights.slots.get? p = none) ∧
    (∃ e, t.entries.get? "a" = some e ∧ e.needsCheck = false ∧ e.resolved = r) ∧
    ¬ s.context.MadeFrom s.catalog (s.context.ReadsSince s.catalog t.catalog) (fun _ _ => False) "a" r ∧
    ∃ u, Run Action.Internal (t.ask (.logical "a")).2 u ∧
      u.outcome? t.requests.length = some (.result (.ok r)) ∧
      u.catalog.calls.get? "a" = s.catalog.calls.get? "a" := by
  obtain ⟨r, hr⟩ : ∃ r, Leftover.ended.yield? 0 = some r :=
    Option.isSome_iff_exists.1 (by decide +kernel)
  have hkept : (Leftover.settled.entries.get? "a").map (fun e => (e.needsCheck, some e.resolved))
      = some (false, Leftover.ended.yield? 0) := by decide +kernel
  obtain ⟨e, he, hunmarked⟩ := Option.map_eq_some_iff.1 hkept
  rw [hr] at hunmarked
  have hsame : Leftover.served.result? Leftover.settled.requests.length = Leftover.ended.yield? 0 := by
    decide +kernel
  have hempty : Leftover.settled.flights.slots.bindings = [] := by decide +kernel
  refine ⟨Leftover.waiting, Leftover.settled, r, Leftover.run_waiting, by decide +kernel,
    Leftover.run_settled, fun p => ?_,
    ⟨e, he, congrArg Prod.fst hunmarked, Option.some.inj (congrArg Prod.snd hunmarked)⟩, ?_,
    Leftover.served, Leftover.run_served, outcome?_of_result? (hsame.trans hr), by decide +kernel⟩
  · rw [PathMap.get?, hempty]
    rfl
  · rintro (h | ⟨hreads, -, -, -⟩)
    · exact h
    · exact Leftover.not_readsSince hreads

end Resolver

end HashedAssets
