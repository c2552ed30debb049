import HashedAssets.Proofs.Graph.Edges
import HashedAssets.Proofs.Resolution.Equations
import HashedAssets.Proofs.Resolver.Run

/-!
# How requests, flights and kept results hang together

* `Wired`: who sits in which slot, and who waits for whom;
* `Tended`: what is kept of the paths of flights under way;
* `Coherent`: both, with what is true of the graph and the catalog; every run keeps it.
-/

namespace HashedAssets.Resolver

open SingleFlight Relation

/-! ### What is kept -/

theorem get?_of_get?_erase {α : Type} {m : PathMap α} {p q : String} {a : α}
    (h : (m.erase p).get? q = some a) : q ≠ p ∧ m.get? q = some a := by
  rw [PathMap.get?_erase] at h
  split at h
  · cases h
  · next hne => exact ⟨hne, h⟩

theorem of_get?_modify {α : Type} {m : PathMap α} {p q : String} {f : α → α} {a : α}
    (h : (m.modify p f).get? q = some a) :
    ∃ b, m.get? q = some b ∧ (q = p ∧ a = f b ∨ q ≠ p ∧ a = b) := by
  rw [PathMap.get?_modify] at h
  split at h
  · next hqp =>
      obtain ⟨b, hb, rfl⟩ := Option.map_eq_some_iff.1 h
      exact ⟨b, hqp ▸ hb, .inl ⟨hqp, rfl⟩⟩
  · next hqp => exact ⟨a, h, .inr ⟨hqp, rfl⟩⟩

/-! ### Requests and flights -/

/-- Among requests and new ones is one that was there, or a new one. -/
theorem request_of_append {rs new : List Request} {i : RequestId} {r : Request}
    (hr : (rs ++ new)[i]? = some r) : rs[i]? = some r ∨ rs.length ≤ i ∧ r ∈ new := by
  rw [List.getElem?_append] at hr
  split at hr
  · exact .inl hr
  · next hge => exact .inr ⟨Nat.le_of_not_lt hge, List.mem_of_getElem? hr⟩

/-- A request after one has come to another caller is that one, or it is as it was. -/
theorem request_of_modify {rs : List Request} {i j : RequestId} {x : Caller Answer} {r : Request}
    (hr : (rs.modify i fun r => { r with caller := x })[j]? = some r) :
    ∃ r₀, rs[j]? = some r₀ ∧ (i = j ∧ r = { r₀ with caller := x } ∨ i ≠ j ∧ r = r₀) := by
  rw [List.getElem?_modify] at hr
  obtain ⟨r₀, hr₀, he⟩ := Option.map_eq_some_iff.1 hr
  split at he
  · next hij => exact ⟨r₀, hr₀, .inl ⟨hij, he.symm⟩⟩
  · next hij => exact ⟨r₀, hr₀, .inr ⟨hij, he.symm⟩⟩

/-- Each slot holds a flight for its path that goes on or has ended, and each flight that goes on is in
its slot; requests wait for flights for what they ask for; and a flight waits for one request for each
target of its edges. -/
structure Wired (t : Table Phase Answer) (rs : List Request) : Prop where
  slot : ∀ p n, t.slots.get? p = some n → ∃ c, t.call? n = some c ∧ c.key = p ∧ c.cancelled = false
  held : ∀ n c, t.call? n = some c → c.isRunning = true → c.cancelled = false →
    t.slots.get? c.key = some n
  waiting : ∀ (i : Nat) r n, rs[i]? = some r → r.caller = .waiting n →
    ∃ c, t.call? n = some c ∧ r.target.Allows c.key
  children : ∀ n c a es kept children, t.call? n = some c →
    c.status = .running (.gathering a es kept children) →
    children.map (fun i => (rs[i]?).map (·.target)) =
      (ascending (Edge.targets es)).map fun q => some (.logical q)

variable {t : Table Phase Answer} {rs rs' : List Request} {n : CallId}

theorem Wired.empty : Wired ∅ [] where
  slot p n h := by cases h
  held n c h := by cases h
  waiting i r n h := by cases h
  children n c a es kept children h := by cases h

theorem Wired.hush (h : Wired t rs) (hh : Hushed rs rs') : Wired t rs' where
  slot := h.slot
  held := h.held
  waiting i r n hr hw := by
    have hi := hh i
    rw [hr] at hi
    obtain ⟨r₀, hr₀, he⟩ := Option.map_eq_some_iff.1 hi.symm
    obtain ⟨ht, hc⟩ := Prod.mk.inj he
    exact ht ▸ h.waiting i r₀ n hr₀ (hc.trans hw)
  children n c a es kept children hc hs := by
    rw [← h.children n c a es kept children hc hs]
    refine List.map_congr_left fun i _ => ?_
    have hi := congrArg (Option.map Prod.fst) (hh i)
    simpa [Option.map_map, Function.comp_def] using hi

/-- There is one flight under way for a path at most, but for those asked to stop. -/
theorem Wired.eq_of_key (h : Wired t rs) {m : CallId} {c c' : Flight} (hc : t.call? n = some c)
    (hr : c.isRunning = true) (hgo : c.cancelled = false) (hc' : t.call? m = some c')
    (hr' : c'.isRunning = true) (hgo' : c'.cancelled = false) (hk : c'.key = c.key) : m = n := by
  have hslot' := h.held m c' hc' hr' hgo'
  rw [hk, h.held n c hc hr hgo] at hslot'
  exact (Option.some.inj hslot').symm

/-- The requests that a flight waits for have been made. -/
theorem Wired.exists_child (h : Wired t rs) {c : Flight} {a : Prepared} {es : List Edge}
    {kept : Option Resolved} {children : List RequestId} (hc : t.call? n = some c)
    (hs : c.status = .running (.gathering a es kept children)) {i : Nat} (hi : i ∈ children) :
    ∃ r q, rs[i]? = some r ∧ r.target = .logical q ∧ q ∈ Edge.targets es := by
  have hmem : (rs[i]?).map (·.target) ∈ children.map fun i => (rs[i]?).map (·.target) :=
    List.mem_map.2 ⟨i, hi, rfl⟩
  rw [h.children n c a es kept children hc hs] at hmem
  obtain ⟨q, hq, he⟩ := List.mem_map.1 hmem
  obtain ⟨r, hr, ht⟩ := Option.map_eq_some_iff.1 he.symm
  exact ⟨r, q, hr, ht, mem_ascending.1 hq⟩

/-- There is a request for each target. -/
theorem Wired.exists_mem_children (h : Wired t rs) {c : Flight} {a : Prepared} {es : List Edge}
    {kept : Option Resolved} {children : List RequestId} (hc : t.call? n = some c)
    (hs : c.status = .running (.gathering a es kept children)) {q : String}
    (hq : q ∈ Edge.targets es) :
    ∃ i ∈ children, ∃ r, rs[i]? = some r ∧ r.target = .logical q := by
  have hmem : some (Target.logical q) ∈
      (ascending (Edge.targets es)).map fun q => some (Target.logical q) :=
    List.mem_map.2 ⟨q, mem_ascending.2 hq, rfl⟩
  rw [← h.children n c a es kept children hc hs] at hmem
  obtain ⟨i, hi, he⟩ := List.mem_map.1 hmem
  obtain ⟨r, hr, ht⟩ := Option.map_eq_some_iff.1 he
  exact ⟨i, hi, r, hr, ht⟩

theorem Wired.append (h : Wired t rs) {new : List Request} (hnew : ∀ r ∈ new, r.caller = .fresh) :
    Wired t (rs ++ new) where
  slot := h.slot
  held := h.held
  waiting i r n hr hw := by
    rcases request_of_append hr with hr | ⟨-, hmem⟩
    · exact h.waiting i r n hr hw
    · rw [hnew r hmem] at hw; cases hw
  children n c a es kept children hc hs := by
    rw [← h.children n c a es kept children hc hs]
    refine List.map_congr_left fun i hi => ?_
    obtain ⟨r, q, hr, -⟩ := h.exists_child hc hs hi
    rw [List.getElem?_append_left (List.getElem?_eq_some_iff.1 hr).1]

theorem Wired.recall (h : Wired t rs) {i : Nat} {x : Caller Answer}
    (hx : ∀ r n, rs[i]? = some r → x = .waiting n → ∃ c, t.call? n = some c ∧ r.target.Allows c.key) :
    Wired t (rs.modify i fun r => { r with caller := x }) where
  slot := h.slot
  held := h.held
  waiting j r n hr hw := by
    obtain ⟨r₀, hr₀, ⟨rfl, rfl⟩ | ⟨-, rfl⟩⟩ := request_of_modify hr
    · exact hx r₀ n hr₀ hw
    · exact h.waiting j r n hr₀ hw
  children n c a es kept children hc hs := by
    rw [← h.children n c a es kept children hc hs]
    refine List.map_congr_left fun j _ => ?_
    rw [List.getElem?_modify, Option.map_eq_map, Option.map_map]
    congr 1
    funext r
    dsimp only [Function.comp]
    split <;> rfl

theorem Wired.placed (h : Wired t rs) : t.Placed := ⟨h.slot _ _, h.held _ _⟩

theorem Wired.modify (h : Wired t rs) {f : Flight → Flight} (hkey : ∀ c, (f c).key = c.key)
    (hcancelled : ∀ c, (f c).cancelled = c.cancelled)
    (hrunning : ∀ c, t.call? n = some c → (f c).isRunning = true → c.isRunning = true)
    (hchildren : ∀ c a es kept children, t.call? n = some c →
      (f c).status = .running (.gathering a es kept children) →
      children.map (fun i => (rs[i]?).map (·.target)) =
        (ascending (Edge.targets es)).map fun q => some (.logical q)) :
    Wired (t.modify n f) rs where
  slot _ _ := (h.placed.modify hkey hcancelled hrunning).slot
  held _ _ := (h.placed.modify hkey hcancelled hrunning).held
  waiting i r m hr hw := by
    obtain ⟨c, hc, ht⟩ := h.waiting i r m hr hw
    rw [Table.call?_modify]
    split
    · exact ⟨f c, by rw [hc]; rfl, by rw [hkey]; exact ht⟩
    · exact ⟨c, hc, ht⟩
  children m c a es kept children hc hs := by
    rcases Table.call?_modify_cases hc with ⟨rfl, c₀, hc₀, rfl⟩ | ⟨-, hc⟩
    · exact hchildren c₀ a es kept children hc₀ hs
    · exact h.children m c a es kept children hc hs

theorem Wired.finish (h : Wired t rs) (o : Outcome Answer) : Wired (t.finish n o) rs :=
  h.modify (fun _ => rfl) (fun _ => rfl) (fun _ _ hr => by cases hr)
    (fun _ _ _ _ _ _ hs => by cases hs)

theorem Wired.launch (h : Wired t rs) {p : String} (hp : t.slots.get? p = none) :
    Wired ⟨t.slots.insert p t.calls.length, t.calls ++ [⟨p, .running .launched, 1, false⟩]⟩ rs where
  slot _ _ := (h.placed.launch hp _ _).slot
  held _ _ := (h.placed.launch hp _ _).held
  waiting i r m hr hw := by
    obtain ⟨c, hc, ht⟩ := h.waiting i r m hr hw
    refine ⟨c, ?_, ht⟩
    rw [Table.call?_append, if_neg (Nat.ne_of_lt (Table.lt_of_call?_eq_some hc))]
    exact hc
  children m c a es kept children hc hs := by
    rcases Table.call?_append_cases hc with ⟨-, rfl⟩ | hc
    · cases hs
    · exact h.children m c a es kept children hc hs

theorem Wired.forget (h : Wired t rs) {c : Flight} (hc : t.call? n = some c)
    (hdone : c.isRunning = true → c.cancelled = true) : Wired (t.forget n) rs where
  slot _ _ := (h.placed.forget hc hdone).slot
  held _ _ := (h.placed.forget hc hdone).held
  waiting := by simpa using h.waiting
  children := by simpa using h.children

/-- A flight that is asked to stop loses its slot. -/
theorem Wired.silence (h : Wired t rs) {c : Flight} (hc : t.call? n = some c) :
    Wired ((t.forget n).modify n fun c => { c with cancelled := true }) rs where
  slot _ _ := (h.placed.silence hc).slot
  held _ _ := (h.placed.silence hc).held
  waiting i r m hr hw := by
    obtain ⟨c', hc', ht⟩ := h.waiting i r m hr hw
    rw [Table.call?_modify, Table.call?_forget]
    split
    · exact ⟨{ c' with cancelled := true }, by rw [hc']; rfl, ht⟩
    · exact ⟨c', hc', ht⟩
  children m c' a es kept children hc' hs := by
    rw [Table.call?_modify, Table.call?_forget] at hc'
    split at hc'
    · obtain ⟨c₀, hc₀, rfl⟩ := Option.map_eq_some_iff.1 hc'
      exact h.children m c₀ a es kept children hc₀ hs
    · exact h.children m c' a es kept children hc' hs

theorem Wired.waiters (h : Wired t rs) (f : Nat → Nat) :
    Wired (t.modify n fun c => { c with waiters := f c.waiters }) rs :=
  h.modify (fun _ => rfl) (fun _ => rfl) (fun _ _ hr => hr)
    (fun _ _ _ _ _ hc hs => h.children n _ _ _ _ _ hc hs)

theorem Wired.detach (h : Wired t rs) (n : CallId) : Wired (t.detach n) rs := by
  rcases t.detach_cases n with he | ⟨c, hc, -, he⟩
  · rw [he]; exact h.waiters (· - 1)
  · rw [he]
    refine (h.waiters (· - 1)).silence (c := { c with waiters := c.waiters - 1 }) ?_
    rw [Table.call?_modify, if_pos rfl, hc]
    rfl

/-! ### Flights and what is kept -/

/-- What a flight finds kept for its path: nothing if it has begun with nothing, what it checks, marked,
if it checks a kept result, and nothing that could be used if it has not begun. The edges of a flight
that has read its source are in order. -/
def Fits (m : PathMap Entry) (c : Flight) : Prop :=
  match c.status with
  | .running .launched => c.cancelled = false → ∀ e, m.get? c.key = some e → e.needsCheck = true
  | .running (.loading _) => c.cancelled = false → m.get? c.key = none
  | .running (.gathering _ es none _) =>
      Edge.Sorted c.key es ∧ (c.cancelled = false → m.get? c.key = none)
  | .running (.gathering a es (some k) _) => Edge.Sorted c.key es ∧ (c.cancelled = false →
      ∃ e, m.get? c.key = some e ∧ e.needsCheck = true ∧ e.resolved = k ∧ e.asset = a ∧ k.edges = es)
  | .finished _ => True

variable {m m' : PathMap Entry} {c : Flight}

theorem Fits.of_eq (h : Fits m c)
    (hm : c.isRunning = true → c.cancelled = false → m'.get? c.key = m.get? c.key) : Fits m' c := by
  unfold Fits at *
  unfold Call.isRunning at hm
  split
  · next hs =>
      rw [hs] at h hm
      intro hgo e he
      rw [hm rfl hgo] at he
      exact h hgo e he
  · next hs =>
      rw [hs] at h hm
      intro hgo
      rw [hm rfl hgo]
      exact h hgo
  · next hs =>
      rw [hs] at h hm
      refine ⟨h.1, fun hgo => ?_⟩
      rw [hm rfl hgo]
      exact h.2 hgo
  · next hs =>
      rw [hs] at h hm
      refine ⟨h.1, fun hgo => ?_⟩
      rw [hm rfl hgo]
      exact h.2 hgo
  · trivial

theorem Fits.mark (h : Fits m c) (p : String) :
    Fits (m.modify p fun e => { e with needsCheck := true }) c := by
  have hget : ∀ q, (m.modify p fun e => { e with needsCheck := true }).get? q =
      if q = p then (m.get? p).map fun e => { e with needsCheck := true } else m.get? q :=
    fun q => m.get?_modify p q _
  by_cases hp : c.key = p
  · unfold Fits at *
    simp only [hget, if_pos hp]
    rw [hp] at h ⊢
    split
    · next hs =>
        rw [hs] at h
        intro _ e he
        obtain ⟨e₀, -, rfl⟩ := Option.map_eq_some_iff.1 he
        rfl
    · next hs =>
        rw [hs] at h
        intro hgo
        rw [h hgo]
        rfl
    · next hs =>
        rw [hs] at h
        exact ⟨h.1, fun hgo => by rw [h.2 hgo]; rfl⟩
    · next hs =>
        rw [hs] at h
        refine ⟨h.1, fun hgo => ?_⟩
        obtain ⟨e, he, -, hr, ha, hk⟩ := h.2 hgo
        exact ⟨{ e with needsCheck := true }, by rw [he]; rfl, rfl, hr, ha, hk⟩
    · trivial
  · exact h.of_eq fun _ _ => by rw [hget, if_neg hp]

theorem Fits.silence (h : Fits m c) : Fits m { c with cancelled := true } := by
  unfold Fits at *
  dsimp only
  split
  · exact fun hgo => by cases hgo
  · exact fun hgo => by cases hgo
  · next hs => rw [hs] at h; exact ⟨h.1, fun hgo => by cases hgo⟩
  · next hs => rw [hs] at h; exact ⟨h.1, fun hgo => by cases hgo⟩
  · trivial

/-- Every flight fits what is kept, and the edges of what is kept are in order. -/
structure Tended (t : Table Phase Answer) (m : PathMap Entry) : Prop where
  fits : ∀ n c, t.call? n = some c → Fits m c
  sorted : ∀ p e, m.get? p = some e → Edge.Sorted p e.resolved.edges

theorem Tended.empty : Tended ∅ ∅ where
  fits n c h := by cases h
  sorted p e h := by cases h

/-- A flight that checks a kept result holds what is kept. -/
theorem Tended.exists_entry (h : Tended t m) (hc : t.call? n = some c) (hgo : c.cancelled = false)
    {a : Prepared} {es : List Edge} {k : Resolved} {children : List RequestId}
    (hst : c.status = .running (.gathering a es (some k) children)) :
    ∃ e, m.get? c.key = some e ∧ e.needsCheck = true ∧ e.resolved = k ∧ e.asset = a ∧ k.edges = es := by
  have hfits := h.fits n c hc
  unfold Fits at hfits
  rw [hst] at hfits
  exact hfits.2 hgo

/-- Nothing is kept where a flight has asked its source. -/
theorem Tended.absent (h : Tended t m) (hc : t.call? n = some c) (hgo : c.cancelled = false)
    (hst : (∃ fetched, c.status = .running (.loading fetched)) ∨
      ∃ a es children, c.status = .running (.gathering a es none children)) :
    m.get? c.key = none := by
  have hfits := h.fits n c hc
  unfold Fits at hfits
  rcases hst with ⟨fetched, hst⟩ | ⟨a, es, children, hst⟩
  · rw [hst] at hfits
    exact hfits hgo
  · rw [hst] at hfits
    exact hfits.2 hgo

/-- Nothing is kept where a flight is about to ask its source: a kept result would be checked. -/
theorem Tended.absent_of_launched (h : Tended t m) (hc : t.call? n = some c)
    (hgo : c.cancelled = false) (hst : c.status = .running .launched)
    (hunmarked : ∀ e, m.get? c.key = some e → e.needsCheck = false) : m.get? c.key = none := by
  have hfits := h.fits n c hc
  unfold Fits at hfits
  rw [hst] at hfits
  cases he : m.get? c.key with
  | none => rfl
  | some e =>
      have hmarked := hfits hgo e he
      rw [hunmarked e he] at hmarked
      cases hmarked

theorem Tended.congr (h : Tended t m) {t' : Table Phase Answer}
    (ht : ∀ n, t'.call? n = t.call? n) : Tended t' m :=
  ⟨fun n c hc => h.fits n c (ht n ▸ hc), h.sorted⟩

theorem Tended.modify (h : Tended t m) {f : Flight → Flight}
    (hf : ∀ c, t.call? n = some c → Fits m (f c)) : Tended (t.modify n f) m := by
  refine ⟨fun k c hc => ?_, h.sorted⟩
  rcases Table.call?_modify_cases hc with ⟨rfl, c₀, hc₀, rfl⟩ | ⟨-, hc⟩
  · exact hf c₀ hc₀
  · exact h.fits k c hc

theorem Tended.finish (h : Tended t m) (o : Outcome Answer) : Tended (t.finish n o) m :=
  h.modify fun _ _ => trivial

theorem Tended.entries (h : Tended t m)
    (hm : ∀ n c, t.call? n = some c → c.isRunning = true → c.cancelled = false →
      m'.get? c.key = m.get? c.key)
    (hs : ∀ p e, m'.get? p = some e → Edge.Sorted p e.resolved.edges) : Tended t m' :=
  ⟨fun n c hc => (h.fits n c hc).of_eq (hm n c hc), hs⟩

/-- What is kept of a path without a flight may go. -/
theorem Tended.erase (h : Tended t m) (hw : Wired t rs) {p : String}
    (hp : t.slots.get? p = none) : Tended t (m.erase p) := by
  refine h.entries (fun n c hc hr hgo => ?_) fun q e he => ?_
  · rw [PathMap.get?_erase]
    split
    · next hq =>
        have := hw.held n c hc hr hgo
        rw [hq, hp] at this
        cases this
    · rfl
  · exact h.sorted q e (get?_of_get?_erase he).2

theorem Tended.mark (h : Tended t m) (p : String) :
    Tended t (m.modify p fun e => { e with needsCheck := true }) := by
  refine ⟨fun n c hc => (h.fits n c hc).mark p, fun q e he => ?_⟩
  obtain ⟨e₀, he₀, ⟨-, rfl⟩ | ⟨-, rfl⟩⟩ := of_get?_modify he
  · exact h.sorted q e₀ he₀
  · exact h.sorted q e he₀

theorem Tended.waiters (h : Tended t m) (f : Nat → Nat) :
    Tended (t.modify n fun c => { c with waiters := f c.waiters }) m :=
  h.modify fun c hc => h.fits n c hc

theorem Tended.detach (h : Tended t m) (n : CallId) : Tended (t.detach n) m := by
  rcases t.detach_cases n with he | ⟨c, hc, -, he⟩
  · rw [he]; exact h.waiters (· - 1)
  · rw [he]
    have h' : Tended ((t.modify n fun c => { c with waiters := c.waiters - 1 }).forget n) m :=
      (h.waiters (· - 1)).congr fun _ => Table.call?_forget _ _ _
    exact h'.modify fun c hc => (h'.fits n c hc).silence

theorem Tended.launch (h : Tended t m) {p : String}
    (hp : ∀ e, m.get? p = some e → e.needsCheck = true) :
    Tended ⟨t.slots.insert p t.calls.length, t.calls ++ [⟨p, .running .launched, 1, false⟩]⟩ m := by
  refine ⟨fun n c hc => ?_, h.sorted⟩
  rcases Table.call?_append_cases hc with ⟨-, rfl⟩ | hc
  · exact fun _ => hp
  · exact h.fits n c hc

/-- A flight that is not asked to stop may change what is kept of its path when it ends. -/
theorem Tended.land (h : Tended t m) (hw : Wired t rs) (hc : t.call? n = some c)
    (hr : c.isRunning = true) (hgo : c.cancelled = false)
    (hm : ∀ q, q ≠ c.key → m'.get? q = m.get? q)
    (hs : ∀ e, m'.get? c.key = some e → Edge.Sorted c.key e.resolved.edges) (o : Outcome Answer) :
    Tended (t.finish n o) m' := by
  refine (h.finish o).entries (fun k c' hc' hr' hgo' => hm _ fun hkey => ?_) fun q e he => ?_
  · obtain ⟨hkn, hc'⟩ := Table.call?_of_finish hc' hr'
    exact hkn (hw.eq_of_key hc hr hgo hc' hr' hgo' hkey)
  · by_cases hq : q = c.key
    · subst hq; exact hs e he
    · rw [hm q hq] at he; exact h.sorted q e he

/-! ### States -/

/-- What holds of a resolver whenever nobody is at work on it. -/
structure Coherent (s : Resolver) : Prop where
  keyed : s.catalog.Keyed
  graph : s.graph.WellFormed
  wired : Wired s.flights s.requests
  tended : Tended s.flights s.entries

variable {s u : Resolver}

theorem Coherent.make {x : Context} {c : Catalog} (hc : c.Keyed) (watch : Option Watch) :
    Coherent (make x c watch) := ⟨hc, .empty, .empty, .empty⟩

theorem Coherent.lapse (h : Coherent s) (hm : Lapse s u) : Coherent u := by
  cases hm with
  | quiet hq => cases hq; exact ⟨h.keyed, h.graph, h.wired, h.tended⟩
  | drop hidle =>
      exact ⟨h.keyed, h.graph.setEdges (.nil _), h.wired, h.tended.erase h.wired hidle⟩
  | defer _ => exact ⟨h.keyed, h.graph, h.wired, h.tended⟩
  | mark p => exact ⟨h.keyed, h.graph, h.wired, h.tended.mark p⟩

theorem Coherent.hush (h : Coherent s) (hh : Hushed s.requests rs) :
    Coherent { s with requests := rs } := ⟨h.keyed, h.graph, h.wired.hush hh, h.tended⟩

theorem Coherent.request (h : Coherent s) {i : RequestId} {r : Request}
    (hr : s.requests[i]? = some r) (hm : RequestMove s i r u) : Coherent u := by
  have hdone : ∀ o : Outcome Answer, Wired s.flights (s.setCaller i (.done o)).requests :=
    fun o => h.wired.recall fun _ _ _ hw => by cases hw
  cases hm with
  | quit _ _ => exact ⟨h.keyed, h.graph, hdone _, h.tended⟩
  | refuse _ _ _ => exact ⟨h.keyed, h.graph, hdone _, h.tended⟩
  | hit _ _ _ _ _ _ _ => exact ⟨h.keyed, h.graph, hdone _, h.tended⟩
  | join _ _ htarget hslot =>
      refine ⟨h.keyed, h.graph, (h.wired.waiters (· + 1)).recall fun r' n' hr' hw => ?_,
        h.tended.waiters (· + 1)⟩
      cases hw
      rw [hr] at hr'; cases hr'
      obtain ⟨c, hc, rfl, -⟩ := h.wired.slot _ _ hslot
      exact ⟨{ c with waiters := c.waiters + 1 }, by rw [Table.call?_modify, if_pos rfl, hc]; rfl,
        htarget⟩
  | launch _ _ htarget _ hidle hmarked =>
      refine ⟨h.keyed, h.graph, (h.wired.launch hidle).recall fun r' n' hr' hw => ?_,
        h.tended.launch hmarked⟩
      cases hw
      rw [hr] at hr'; cases hr'
      exact ⟨_, by rw [Table.call?_append, if_pos rfl], htarget⟩
  | @take n _ _ _ _ hrs _ =>
      exact ⟨h.keyed, h.graph, ((h.wired.detach n).hush hrs).recall fun _ _ _ hw => (by cases hw),
        h.tended.detach n⟩

theorem Coherent.shift (h : Coherent s) (hm : Shift s u) : Coherent u := by
  cases hm with
  | lapse hl => exact h.lapse hl
  | ask t =>
      exact ⟨h.keyed, h.graph, h.wired.append fun r hr => by rw [List.mem_singleton.1 hr], h.tended⟩
  | forget hc hdone =>
      exact ⟨h.keyed, h.graph, h.wired.forget hc (fun hr => by rw [hdone] at hr; cases hr),
        h.tended.congr fun _ => Table.call?_forget _ _ _⟩
  | request hr hreq => exact h.request hr hreq

/-- A flight comes to wait for requests for its targets. -/
theorem Coherent.await (h : Coherent s) {a : Prepared} {es : List Edge} {kept : Option Resolved}
    (hc : s.flights.call? n = some c) (hrun : c.isRunning = true)
    (hfits : Fits s.entries { c with status := .running (.gathering a es kept []) }) :
    Coherent (s.await n a es kept) := by
  set targets := ascending (Edge.targets es) with htargets
  have hfresh : ∀ r ∈ targets.map fun q => (⟨.logical q, .fresh, false⟩ : Request),
      r.caller = .fresh := fun r hr => by
    obtain ⟨q, -, rfl⟩ := List.mem_map.1 hr
    rfl
  have hchildren : ((List.range targets.length).map (· + s.requests.length)).map
      (fun i => ((s.requests ++ targets.map fun q => (⟨.logical q, .fresh, false⟩ : Request))[i]?).map
        (·.target)) = targets.map fun q => some (.logical q) := by
    refine List.ext_getElem (by simp) fun i hi hi' => ?_
    have hlt : i < targets.length := by simpa using hi'
    simp [List.getElem?_append_right, hlt]
  refine ⟨h.keyed, h.graph, (h.wired.append hfresh).modify (fun _ => rfl) (fun _ => rfl)
    (fun c' hc' _ => ?_) (fun c' a' es' kept' children' _ hs => ?_), h.tended.modify fun c' hc' => ?_⟩
  · rw [hc] at hc'; cases hc'; exact hrun
  · cases hs; exact hchildren
  · rw [hc] at hc'; cases hc'
    cases kept <;> exact hfits

theorem Landing.collect {m : PathMap Entry} {r : Resolved} (hl : Landing s c m r) :
    ∃ a es kept children m', c.status = .running (.gathering a es kept children) ∧
      s.collect children = .result (.ok m') := by
  cases hl with
  | reuse hst hans _ => exact ⟨_, _, _, _, _, hst, hans⟩
  | renew hst hans _ _ => exact ⟨_, _, _, _, _, hst, hans⟩

theorem Landing.exists_gathering {m : PathMap Entry} {r : Resolved} (h : Landing s c m r) :
    ∃ a es kept children, c.status = .running (.gathering a es kept children) := by
  obtain ⟨a, es, kept, children, -, hs, -⟩ := h.collect
  exact ⟨a, es, kept, children, hs⟩

theorem Landing.isRunning {m : PathMap Entry} {r : Resolved} (h : Landing s c m r) :
    c.isRunning = true := by
  obtain ⟨a, es, kept, children, hs⟩ := h.exists_gathering
  exact isRunning_of_status hs

/-- What a flight that gets its result keeps is for its own path, and made of its edges. -/
theorem Landing.get? (h : Coherent s) (hc : s.flights.call? n = some c) (hgo : c.cancelled = false)
    {m : PathMap Entry} {r : Resolved} (hl : Landing s c m r) :
    (∀ q, q ≠ c.key → m.get? q = s.entries.get? q) ∧
    ∃ e, m.get? c.key = some e ∧ e.needsCheck = false ∧ e.resolved = r ∧
      ∃ kept children, c.status = .running (.gathering e.asset r.edges kept children) := by
  cases hl with
  | @reuse a es k children _ hs _ _ =>
      obtain ⟨e, he, -, hr, ha, hk⟩ := h.tended.exists_entry hc hgo hs
      refine ⟨fun q hq => ?_, { e with needsCheck := false }, ?_, rfl, hr, some r, children, ?_⟩
      · rw [PathMap.get?_modify, if_neg hq]
      · rw [PathMap.get?_modify, if_pos rfl, he]; rfl
      · rw [hs, ha, hk]
  | @renew a es kept children m r hs _ _ hr =>
      refine ⟨fun q hq => ?_, ⟨a, r, false⟩, ?_, rfl, rfl, kept, children, ?_⟩
      · rw [PathMap.get?_insert, if_neg hq]
      · rw [PathMap.get?_insert, if_pos rfl]
      · rw [hs, (Context.resolve_eq_ok_iff.1 hr).2.2.2.2.2.2.1]

theorem Fits.sorted {m : PathMap Entry} (h : Fits m c) {a : Prepared} {es : List Edge}
    {kept : Option Resolved} {children : List RequestId}
    (hs : c.status = .running (.gathering a es kept children)) : Edge.Sorted c.key es := by
  unfold Fits at h
  rw [hs] at h
  cases kept <;> exact h.1

/-- The edges of a loaded asset are in order, as those of its path. -/
theorem Coherent.sorted_of_prepare (h : Coherent s) {d : Definition} {raw : Bytes} {a : Prepared}
    {es : List Edge} {p : String} (hd : s.catalog.get p = .ok d)
    (hp : s.context.prepare s.catalog d raw = .ok (a, es)) : Edge.Sorted p es := by
  obtain ⟨ds, -, -, -, rfl⟩ := Context.prepare_eq_ok_iff.1 hp
  rw [h.keyed p d (Catalog.get_eq_ok_iff.1 hd)]
  exact sorted_edgesFor _ _ _

theorem Coherent.flight (h : Coherent s) (hc : s.flights.call? n = some c)
    (hm : FlightMove s n c u) : Coherent u := by
  have hfits := h.tended.fits n c hc
  have hended : ∀ o, Coherent (s.ended n o) := fun o =>
    ⟨h.keyed, h.graph, h.wired.finish o, h.tended.finish o⟩
  -- edges are taken back or drawn in order, and a flight that ends fits whatever is kept
  have hback : ∀ o, Coherent ((s.takeBack c.key).ended n o) := fun o =>
    ⟨h.keyed, h.graph.setEdges (.nil _), h.wired.finish o, h.tended.finish o⟩
  cases hm with
  | stop _ _ => exact hended _
  | abandon _ _ _ => exact hback _
  | hold hs hgo hunmarked hd =>
      have habsent := h.tended.absent_of_launched hc hgo hs hunmarked
      refine ⟨fun p d hp => h.keyed p d (by rwa [Catalog.entries_fetch] at hp), h.graph,
        h.wired.modify (fun _ => rfl) (fun _ => rfl) (fun c' hc' _ => ?_)
          (fun _ _ _ _ _ _ hs' => by cases hs'), h.tended.modify fun c' hc' hgo' => ?_⟩
      · rw [hc] at hc'; cases hc'; exact isRunning_of_status hs
      · rw [hc] at hc'; cases hc'
        exact habsent
  | recheck hs hgo he hmarked =>
      exact h.await hc (isRunning_of_status hs)
        ⟨h.tended.sorted _ _ he, fun _ => ⟨_, he, hmarked, rfl, rfl, rfl⟩⟩
  | @gather fetched raw d a es hs hgo _ hd hp _ =>
      have hsorted := h.sorted_of_prepare hd hp
      have hset : Coherent { s with graph := s.graph.setEdges c.key es } :=
        ⟨h.keyed, h.graph.setEdges hsorted, h.wired, h.tended⟩
      have habsent := h.tended.absent hc hgo (.inl ⟨fetched, hs⟩)
      exact hset.await hc (isRunning_of_status hs) ⟨hsorted, fun _ => habsent⟩
  | cycle _ _ _ hd hp _ =>
      exact ⟨h.keyed, (h.graph.setEdges (h.sorted_of_prepare hd hp)).setEdges (.nil _),
        h.wired.finish _, h.tended.finish _⟩
  | fail _ _ _ => exact hback _
  | crash _ _ _ => exact hended _
  | land hgo hl _ =>
      obtain ⟨hm, e, he, -, hr, kept, children, hs⟩ := hl.get? h hc hgo
      refine ⟨h.keyed, h.graph, h.wired.finish _,
        h.tended.land h.wired hc (isRunning_of_status hs) hgo hm (fun e' he' => ?_) _⟩
      rw [he] at he'; cases he'
      rw [hr]
      exact hfits.sorted hs
  | @discard m r hgo hl _ =>
      obtain ⟨hm, e, he, -, hr, kept, children, hs⟩ := hl.get? h hc hgo
      refine ⟨h.keyed, h.graph.setEdges (.nil _), h.wired.finish _,
        h.tended.land h.wired hc (isRunning_of_status hs) hgo (fun q hq => ?_) (fun e' he' => ?_) _⟩
      · show (m.erase c.key).get? q = _
        rw [PathMap.get?_erase, if_neg hq]
        exact hm q hq
      · have herased : (m.erase c.key).get? c.key = some e' := he'
        rw [PathMap.get?_erase, if_pos rfl] at herased
        cases herased

theorem Coherent.flightStep (h : Coherent s) (hm : FlightStep n s u) : Coherent u := by
  rcases hm with hq | ⟨c, hc, hm⟩
  · exact h.lapse (.quiet hq)
  · exact h.flight hc hm

/-- Every move keeps a resolver coherent. -/
theorem Coherent.move (h : Coherent s) (hm : Move s u) : Coherent u := by
  rcases hm with hm | ⟨n, hm⟩
  · exact h.shift hm
  · exact h.flightStep hm

theorem Coherent.moves (h : Coherent s) (hm : ReflTransGen Move s u) : Coherent u := by
  induction hm with
  | refl => exact h
  | tail _ hm ih => exact ih.move hm

/-- So does everything that can happen. -/
theorem Coherent.act (h : Coherent s) {a : Action} (ha : s.Admits a) : Coherent (s.act a) := by
  by_cases hp : a.Patient
  · exact h.moves (moves_act ha hp)
  · cases a with
    | cancel i =>
        obtain ⟨rs, hrs, hh⟩ := cancel_eq s i
        have : s.act (.cancel i) = { s with requests := rs } := hrs
        rw [this]
        exact h.hush hh
    | _ => exact absurd trivial hp

theorem Run.coherent {ok : Action → Prop} (h : Run ok s u) (hs : Coherent s) : Coherent u := by
  induction h with
  | refl => exact hs
  | next _ _ hadm ih => exact ih.act hadm

end HashedAssets.Resolver
