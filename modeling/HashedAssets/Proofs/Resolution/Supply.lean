import HashedAssets.Proofs.Resolution.Solutions

/-!
# Sources that change

A dynamic source may give something else from some time on.

* `Catalog.supply`: the catalog in which the source of a path gives something else;
* `Catalog.Alike`: catalogs that differ in what sources give only;
* `Context.prepare_alike`, `Context.resolve_alike`: this matters to no equation.
-/

namespace HashedAssets

open Relation

/-- The loader that gives the same at every call, behind the gate of another one. -/
def Loader.giving (result : Except LoadFault Bytes) : Loader → Loader
  | .constant _ => .constant result
  | .varying _ gate => .varying (fun _ => result) gate

/-- The definition whose loader, if it has one, gives the same at every call. -/
def Definition.supply (d : Definition) (result : Except LoadFault Bytes) : Definition :=
  { d with
    source := match d.source with
      | .dynamic l held => .dynamic (l.giving result) held
      | source => source }

/-- The catalog in which the source of a path gives something else, if it is a dynamic one. -/
def Catalog.supply (c : Catalog) (path : String) (result : Except LoadFault Bytes) : Catalog :=
  { c with entries := c.entries.modify path fun d => d.supply result }

variable {x : Context} {c c' : Catalog} {p q : String} {result : Except LoadFault Bytes}

theorem Loader.deliver_giving (l : Loader) (k : Nat) : (l.giving result).deliver k = result := by
  cases l <;> rfl

theorem Definition.give_supply (d : Definition) (h : ∀ k, d.give k = d.give 0) (k : Nat) :
    (d.supply result).give k = (d.supply result).give 0 := by
  obtain ⟨path, source, options, named⟩ := d
  cases source with
  | static b => rfl
  | directory b => rfl
  | dynamic l held => simp only [give, supply, Loader.deliver_giving]

namespace Catalog

theorem get?_supply (c : Catalog) (p q : String) (result : Except LoadFault Bytes) :
    (c.supply p result).entries.get? q =
      if q = p then (c.entries.get? p).map (·.supply result) else c.entries.get? q :=
  PathMap.get?_modify _ _ _ _

theorem get?_supply_of_ne (c : Catalog) (hq : q ≠ p) (result : Except LoadFault Bytes) :
    (c.supply p result).entries.get? q = c.entries.get? q := by
  rw [get?_supply, if_neg hq]

/-- Catalogs with the same assets, treated in the same way: only what sources give may differ. -/
def Alike (c c' : Catalog) : Prop :=
  ∀ p, (c'.entries.get? p).map (fun d => (d.path, d.options)) =
    (c.entries.get? p).map fun d => (d.path, d.options)

theorem alike_supply (c : Catalog) (p : String) (result : Except LoadFault Bytes) :
    Alike c (c.supply p result) := by
  intro q
  rw [get?_supply]
  split
  · next hq =>
      subst hq
      cases c.entries.get? q <;> rfl
  · rfl

theorem Keyed.supply (h : c.Keyed) : (c.supply p result).Keyed := by
  intro q d hd
  rw [get?_supply] at hd
  split at hd
  · next hq =>
      obtain ⟨d₀, hd₀, rfl⟩ := Option.map_eq_some_iff.1 hd
      exact hq ▸ h p d₀ hd₀
  · exact h q d hd

theorem Steady.supply (h : c.Steady) : (c.supply p result).Steady := by
  intro q d hd
  rw [get?_supply] at hd
  split at hd
  · next hq =>
      obtain ⟨d₀, hd₀, rfl⟩ := Option.map_eq_some_iff.1 hd
      exact d₀.give_supply (h p d₀ hd₀)
  · exact h q d hd

theorem Alike.contains (h : Alike c c') (p : String) : c'.contains p = c.contains p := by
  have hp := congrArg Option.isSome (h p)
  simpa [Catalog.contains, PathMap.contains] using hp

end Catalog

namespace Context

theorem isHashed_alike (h : c.Alike c') (p : String) : x.isHashed c' p = x.isHashed c p := by
  have hp := h p
  unfold isHashed Catalog.isHashed Catalog.get
  split
  · rfl
  · cases hd : c.entries.get? p with
    | none =>
        rw [hd] at hp
        rw [Option.map_eq_none_iff.1 hp]
    | some d =>
        rw [hd] at hp
        obtain ⟨d', hd', he⟩ := Option.map_eq_some_iff.1 hp
        rw [hd']
        exact congrArg (fun o : String × Options => Except.ok o.2.hashable) he

theorem registered_alike (h : c.Alike c') : x.registered c' = x.registered c := by
  have hcontains : c'.contains = c.contains := funext h.contains
  have hhashed : x.isHashed c' = x.isHashed c := funext (isHashed_alike h)
  rw [registered, registered, hcontains, hhashed]

theorem prepare_alike (h : c.Alike c') (d : Definition) (raw : Bytes) :
    x.prepare c' d raw = x.prepare c d raw := by
  rw [prepare, prepare, registered_alike h]

theorem resolve_alike (h : c.Alike c') (a : Prepared) (es : List Edge) (m : PathMap Resolved) :
    x.resolve c' a es m = x.resolve c a es m := by
  have hhashed : x.isHashed c' = x.isHashed c := funext (isHashed_alike h)
  have hvalue : x.valueOf c' m a.definition.path = x.valueOf c m a.definition.path := by
    funext dir
    rw [valueOf, valueOf, hhashed]
  rw [resolve_eq, resolve_eq, hvalue, hhashed]

end Context

end HashedAssets
