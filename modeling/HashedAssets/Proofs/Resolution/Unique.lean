import HashedAssets.Proofs.Fingerprint
import HashedAssets.Proofs.Resolution.Specification

/-!
# Unique public paths

* `Snapshot.Solved.publicPath`: the public path of a hashed asset;
* `Snapshot.byPublic_of_build`: what a snapshot knows of public paths;
* `Snapshot.unique_of_build`: hashed assets are told apart by their public paths, and found by them.
-/

namespace HashedAssets.Snapshot

variable {x : Context} {c : Catalog} {s : Snapshot} {p : String} {d : Definition}

theorem resolve_eq_ok_iff {r : Resolved} : s.resolve p = .ok r ↔ s.assets.get? p = some r := by
  unfold resolve
  cases s.assets.get? p <;> simp

/-- The public path of a hashed asset is that of its path and its digest, if nothing else was said. -/
theorem Solved.publicPath (h : s.Solved x c) (hc : c.Keyed) (hd : c.entries.get? p = some d)
    (hhashed : x.isHashed c p = .ok true) (hplain : d.options.hashBetween = none) :
    ∃ r, s.assets.get? p = some r ∧ r.path = p ∧
      HashedAssets.publicPath p r.digest x.settings.hashLength none = .ok r.publicPath := by
  obtain ⟨a, r, ha, hres, hget⟩ := h.solved p (Catalog.mem_paths.2 ⟨d, hd⟩)
  obtain ⟨hd', hpath, -⟩ := ha.spec hc
  obtain rfl : d = a.definition := Option.some.inj (hd.symm.trans hd')
  obtain ⟨-, -, -, hr, hpublic, hrpath, -⟩ := Context.resolve_eq_ok_iff.1 hres
  rw [hpath, hhashed, Except.ok.injEq] at hr
  have hplace := Context.publicPath_of_publicFor hpublic
  rw [← hr, if_pos rfl, hpath, hplain] at hplace
  obtain ⟨z, hz⟩ := exists_finish x c r
  exact ⟨_, hget, by rw [hz, hrpath, hpath], by rw [hz]; exact hplace⟩

/-- Of each public path a snapshot knows the last asset in order that has it. -/
theorem byPublic_of_build (h : (build x c).1 = .ok s) : s.byPublic =
    PathMap.ofList (s.order.filterMap fun q => (s.assets.get? q).map fun r => (r.publicPath, q)) := by
  obtain ⟨-, h⟩ := build_eq_ok h
  unfold ofLoaded at h
  dsimp only at h
  split at h
  · cases h
  · split at h
    · cases h
    · split at h
      · cases h
      · split at h
        · cases h
          rfl
        · cases h

/-- If no two assets have one public path, each is found by its own. -/
theorem resolvePublic_eq_ok (h : (build x c).1 = .ok s) (hs : s.Solved x c)
    (hinj : ∀ q q' r r', s.assets.get? q = some r → s.assets.get? q' = some r' → r.publicPath = r'.publicPath → q = q')
    {r : Resolved} (hr : s.assets.get? p = some r) : s.resolvePublic r.publicPath = .ok r := by
  have hp : p ∈ s.order := hs.order.mem_iff.2 (hs.mem_paths hr)
  have hnodup : s.order.Nodup := hs.order.nodup_iff.2 (c.entries.pairwise_keys.imp String.ne_of_lt)
  have hkeys : ((s.order.filterMap fun q => (s.assets.get? q).map fun r => (r.publicPath, q)).map (·.1)).Nodup := by
    rw [List.map_filterMap]
    refine hnodup.filterMap fun q q' _ hq hq' => ?_
    simp only [Option.map_map, Option.mem_def, Option.map_eq_some_iff, Function.comp_apply] at hq hq'
    obtain ⟨v, hv, rfl⟩ := hq
    obtain ⟨v', hv', heq⟩ := hq'
    exact hinj q q' v v' hv hv' heq.symm
  have hmem : (r.publicPath, p) ∈ s.order.filterMap fun q => (s.assets.get? q).map fun r => (r.publicPath, q) :=
    List.mem_filterMap.2 ⟨p, hp, by rw [hr]; rfl⟩
  unfold resolvePublic
  rw [byPublic_of_build h, PathMap.get?_ofList hkeys, PathMap.lookup_of_mem hkeys hmem]
  exact resolve_eq_ok_iff.2 hr

namespace Twins

/-- Two assets of one content. -/
def catalog : Catalog :=
  ((∅ : Catalog).add (Sample.asset "a.css" "same" {} (by decide))).add (Sample.asset "b.css" "same" {} (by decide))

theorem keyed_catalog : catalog.Keyed := (Catalog.keyed_empty.add _).add _

end Twins

/-- Two paths with digests make one public path just if the paths are one and as much of the digests as is written is
one; what is written of a digest is as long as its bytes need, without padding, and has neither a dot nor a slash in it.
So if all assets are hashed and their public paths are not said otherwise, each asset of a snapshot is told apart from
all others by its public path, whatever its content is, and is found by it. -/
theorem unique_of_build :
    (∀ (p p' : String) (d d' : Bytes) (n : Int), 1 ≤ n → n ≤ d.length → n ≤ d'.length →
      ∃ q q', HashedAssets.publicPath p d n none = .ok q ∧ HashedAssets.publicPath p' d' n none = .ok q' ∧
        (q = q' ↔ p = p' ∧ d.take n.toNat = d'.take n.toNat)) ∧
    (∀ d n text, hashText d n = .ok text →
      text.length = (4 * n.toNat + 2) / 3 ∧ '.' ∉ text.toList ∧ '/' ∉ text.toList ∧ '=' ∉ text.toList) ∧
    ∀ x c s, c.Keyed → (build x c).1 = .ok s → (∀ p ∈ c.paths, x.isHashed c p = .ok true) →
      (∀ p d, c.entries.get? p = some d → d.options.hashBetween = none) → ∀ p ∈ c.paths, ∃ r, s.resolve p = .ok r ∧
        r.path = p ∧ s.resolvePublic r.publicPath = .ok r ∧
        ∀ q r', s.resolve q = .ok r' → r'.publicPath = r.publicPath → q = p := by
  refine ⟨fun p p' d d' n hn hd hd' => ?_, fun d n text h => ?_, fun x c s hc h hhashed hplain => ?_⟩
  · obtain ⟨q, hq⟩ : ∃ q, HashedAssets.publicPath p d n none = .ok q :=
      ⟨_, publicPath_eq_ok_iff.2 ⟨⟨hn, hd⟩, rfl⟩⟩
    obtain ⟨q', hq'⟩ : ∃ q', HashedAssets.publicPath p' d' n none = .ok q' :=
      ⟨_, publicPath_eq_ok_iff.2 ⟨⟨hn, hd'⟩, rfl⟩⟩
    exact ⟨q, q', hq, hq', publicPath_eq_iff hq hq'⟩
  · obtain ⟨hn, rfl⟩ := hashText_eq_ok_iff.1 h
    rw [Base64Url.length_encode, List.length_take_of_le (by omega)]
    exact ⟨rfl, Base64Url.not_mem_toList_encode _ (by decide), Base64Url.not_mem_toList_encode _ (by decide),
      Base64Url.not_mem_toList_encode _ (by decide)⟩
  · have hs := solved_of_build hc h
    have hpublic : ∀ p ∈ c.paths, ∃ r, s.assets.get? p = some r ∧ r.path = p ∧
        HashedAssets.publicPath p r.digest x.settings.hashLength none = .ok r.publicPath := fun p hp => by
      obtain ⟨d, hd⟩ := Catalog.mem_paths.1 hp
      exact hs.publicPath hc hd (hhashed p hp) (hplain p d hd)
    have hinj : ∀ q q' r r', s.assets.get? q = some r → s.assets.get? q' = some r' →
        r.publicPath = r'.publicPath → q = q' := fun q q' r r' hr hr' heq => by
      obtain ⟨v, hv, -, hplace⟩ := hpublic q (hs.mem_paths hr)
      obtain ⟨v', hv', -, hplace'⟩ := hpublic q' (hs.mem_paths hr')
      obtain rfl := Option.some.inj (hr.symm.trans hv)
      obtain rfl := Option.some.inj (hr'.symm.trans hv')
      exact ((publicPath_eq_iff hplace hplace').1 heq).1
    intro p hp
    obtain ⟨r, hr, hpath, -⟩ := hpublic p hp
    exact ⟨r, resolve_eq_ok_iff.2 hr, hpath, resolvePublic_eq_ok h hs hinj hr,
      fun q r' hr' heq => hinj q p r' r (resolve_eq_ok_iff.1 hr') hr heq⟩

/-- Of two assets of one content and one digest, each is found by its public path. -/
theorem unique_twins :
    (∃ q q', HashedAssets.publicPath "a.css" [1, 2] 1 none = .ok q ∧
      HashedAssets.publicPath "a.css" [1, 3] 1 none = .ok q' ∧ q = q') ∧
    Twins.catalog.Keyed ∧ ∃ s r r', (build Sample.context Twins.catalog).1 = .ok s ∧
      s.resolve "a.css" = .ok r ∧ s.resolve "b.css" = .ok r' ∧ r.digest = r'.digest ∧ r.publicPath ≠ r'.publicPath ∧
      s.resolvePublic r.publicPath = .ok r ∧ s.resolvePublic r'.publicPath = .ok r' := by
  obtain ⟨hpaths, -, hunique⟩ := unique_of_build
  obtain ⟨q, q', hq, hq', hiff⟩ := hpaths "a.css" "a.css" [1, 2] [1, 3] 1 (by decide) (by decide) (by decide)
  obtain ⟨s, hs⟩ := Option.isSome_iff_exists.1
    (show (Sample.built? Twins.catalog).isSome = true by decide +kernel)
  have hplain : ∀ p d, Twins.catalog.entries.get? p = some d → d.options.hashBetween = none := fun p d hd => by
    simp only [Twins.catalog, Catalog.entries_add, PathMap.get?_insert] at hd
    split at hd
    · cases hd; rfl
    · split at hd
      · cases hd; rfl
      · cases hd
  have hall := hunique Sample.context Twins.catalog s Twins.keyed_catalog (Sample.build_of_built? hs)
    (by decide +kernel) hplain
  obtain ⟨r, hr, -, hfound, -⟩ := hall "a.css" (by decide +kernel)
  obtain ⟨r', hr', -, hfound', hapart⟩ := hall "b.css" (by decide +kernel)
  have hdigests : ((Sample.built? Twins.catalog).bind fun s => s.assets.get? "a.css").map (·.digest)
      = ((Sample.built? Twins.catalog).bind fun s => s.assets.get? "b.css").map (·.digest) := by decide +kernel
  rw [hs, Option.bind_some, Option.bind_some, resolve_eq_ok_iff.1 hr, resolve_eq_ok_iff.1 hr'] at hdigests
  exact ⟨⟨q, q', hq, hq', hiff.2 ⟨rfl, rfl⟩⟩, Twins.keyed_catalog, s, r, r', Sample.build_of_built? hs, hr, hr',
    Option.some.inj hdigests, fun heq => absurd (hapart "a.css" r hr heq) (by decide), hfound, hfound'⟩

end HashedAssets.Snapshot
