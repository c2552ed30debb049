import HashedAssets.Proofs.Directive.Spans

/-!
# Values in the place of directives

* `Directive.Inside`: directives that stand in bytes of a given length, one behind the other;
  `inside_of_parse`: those that are read from bytes stand in them;
* `Directive.Spliced`: bytes with something in the place of each directive, and all else as it was;
  `spliced_of_render`: this is what putting in values gives.
-/

namespace HashedAssets

namespace Directive

/-! ### Where directives stand -/

/-- A directive ends within its line. -/
theorem le_length_of_readAt {line : Bytes} {kind : DirectiveKind} {target : String} {n : Nat}
    (h : readAt line = .ok (kind, target, n)) : n ≤ line.length := by
  unfold readAt at h
  split at h
  · cases h
  · next k hk =>
      obtain ⟨j, hj, rfl⟩ := Option.map_eq_some_iff.1 hk
      have hroom := Bytes.find?_add_length_le hj
      cases hb : readBody ((line.take (j + 3)).drop opening.length) with
      | error e => rw [hb] at h; cases h
      | ok kt =>
          rw [hb] at h
          simp only [Except.map, Except.ok.injEq, Prod.mk.injEq] at h
          obtain ⟨-, -, rfl⟩ := h
          simp only [closing, List.length_cons, List.length_nil, List.length_drop,
            List.length_take] at hroom ⊢
          omega

/-- Directives that stand in bytes of a length, each behind the one before it and the first one not in
front of `last`. -/
def Inside (length : Nat) : Nat → List Directive → Prop
  | _, [] => True
  | last, d :: rest => ∃ j k : Nat, d.start = j ∧ d.stop = k ∧ last ≤ j ∧ j < k ∧ k ≤ length ∧
      Inside length k rest

theorem inside_of_parseFrom {path : String} {offset : Nat} {rest : Bytes} {ds : List Directive}
    (h : parseFrom path offset rest = .ok ds) : Inside (offset + rest.length) offset ds := by
  induction ds generalizing offset rest with
  | nil => trivial
  | cons d ds ih =>
      obtain hnil | ⟨k, kind, target, n, ds', hk, hread, hrest, heq⟩ := parseFrom_eq_ok h
      · cases hnil
      · cases heq
        have hpos := pos_of_readAt hread
        have hn : n ≤ rest.length - k := calc
          n ≤ (Bytes.firstLine (rest.drop k)).length := le_length_of_readAt hread
          _ ≤ (rest.drop k).length := (List.takeWhile_sublist _).length_le
          _ = rest.length - k := List.length_drop
        have hin := ih hrest
        have hlength : offset + k + n + (rest.drop (k + n)).length = offset + rest.length := by
          rw [List.length_drop]
          omega
        rw [hlength] at hin
        exact ⟨offset + k, offset + k + n, rfl, rfl, by omega, by omega, by omega, hin⟩

/-- The directives of bytes stand in them. -/
theorem inside_of_parse {raw : Bytes} {path : String} {ds : List Directive}
    (h : parse raw path = .ok ds) : Inside raw.length 0 ds := by
  have hin := inside_of_parseFrom h
  rwa [Nat.zero_add] at hin

/-! ### What stands in their place -/

/-- The bytes from an offset on with a value in the place of each directive, and everything else as it
was. -/
inductive Spliced (raw : Bytes) (value : Directive → Bytes → Prop) :
    Nat → List Directive → Bytes → Prop
  | rest (i : Nat) : Spliced raw value i [] (raw.drop i)
  | directive {i j k : Nat} {d : Directive} {ds : List Directive} {v out : Bytes} (hstart : d.start = j)
      (hstop : d.stop = k) (hij : i ≤ j) (hjk : j < k) (hk : k ≤ raw.length) (hv : value d v)
      (htail : Spliced raw value k ds out) :
      Spliced raw value i (d :: ds) ((raw.take j).drop i ++ v ++ out)

variable {raw out : Bytes} {ds : List Directive}

theorem Spliced.mono {value value' : Directive → Bytes → Prop} {i : Nat}
    (h : Spliced raw value i ds out) (hv : ∀ d ∈ ds, ∀ v, value d v → value' d v) :
    Spliced raw value' i ds out := by
  induction h with
  | rest i => exact .rest i
  | directive hstart hstop hij hjk hk hval _ ih =>
      exact .directive hstart hstop hij hjk hk (hv _ List.mem_cons_self _ hval)
        (ih fun d hd => hv d (List.mem_cons_of_mem _ hd))

/-- Without directives everything is as it was. -/
theorem Spliced.eq_drop {value : Directive → Bytes → Prop} {i : Nat}
    (h : Spliced raw value i [] out) : out = raw.drop i := by
  cases h
  rfl

theorem place_of_le {length i : Nat} (h : i ≤ length) : Bytes.place length i = i := by
  rw [Bytes.place, if_neg (by omega), Int.toNat_natCast, Nat.min_eq_left h]

theorem spliced_of_renderFrom {value : Directive → Except Failure Bytes} {i : Nat}
    (hin : Inside raw.length i ds) (hi : i ≤ raw.length) (h : renderFrom raw value i ds = .ok out) :
    Spliced raw (fun d v => value d = .ok v) i ds out := by
  induction ds generalizing i out with
  | nil =>
      cases h
      rw [Bytes.cutFrom, place_of_le hi]
      exact .rest i
  | cons d rest ih =>
      obtain ⟨j, k, hstart, hstop, hij, hjk, hk, hrest⟩ := hin
      rw [renderFrom, hstart, hstop, if_neg (by omega)] at h
      cases hv : value d with
      | error f => rw [hv] at h; cases h
      | ok v =>
          rw [hv] at h
          dsimp only at h
          cases ht : renderFrom raw value k rest with
          | error f => rw [ht] at h; cases h
          | ok tail =>
              rw [ht] at h
              cases h
              rw [Bytes.cut, place_of_le hi, place_of_le (by omega)]
              exact .directive hstart hstop hij hjk hk hv (ih hrest hk ht)

/-- Putting in values gives the bytes with each value in the place of its directive. -/
theorem spliced_of_render {value : Directive → Except Failure Bytes} (hin : Inside raw.length 0 ds)
    (h : render raw ds value = .ok out) : Spliced raw (fun d v => value d = .ok v) 0 ds out :=
  spliced_of_renderFrom hin (Nat.zero_le _) h

end Directive

/-- The directives of an asset stand in its bytes. -/
theorem RawAsset.inside_directives {a : RawAsset} {path : String} {ds : List Directive}
    (h : a.directives path = .ok ds) : Directive.Inside a.content.length 0 ds := by
  unfold RawAsset.directives at h
  split at h
  · exact Directive.inside_of_parse h
  · cases h; trivial

end HashedAssets
