import HashedAssets.Directive.Parser
import HashedAssets.Directive.Render
import HashedAssets.Graph.Build

/-!
# Spans that lie apart

* `Directive.Apart`: directives each of which begins behind the end of the one before it; those read
  from the bytes of an asset do;
* `render_congr`, `exists_find?_of_render`, `exists_value_eq_ok`: putting values in the place of such
  directives depends on the values of these directives only, and fails as the first of them does that
  has no value.
-/

namespace HashedAssets

@[simp] theorem isOk_ok {ε α : Type} (a : α) : (Except.ok a : Except ε α).isOk = true := rfl

@[simp] theorem isOk_error {ε α : Type} (e : ε) : (Except.error e : Except ε α).isOk = false := rfl

namespace Directive

/-- Each directive begins behind the end of the one before it, the first one at `last` or behind. -/
def Apart : Int → List Directive → Prop
  | _, [] => True
  | last, d :: rest => last ≤ d.start ∧ Apart d.stop rest

/-- Reading finds no directive, or a first one and those behind it. -/
theorem parseFrom_eq_ok {path : String} {offset : Nat} {rest : Bytes} {ds : List Directive}
    (h : parseFrom path offset rest = .ok ds) : ds = [] ∨
      ∃ k kind target n ds', Bytes.find? opening rest = some k ∧
        readAt (Bytes.firstLine (rest.drop k)) = .ok (kind, target, n) ∧
        parseFrom path (offset + k + n) (rest.drop (k + n)) = .ok ds' ∧
        ds = ⟨kind, target, (offset + k : Nat), (offset + k + n : Nat)⟩ :: ds' := by
  rw [parseFrom] at h
  split at h
  · cases h; exact .inl rfl
  · next k hk =>
      split at h
      · cases h
      · next kind target n hread =>
          split at h
          · cases h
          · next ds' hrest =>
              cases h
              exact .inr ⟨k, kind, target, n, ds', hk, hread, hrest, rfl⟩

theorem apart_of_parseFrom {path : String} {offset : Nat} {rest : Bytes} {ds : List Directive}
    (h : parseFrom path offset rest = .ok ds) : Apart offset ds := by
  induction ds generalizing offset rest with
  | nil => trivial
  | cons d ds ih =>
      obtain hnil | ⟨k, kind, target, n, ds', -, -, hrest, heq⟩ := parseFrom_eq_ok h
      · cases hnil
      · cases heq
        exact ⟨by simp only []; omega, ih hrest⟩

section Render

variable {raw : Bytes} {value value' : Directive → Except Failure Bytes} {ds : List Directive}

theorem renderFrom_congr {last : Int} (h : ∀ d ∈ ds, value d = value' d) :
    renderFrom raw value last ds = renderFrom raw value' last ds := by
  induction ds generalizing last with
  | nil => rfl
  | cons d rest ih =>
      rw [renderFrom, renderFrom, h d List.mem_cons_self,
        ih fun e he => h e (List.mem_cons_of_mem _ he)]

/-- The output depends on the values of the directives only. -/
theorem render_congr (h : ∀ d ∈ ds, value d = value' d) :
    render raw ds value = render raw ds value' := renderFrom_congr h

theorem exists_find?_of_renderFrom {last : Int} (ha : Apart last ds) {f : Failure}
    (h : renderFrom raw value last ds = .error f) :
    ∃ d, ds.find? (fun d => !(value d).isOk) = some d ∧ value d = .error f := by
  induction ds generalizing last with
  | nil => cases h
  | cons d rest ih =>
      rw [renderFrom, if_neg (Int.not_lt.2 ha.1)] at h
      cases hv : value d with
      | error g =>
          rw [hv] at h; cases h
          exact ⟨d, by simp [hv], hv⟩
      | ok v =>
          rw [hv] at h
          cases ht : renderFrom raw value d.stop rest with
          | error g =>
              rw [ht] at h; cases h
              obtain ⟨e, he, hve⟩ := ih ha.2 ht
              exact ⟨e, by simpa [hv] using he, hve⟩
          | ok tail => rw [ht] at h; cases h

/-- A failure to put values in is that of the first directive without a value. -/
theorem exists_find?_of_render (ha : Apart 0 ds) {f : Failure} (h : render raw ds value = .error f) :
    ∃ d, ds.find? (fun d => !(value d).isOk) = some d ∧ value d = .error f :=
  exists_find?_of_renderFrom ha h

/-- A failure to put values in is that of one of the values. -/
theorem exists_value_eq_error (ha : Apart 0 ds) {f : Failure}
    (h : render raw ds value = .error f) : ∃ d ∈ ds, value d = .error f := by
  obtain ⟨d, hd, hv⟩ := exists_find?_of_render ha h
  exact ⟨d, List.mem_of_find?_eq_some hd, hv⟩

theorem exists_value_eq_ok_of_renderFrom {last : Int} {b : Bytes}
    (h : renderFrom raw value last ds = .ok b) {d : Directive} (hd : d ∈ ds) :
    ∃ v, value d = .ok v := by
  induction ds generalizing last b with
  | nil => cases hd
  | cons e rest ih =>
      rw [renderFrom] at h
      split at h
      · cases h
      · cases hv : value e with
        | error g => rw [hv] at h; cases h
        | ok v =>
            rw [hv] at h
            cases ht : renderFrom raw value e.stop rest with
            | error g => rw [ht] at h; cases h
            | ok tail =>
                rcases List.mem_cons.1 hd with rfl | hd
                · exact ⟨v, hv⟩
                · exact ih ht hd

/-- Where there is an output, each directive has a value. -/
theorem exists_value_eq_ok {b : Bytes} (h : render raw ds value = .ok b) {d : Directive}
    (hd : d ∈ ds) : ∃ v, value d = .ok v := exists_value_eq_ok_of_renderFrom h hd

end Render

end Directive

/-- The directives of an asset lie apart. -/
theorem RawAsset.apart_directives {a : RawAsset} {path : String} {ds : List Directive}
    (h : a.directives path = .ok ds) : Directive.Apart 0 ds := by
  unfold RawAsset.directives at h
  split at h
  · exact Directive.apart_of_parseFrom h
  · cases h; trivial

end HashedAssets
