import Mathlib.Algebra.Ring.Int.Defs
import HashedAssets.Proofs.Directive.Spliced

/-!
# What stands between directives

Spans need not come from a parser. As long as they are in order, putting in values leaves the bytes between them as
they are; if they are not, nothing is put in.

* `Ordered`: spans in order within bytes of a length, empty ones and touching ones included; `ordered_of_parse`: those
  of directives that were read;
* `Overlapping`: a directive that begins too early; `renderFrom_eq_error`: the first such one is told;
* `gaps`, `interleave`: the bytes between spans, and two lists of byte strings in turn; `renderFrom_eq_interleave`: the
  output is made of the gaps and the values;
* `interleave_gaps_self`, `length_interleave_gaps`: with the own bytes of each span it is what it was, with others it is
  longer by what they are longer;
* `render_spans_only`: all of this for a list of directives and the values to put in.
-/

namespace HashedAssets.Directive

variable {raw : Bytes} {ds : List Directive} {f : Directive → Bytes} {i : Nat} {last : Int}

/-! ### Spans in order -/

/-- Spans in bytes of a length, each behind the one before it, the first one not in front of `last`. -/
def Ordered (length : Nat) : Int → List Directive → Prop
  | _, [] => True
  | last, d :: rest => last ≤ d.start ∧ d.start ≤ d.stop ∧ d.stop ≤ length ∧ Ordered length d.stop rest

theorem Inside.ordered {length : Nat} (h : Inside length i ds) : Ordered length i ds := by
  induction ds generalizing i with
  | nil => trivial
  | cons d rest ih =>
      obtain ⟨j, k, hstart, hstop, hij, hjk, hk, hrest⟩ := h
      have hrest := ih hrest
      rw [← hstop] at hrest
      exact ⟨by omega, by omega, by omega, hrest⟩

/-- The spans of directives that were read are in order. -/
theorem ordered_of_parse {path : String} (h : parse raw path = .ok ds) : Ordered raw.length 0 ds :=
  (inside_of_parse h).ordered

theorem Ordered.apart {length : Nat} (h : Ordered length last ds) : Apart last ds := by
  induction ds generalizing last with
  | nil => trivial
  | cons d rest ih => exact ⟨h.1, ih h.2.2.2⟩

/-- The first of some spans in order, by its places. -/
theorem Ordered.exists_places {length : Nat} {d : Directive} (h : Ordered length i (d :: ds)) :
    ∃ j k : Nat, d.start = j ∧ d.stop = k ∧ i ≤ j ∧ j ≤ k ∧ k ≤ length ∧ Ordered length k ds := by
  obtain ⟨hij, hjk, hk, hrest⟩ := h
  obtain ⟨j, hj⟩ := Int.eq_ofNat_of_zero_le (show 0 ≤ d.start by omega)
  obtain ⟨k, hk'⟩ := Int.eq_ofNat_of_zero_le (show 0 ≤ d.stop by omega)
  rw [hk'] at hrest
  exact ⟨j, k, hj, hk', by omega, by omega, by omega, hrest⟩

/-! ### Spans out of order -/

/-- Where the last of some directives ends; `last` if there is none. -/
def endFrom (last : Int) (ds : List Directive) : Int := (ds.getLast?.map (·.stop)).getD last

theorem endFrom_cons (last : Int) (d : Directive) (ds : List Directive) :
    endFrom last (d :: ds) = endFrom d.stop ds := by
  rw [endFrom, endFrom, List.getLast?_cons]
  cases ds.getLast? <;> rfl

/-- A directive begins before the end of the one in front of it, or the first one before `last`. -/
def Overlapping (last : Int) (ds : List Directive) : Prop :=
  ∃ front d back, ds = front ++ d :: back ∧ d.start < endFrom last front

theorem overlapping_cons {d : Directive} :
    Overlapping last (d :: ds) ↔ d.start < last ∨ Overlapping d.stop ds := by
  constructor
  · rintro ⟨front, e, back, heq, hlt⟩
    cases front with
    | nil =>
        obtain ⟨rfl, -⟩ := List.cons.inj heq
        exact .inl hlt
    | cons x front =>
        obtain ⟨rfl, rfl⟩ := List.cons.inj heq
        rw [endFrom_cons] at hlt
        exact .inr ⟨front, e, back, rfl, hlt⟩
  · rintro (hlt | ⟨front, e, back, rfl, hlt⟩)
    · exact ⟨[], d, ds, rfl, hlt⟩
    · refine ⟨d :: front, e, back, rfl, ?_⟩
      rwa [endFrom_cons]

/-- Only overlapping directives are a fault, and the first one that begins too early is told. -/
theorem renderFrom_eq_error {e : Failure} (h : renderFrom raw (fun d => .ok (f d)) last ds = .error e) :
    ∃ front d back, ds = front ++ d :: back ∧ Apart last front ∧ d.start < endFrom last front ∧
      e = .overlap d.start := by
  induction ds generalizing last with
  | nil => cases h
  | cons d rest ih =>
      rw [renderFrom] at h
      split at h
      · next hlt =>
          cases h
          exact ⟨[], d, rest, rfl, trivial, hlt, rfl⟩
      · next hge =>
          dsimp only at h
          split at h
          · next e' htail =>
              cases h
              obtain ⟨front, d', back, rfl, hfront, hlt, he⟩ := ih htail
              refine ⟨d :: front, d', back, rfl, ⟨Int.not_lt.1 hge, hfront⟩, ?_, he⟩
              rwa [endFrom_cons]
          · cases h

theorem exists_renderFrom_eq_error_iff :
    (∃ e, renderFrom raw (fun d => .ok (f d)) last ds = .error e) ↔ Overlapping last ds := by
  constructor
  · rintro ⟨e, h⟩
    obtain ⟨front, d, back, heq, -, hlt, -⟩ := renderFrom_eq_error h
    exact ⟨front, d, back, heq, hlt⟩
  · intro h
    induction ds generalizing last with
    | nil =>
        obtain ⟨front, d, back, heq, -⟩ := h
        simp at heq
    | cons d rest ih =>
        rw [renderFrom]
        split
        · exact ⟨_, rfl⟩
        · next hge =>
            obtain ⟨e, he⟩ := ih ((overlapping_cons.1 h).resolve_left hge)
            rw [he]
            exact ⟨e, rfl⟩

/-! ### Gaps and values -/

/-- The bytes from `i` on that are in no span: in front of the first one, between any two, and behind the last one. -/
def gaps (raw : Bytes) : Nat → List Directive → List Bytes
  | i, [] => [raw.drop i]
  | i, d :: rest => (raw.take d.start.toNat).drop i :: gaps raw d.stop.toNat rest

/-- Byte strings of two lists in turn. -/
def interleave : List Bytes → List Bytes → Bytes
  | [], vs => vs.flatten
  | g :: gs, [] => g ++ gs.flatten
  | g :: gs, v :: vs => g ++ v ++ interleave gs vs

/-- There is one gap more than there are spans. -/
theorem length_gaps (raw : Bytes) (i : Nat) (ds : List Directive) : (gaps raw i ds).length = ds.length + 1 := by
  induction ds generalizing i with
  | nil => rfl
  | cons d rest ih => rw [gaps, List.length_cons, List.length_cons, ih]

theorem interleave_gaps_nil (raw : Bytes) (i : Nat) : interleave (gaps raw i []) [] = raw.drop i :=
  List.append_nil _

theorem interleave_gaps_cons {d : Directive} {j k : Nat} (hj : d.start = j) (hk : d.stop = k) (v : Bytes)
    (vs : List Bytes) :
    interleave (gaps raw i (d :: ds)) (v :: vs) = (raw.take j).drop i ++ v ++ interleave (gaps raw k ds) vs := by
  rw [gaps, interleave, hj, hk, Int.toNat_natCast, Int.toNat_natCast]

theorem renderFrom_eq_interleave (h : Ordered raw.length i ds) (hi : i ≤ raw.length) :
    renderFrom raw (fun d => .ok (f d)) i ds = .ok (interleave (gaps raw i ds) (ds.map f)) := by
  induction ds generalizing i with
  | nil => rw [renderFrom, Bytes.cutFrom, place_of_le hi, List.map_nil, interleave_gaps_nil]
  | cons d rest ih =>
      obtain ⟨j, k, hstart, hstop, hij, hjk, hk, hrest⟩ := h.exists_places
      rw [renderFrom, hstart, hstop, if_neg (by omega), ih hrest hk, List.map_cons, interleave_gaps_cons hstart hstop,
        Bytes.cut, place_of_le hi, place_of_le (by omega)]

theorem cut_append_drop (raw : Bytes) {j k : Nat} (h : j ≤ k) :
    (raw.take k).drop j ++ raw.drop k = raw.drop j := calc
  (raw.take k).drop j ++ raw.drop k = (raw.drop j).take (k - j) ++ (raw.drop j).drop (k - j) := by
    rw [List.drop_take, List.drop_drop, Nat.add_sub_cancel' h]
  _ = raw.drop j := List.take_append_drop _ _

/-- With its own bytes in the place of each span everything is as it was. -/
theorem interleave_gaps_self (h : Ordered raw.length i ds) :
    interleave (gaps raw i ds) (ds.map fun d => raw.cut d.start d.stop) = raw.drop i := by
  induction ds generalizing i with
  | nil => exact interleave_gaps_nil raw i
  | cons d rest ih =>
      obtain ⟨j, k, hstart, hstop, hij, hjk, hk, hrest⟩ := h.exists_places
      have hown : raw.cut d.start d.stop = (raw.take k).drop j := by
        rw [hstart, hstop, Bytes.cut, place_of_le hk, place_of_le (by omega)]
      rw [List.map_cons, interleave_gaps_cons hstart hstop, ih hrest, hown, List.append_assoc,
        cut_append_drop raw hjk, cut_append_drop raw hij]

/-- Values in the place of spans make the bytes longer by what they are longer than the spans. -/
theorem length_interleave_gaps (h : Ordered raw.length i ds) (hi : i ≤ raw.length) :
    ((interleave (gaps raw i ds) (ds.map f)).length : Int)
      = raw.length - i + (ds.map fun d => ((f d).length : Int) - (d.stop - d.start)).sum := by
  induction ds generalizing i with
  | nil =>
      rw [List.map_nil, List.map_nil, interleave_gaps_nil, List.length_drop, List.sum_nil]
      omega
  | cons d rest ih =>
      obtain ⟨j, k, hstart, hstop, hij, hjk, hk, hrest⟩ := h.exists_places
      have htail := ih hrest hk
      rw [List.map_cons, List.map_cons, interleave_gaps_cons hstart hstop, List.sum_cons, List.length_append,
        List.length_append, List.length_drop, List.length_take, hstart, hstop]
      omega

/-! ### Putting in values -/

namespace Beside

/-- Two directives that touch, between two bytes. -/
def content : Bytes := Bytes.ofText "<\x7b\x7b: var:x :\x7d\x7d\x7b\x7b: path:b.css :\x7d\x7d>"

/-- Where they stand. -/
def directives : List Directive := [⟨.variable, "x", 1, 14⟩, ⟨.path, "b.css", 14, 32⟩]

theorem parse_content : parse content "a.html" = .ok directives := by
  have h : (parse content "a.html").toOption = some directives := by decide +kernel
  cases hparse : parse content "a.html" with
  | error e =>
      rw [hparse] at h
      cases h
  | ok ds =>
      rw [hparse] at h
      rw [Option.some.inj h]

end Beside

/-- Putting in values, whatever the directives are, fails just if one of them begins too early, and then tells the first
that does. Where the spans are in order, the output is made of the gaps between them and the values, in turn: it has the
length that comes of this, and if each span is given its own bytes it is what it was. Directives that were read have
spans in order; so what fails for them is one of the values. -/
theorem render_spans_only (raw : Bytes) (ds : List Directive) (f : Directive → Bytes) :
    ((∃ e, render raw ds (fun d => .ok (f d)) = .error e) ↔ Overlapping 0 ds) ∧
      (∀ e, render raw ds (fun d => .ok (f d)) = .error e → ∃ front d back, ds = front ++ d :: back ∧
        Apart 0 front ∧ d.start < endFrom 0 front ∧ e = .overlap d.start) ∧
      (Ordered raw.length 0 ds → (gaps raw 0 ds).length = ds.length + 1 ∧
        render raw ds (fun d => .ok (f d)) = .ok (interleave (gaps raw 0 ds) (ds.map f)) ∧
        ((interleave (gaps raw 0 ds) (ds.map f)).length : Int)
          = raw.length + (ds.map fun d => ((f d).length : Int) - (d.stop - d.start)).sum ∧
        render raw ds (fun d => .ok (raw.cut d.start d.stop)) = .ok raw) ∧
      ∀ path, parse raw path = .ok ds → Ordered raw.length 0 ds ∧
        ∀ (value : Directive → Except Failure Bytes) e, render raw ds value = .error e →
          ∃ d ∈ ds, value d = .error e := by
  refine ⟨exists_renderFrom_eq_error_iff, fun e => renderFrom_eq_error, fun h => ⟨?_, ?_, ?_, ?_⟩, fun path h => ?_⟩
  · exact length_gaps raw 0 ds
  · exact renderFrom_eq_interleave h (Nat.zero_le _)
  · have hlength := length_interleave_gaps (f := f) h (Nat.zero_le _)
    rwa [Int.natCast_zero, Int.sub_zero] at hlength
  · have hself := renderFrom_eq_interleave (f := fun d => raw.cut d.start d.stop) h (Nat.zero_le _)
    rwa [interleave_gaps_self h] at hself
  · have hordered := ordered_of_parse h
    exact ⟨hordered, fun value e => exists_value_eq_error hordered.apart⟩

/-- Directives that touch are replaced one behind the other. -/
theorem render_spans_touching : parse Beside.content "a.html" = .ok Beside.directives ∧
    Ordered Beside.content.length 0 Beside.directives ∧
    render Beside.content Beside.directives (fun d => .ok (Bytes.ofText d.target)) = .ok (Bytes.ofText "<xb.css>") := by
  obtain ⟨-, -, hordered, hread⟩ := render_spans_only Beside.content Beside.directives fun d => Bytes.ofText d.target
  obtain ⟨hin, -⟩ := hread "a.html" Beside.parse_content
  obtain ⟨-, hrender, -⟩ := hordered hin
  refine ⟨Beside.parse_content, hin, hrender.trans (congrArg Except.ok ?_)⟩
  decide +kernel

end HashedAssets.Directive
