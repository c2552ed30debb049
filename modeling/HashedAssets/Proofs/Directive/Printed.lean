import HashedAssets.Directive.Printer
import HashedAssets.Proofs.Directive.Gaps
import HashedAssets.Proofs.Directive.Grammar

/-!
# Reading what was written

Directives that are printed between literal bytes are found again, where they were put. No token comes about where two
pieces meet: the tokens are unbordered, and a printed body begins with the word of a kind.

* `Bytes.Unbordered`, `Bytes.firstFrom_append`: behind bytes that it does not stand in, a pattern is found where it is
  put;
* `Printable`, `wellFormed_print`: a printed directive is well formed, whatever stands behind it;
* `IsLiteral`, `parseFrom_printAll`: literals and directives are read one after the other;
* `gaps_printAll`: what stands between the directives are the literals;
* `parse_printAll`: reading gives the directives that were printed, and putting in values gives literals and values.
-/

namespace HashedAssets

namespace Bytes

variable {p a b : Bytes} {k : Nat}

/-- No beginning of the pattern, other than the whole of it, is an end of it. -/
def Unbordered (p : Bytes) : Prop := ∀ n < p.length, 0 < n → p.drop (p.length - n) ≠ p.take n

theorem firstFrom_append (hp : Unbordered p) (ha : ∀ k, ¬ StandsAt p a k) (b : Bytes) :
    FirstFrom p (a ++ (p ++ b)) 0 a.length := by
  refine ⟨Nat.zero_le _, ?_, fun j _ hj hstands => ?_⟩
  · rw [StandsAt, List.drop_left]
    exact List.prefix_append p b
  · have hdrop : (a ++ (p ++ b)).drop j = a.drop j ++ (p ++ b) := List.drop_append_of_le_length hj.le
    rw [StandsAt, hdrop] at hstands
    have hlength : (a.drop j).length = a.length - j := List.length_drop
    by_cases hlong : p.length ≤ (a.drop j).length
    · exact ha j (List.prefix_of_prefix_length_le hstands (List.prefix_append _ _) hlong)
    · -- what the two places share is an end of the pattern and a beginning of it
      have hshared : p.drop (a.drop j).length = p.take (p.length - (a.drop j).length) := by
        have heq := congrArg (List.drop (a.drop j).length) (List.prefix_iff_eq_take.1 hstands)
        rwa [List.drop_take, List.drop_left, List.take_append_of_le_length (Nat.sub_le _ _)] at heq
      have hback : p.length - (p.length - (a.drop j).length) = (a.drop j).length := by omega
      exact hp (p.length - (a.drop j).length) (by omega) (by omega) (by rw [hback, hshared])

theorem StandsAt.getElem? (h : StandsAt p b k) {i : Nat} (hi : i < p.length) : b[k + i]? = some p[i] := by
  rw [← List.getElem?_drop]
  exact List.prefix_iff_getElem?.1 h i hi

theorem ofText_append (s t : String) : ofText (s ++ t) = ofText s ++ ofText t := by
  simp [ofText, String.toByteArray_append]

end Bytes

namespace Directive

variable {kind : DirectiveKind} {target : String} {first : Bytes} {path : String} {offset k n : Nat}
  {rest : Bytes} {ds : List Directive} {parts : List Part}

theorem unbordered_opening : Bytes.Unbordered opening := by
  unfold Bytes.Unbordered
  decide

theorem unbordered_closing : Bytes.Unbordered closing := by
  unfold Bytes.Unbordered
  decide

/-! ### One directive -/

/-- A directive that can be printed: its target has no blanks at its ends, no newline and no closing token, and the
printed form is not too long. -/
structure Printable (kind : DirectiveKind) (target : String) : Prop where
  nonempty : target ≠ ""
  head : ∀ c ∈ target.toList.head?, Text.isBlank c = false
  last : ∀ c ∈ target.toList.getLast?, Text.isBlank c = false
  line : 10 ∉ Bytes.ofText target
  unclosed : ∀ k, ¬ Bytes.StandsAt closing (Bytes.ofText target) k
  short : (print kind target).length ≤ 256

/-- The bytes between the tokens of a printed directive. -/
def body (kind : DirectiveKind) (target : String) : Bytes := Bytes.ofText (kind.word ++ ":" ++ target)

theorem body_eq_append (kind : DirectiveKind) (target : String) :
    body kind target = (Bytes.ofText kind.word ++ [0x3a]) ++ Bytes.ofText target := by
  rw [body, Bytes.ofText_append, Bytes.ofText_append]
  rfl

theorem print_eq (kind : DirectiveKind) (target : String) :
    print kind target = opening ++ (body kind target ++ closing) := by
  rw [print, body_eq_append]
  simp only [List.append_assoc]

theorem length_print (kind : DirectiveKind) (target : String) :
    (print kind target).length = 4 + (body kind target).length + 4 := by
  rw [print_eq, List.length_append, List.length_append, ← Nat.add_assoc]
  rfl

theorem names_body (h : Printable kind target) : Names (body kind target) kind target := by
  have hhead : ∀ c ∈ kind.word.toList.head?, Text.isBlank c = false := by
    intro c hc
    cases kind <;> cases hc <;> decide
  have hlast : ∀ c ∈ kind.word.toList.getLast?, Text.isBlank c = false := by
    intro c hc
    cases kind <;> cases hc <;> decide
  have hword : kind.word.toList ≠ [] ∧ ':' ∉ kind.word.toList := by cases kind <;> decide
  have htarget : target.toList ≠ [] := fun hnil => h.nonempty (String.toList_eq_nil_iff.1 hnil)
  have htext : (kind.word ++ ":" ++ target).toList = kind.word.toList ++ ':' :: target.toList := by simp
  have hwhole : Text.Trimmed (kind.word ++ ":" ++ target).toList (kind.word.toList ++ ':' :: target.toList) := by
    rw [htext]
    refine Text.trimmed_self ?_ ?_
    · rwa [List.head?_append_of_ne_nil _ hword.1]
    · rw [List.getLast?_append_cons, List.getLast?_cons_of_ne_nil htarget]
      exact h.last
  exact ⟨_, kind.word.toList, target.toList, rfl, hwhole, hword.2, Text.trimmed_self hhead hlast,
    Text.trimmed_self h.head h.last, h.nonempty⟩

/-- In front of the target of a printed body, a blank stands only where the opening token ends, and no colon behind
it. -/
theorem not_standsAt_body (h : Printable kind target) (k : Nat) :
    ¬ Bytes.StandsAt closing (0x20 :: body kind target) k := by
  intro hstands
  have hbody : 0x20 :: body kind target = (0x20 :: (Bytes.ofText kind.word ++ [0x3a])) ++ Bytes.ofText target := by
    rw [body_eq_append, List.cons_append]
  rw [hbody] at hstands
  generalize hhead : 0x20 :: (Bytes.ofText kind.word ++ [0x3a]) = head at hstands
  by_cases hk : head.length ≤ k
  · rw [← Nat.add_sub_cancel' hk, ← Bytes.standsAt_drop, List.drop_left] at hstands
    exact h.unclosed _ hstands
  · have hblank : ∀ i < head.length, head[i]? = some 0x20 → i = 0 := by
      subst hhead
      cases kind <;> decide +kernel
    have hcolon : 1 < head.length ∧ head[1]? ≠ some 0x3a := by
      subst hhead
      cases kind <;> decide +kernel
    have hat : ∀ i (hi : i < closing.length), k + i < head.length → head[k + i]? = some closing[i] := by
      intro i hi hik
      rw [← hstands.getElem? hi, List.getElem?_append_left hik]
    obtain rfl := hblank k (Nat.lt_of_not_le hk) (hat 0 (by decide) (Nat.lt_of_not_le hk))
    exact hcolon.2 (hat 1 (by decide) hcolon.1)

/-- A printed directive is well formed, whatever stands behind it. -/
theorem wellFormed_print (h : Printable kind target) (behind : Bytes) :
    WellFormed (print kind target ++ behind) 0 (4 + (body kind target).length) kind target := by
  have hraw : print kind target ++ behind = opening ++ (body kind target ++ (closing ++ behind)) := by
    rw [print_eq, List.append_assoc, List.append_assoc]
  have hlength := length_print kind target
  have hshort := h.short
  constructor
  · have hfirst := Bytes.firstFrom_append unbordered_closing (not_standsAt_body h) behind
    have hdrop : (print kind target ++ behind).drop 3 = (0x20 :: body kind target) ++ (closing ++ behind) := by
      rw [hraw]
      rfl
    rw [← hdrop, Bytes.firstFrom_drop, List.length_cons] at hfirst
    rwa [show 4 + (body kind target).length = 3 + ((body kind target).length + 1) by omega]
  · intro j _ hj hnewline
    rw [List.getElem?_append_left (by omega)] at hnewline
    have hmem := List.mem_of_getElem? hnewline
    rw [print_eq, body_eq_append] at hmem
    -- the parts of a printed directive hold no line feed: its target does not, and the rest is fixed
    have hword : (10 : UInt8) ∉ Bytes.ofText kind.word := by cases kind <;> decide +kernel
    have htokens : (10 : UInt8) ∉ opening ∧ (10 : UInt8) ∉ closing := by decide
    simp only [List.mem_append, List.mem_singleton] at hmem
    rcases hmem with hmem | ((hmem | hmem) | hmem) | hmem
    · exact htokens.1 hmem
    · exact hword hmem
    · cases hmem
    · exact h.line hmem
    · exact htokens.2 hmem
  · omega
  · have hbody : ((print kind target ++ behind).take (4 + (body kind target).length)).drop (0 + 4)
        = body kind target := by
      have hdrop : (opening ++ (body kind target ++ (closing ++ behind))).drop (0 + 4)
          = body kind target ++ (closing ++ behind) := rfl
      rw [hraw, List.drop_take, hdrop, Nat.zero_add, Nat.add_sub_cancel_left, List.take_left]
    rw [hbody]
    exact names_body h

/-- A printed directive is read, whatever stands behind it. -/
theorem readAt_print (h : Printable kind target) (behind : Bytes) :
    readAt (Bytes.firstLine (print kind target ++ behind)) = .ok (kind, target, (print kind target).length) := by
  have hlength := length_print kind target
  exact (readAt_eq_ok_iff (s := 0)).2 ⟨_, by omega, wellFormed_print h behind⟩

/-! ### Literals and directives in turn -/

/-- Bytes without an opening token. -/
def IsLiteral (b : Bytes) : Prop := ∀ k, ¬ Bytes.StandsAt opening b k

theorem isLiteral_iff {b : Bytes} : IsLiteral b ↔ Bytes.find? opening b = none := Bytes.find?_eq_none_iff.symm

theorem parseFrom_of_isLiteral (h : IsLiteral rest) : parseFrom path offset rest = .ok [] := by
  rw [parseFrom]
  split
  · rfl
  · next k hk => rw [isLiteral_iff.1 h] at hk; cases hk

/-- Reading goes on behind a directive. -/
theorem parseFrom_of_readAt (hk : Bytes.find? opening rest = some k)
    (hread : readAt (Bytes.firstLine (rest.drop k)) = .ok (kind, target, n))
    (hbehind : parseFrom path (offset + k + n) (rest.drop (k + n)) = .ok ds) :
    parseFrom path offset rest = .ok (⟨kind, target, (offset + k : Nat), (offset + k + n : Nat)⟩ :: ds) := by
  rw [parseFrom]
  split
  · next hnone => rw [hk] at hnone; cases hnone
  · next k' hk' =>
      obtain rfl : k = k' := Option.some.inj (hk.symm.trans hk')
      split
      · next hread' => rw [hread] at hread'; cases hread'
      · next hread' =>
          rw [hread] at hread'
          cases hread'
          rw [hbehind]

theorem printAll_cons (first : Bytes) (p : Part) (rest : List Part) :
    printAll first (p :: rest) = first ++ (print p.kind p.target ++ printAll p.literal rest) := by
  simp only [printAll, List.flatMap_cons, List.append_assoc]

/-- Literals and directives are read one after the other, wherever they begin. -/
theorem parseFrom_printAll (hfirst : IsLiteral first)
    (hparts : ∀ p ∈ parts, Printable p.kind p.target ∧ IsLiteral p.literal) :
    parseFrom path offset (printAll first parts) = .ok (spans (offset + first.length) parts) := by
  induction parts generalizing first offset with
  | nil =>
      rw [printAll, List.flatMap_nil, List.append_nil]
      exact parseFrom_of_isLiteral hfirst
  | cons p rest ih =>
      obtain ⟨⟨hp, hliteral⟩, hrest⟩ := List.forall_mem_cons.1 hparts
      rw [printAll_cons]
      have hfind : Bytes.find? opening (first ++ (print p.kind p.target ++ printAll p.literal rest))
          = some first.length := by
        rw [Bytes.find?_eq_some_iff, print_eq, List.append_assoc]
        exact Bytes.firstFrom_append unbordered_opening hfirst _
      have hread := readAt_print hp (printAll p.literal rest)
      have hbehind : parseFrom path (offset + first.length + (print p.kind p.target).length)
          (printAll p.literal rest) = .ok _ := ih hliteral hrest
      refine parseFrom_of_readAt hfind ?_ ?_
      · rw [List.drop_left]
        exact hread
      · rw [← List.drop_drop, List.drop_left, List.drop_left]
        exact hbehind

/-- Between the directives stand the literals. -/
theorem gaps_printAll (front first : Bytes) (parts : List Part) :
    gaps (front ++ printAll first parts) front.length (spans (front.length + first.length) parts)
      = first :: parts.map (·.literal) := by
  induction parts generalizing front first with
  | nil => rw [printAll, List.flatMap_nil, List.append_nil, spans, gaps, List.drop_left, List.map_nil]
  | cons p rest ih =>
      have htail := ih (front ++ first ++ print p.kind p.target) p.literal
      have hraw : front ++ printAll first (p :: rest)
          = front ++ first ++ print p.kind p.target ++ printAll p.literal rest := by
        rw [printAll_cons]
        simp only [List.append_assoc]
      have hgap : ((front ++ printAll first (p :: rest)).take (front.length + first.length)).drop front.length
          = first := by
        rw [printAll_cons, ← List.append_assoc, ← List.length_append, List.take_left, List.drop_left]
      rw [List.length_append, List.length_append] at htail
      rw [spans, gaps, Int.toNat_natCast, hgap, Int.toNat_natCast, hraw, htail, List.map_cons]

namespace Seams

/-- A brace in front of the first directive. -/
def brace : Bytes := Bytes.ofText "\x7b"

/-- Directives whose targets begin and end like tokens, with all but the last byte of a token between them. -/
def tokens : List Part :=
  [⟨.variable, ":a :", Bytes.ofText "\x7b\x7b:"⟩, ⟨.path, "\x7b\x7b: b.css", []⟩]

theorem printable : ∀ p ∈ tokens, Printable p.kind p.target ∧ IsLiteral p.literal := by
  have htargets : (∀ p ∈ tokens, p.target ≠ "" ∧ (p.target.toList.head?.all fun c => !Text.isBlank c) ∧
      (p.target.toList.getLast?.all fun c => !Text.isBlank c) ∧ 10 ∉ Bytes.ofText p.target ∧
      Bytes.find? closing (Bytes.ofText p.target) = none ∧ (print p.kind p.target).length ≤ 256 ∧
      Bytes.find? opening p.literal = none) := by decide +kernel
  intro p hp
  obtain ⟨hne, hhead, hlast, hline, hunclosed, hshort, hliteral⟩ := htargets p hp
  refine ⟨⟨hne, ?_, ?_, hline, Bytes.find?_eq_none_iff.1 hunclosed, hshort⟩, isLiteral_iff.2 hliteral⟩
  · intro c hc
    rw [Option.mem_def.1 hc] at hhead
    simpa using hhead
  · intro c hc
    rw [Option.mem_def.1 hc] at hlast
    simpa using hlast

end Seams

/-- Reading finds the directives that were printed, where they were put, and giving each of them a value gives literals
and values in turn. -/
theorem parse_printAll (first : Bytes) (parts : List Part) (path : String) (hfirst : IsLiteral first)
    (hparts : ∀ p ∈ parts, Printable p.kind p.target ∧ IsLiteral p.literal) :
    parse (printAll first parts) path = .ok (spans first.length parts) ∧
      ∀ f : Directive → Bytes, render (printAll first parts) (spans first.length parts) (fun d => .ok (f d))
        = .ok (interleave (first :: parts.map (·.literal)) ((spans first.length parts).map f)) := by
  have hparse : parse (printAll first parts) path = .ok (spans first.length parts) := by
    rw [parse, parseFrom_printAll hfirst hparts, Nat.zero_add]
  refine ⟨hparse, fun f => ?_⟩
  have hgaps := gaps_printAll [] first parts
  rw [List.nil_append, List.length_nil, Nat.zero_add] at hgaps
  rw [← hgaps]
  exact renderFrom_eq_interleave (ordered_of_parse hparse) (Nat.zero_le _)

/-- No token comes about where the pieces meet. -/
theorem parse_printAll_seams : IsLiteral Seams.brace ∧
    (∀ p ∈ Seams.tokens, Printable p.kind p.target ∧ IsLiteral p.literal) ∧
    parse (printAll Seams.brace Seams.tokens) "a.html"
      = .ok [⟨.variable, ":a :", 1, 17⟩, ⟨.path, "\x7b\x7b: b.css", 20, 42⟩] ∧
    render (printAll Seams.brace Seams.tokens) [⟨.variable, ":a :", 1, 17⟩, ⟨.path, "\x7b\x7b: b.css", 20, 42⟩]
      (fun d => .ok (Bytes.ofText d.target)) = .ok (Bytes.ofText "\x7b:a :\x7b\x7b:\x7b\x7b: b.css") := by
  have hfirst : IsLiteral Seams.brace := isLiteral_iff.2 (by decide +kernel)
  obtain ⟨hparse, hrender⟩ := parse_printAll Seams.brace Seams.tokens "a.html" hfirst Seams.printable
  have hspans : spans Seams.brace.length Seams.tokens
      = [⟨.variable, ":a :", 1, 17⟩, ⟨.path, "\x7b\x7b: b.css", 20, 42⟩] := by decide +kernel
  rw [hspans] at hparse hrender
  refine ⟨hfirst, Seams.printable, hparse, (hrender fun d => Bytes.ofText d.target).trans (congrArg Except.ok ?_)⟩
  decide +kernel

end Directive

end HashedAssets
