import HashedAssets.Proofs.Directive.Tokens

/-!
# The grammar of directives

What a directive is, said without a parser, and that the parser reads just this.

* `Names`: bytes that name a kind and a target; `readBody_eq_ok_iff`: such a body is read;
* `ClosesAt`, `WellFormed`: what an opening token has to have behind it; `readAt_eq_ok_iff`: such a directive is
  read; `Refused`, `refused_of_readAt`: what is told of any other;
* `Reached`: the opening tokens that a scan comes to; `Scanned`, `Stuck`: how it ends, `parseFrom_cases`: one way
  or the other;
* `parse_iff_wellFormed`: the parser accepts what is well formed wherever a scan comes to, gives the `Inventory` of
  it, and tells the first token that is not.
-/

namespace HashedAssets

namespace Directive

variable {raw : Bytes} {path : String} {i s c : Nat} {kind : DirectiveKind} {target : String}
  {reason : SyntaxFault} {ds : List Directive}

/-! ### Directives that are well formed -/

/-- The bytes are a text that, trimmed, has the word of a kind before its first colon and a target behind it,
both trimmed. -/
def Names (body : Bytes) (kind : DirectiveKind) (target : String) : Prop :=
  ∃ (text : String) (front back : List Char), body = Bytes.ofText text ∧
    Text.Trimmed text.toList (front ++ ':' :: back) ∧ ':' ∉ front ∧
    Text.Trimmed front kind.word.toList ∧ Text.Trimmed back target.toList ∧ target ≠ ""

/-- A closing token stands at `c` on the line of an opening one at `s`. The two may share the space between
them. -/
structure ClosesAt (raw : Bytes) (s c : Nat) : Prop where
  behind : s + 3 ≤ c
  stands : Bytes.StandsAt closing raw c
  line : ∀ j, s ≤ j → j < c + 4 → raw[j]? ≠ some 10

/-- The opening token at `s` begins a directive: the first closing token behind it, at `c`, ends on the same line
and within the limit, and what stands between the two names a kind and a target. -/
structure WellFormed (raw : Bytes) (s c : Nat) (kind : DirectiveKind) (target : String) : Prop where
  closes : Bytes.FirstFrom closing raw (s + 3) c
  line : ∀ j, s ≤ j → j < c + 4 → raw[j]? ≠ some 10
  short : c + 4 - s ≤ 256
  names : Names ((raw.take c).drop (s + 4)) kind target

/-- The opening tokens that a scan from `i` on comes to: the first one, and, if that begins a directive, those
that a scan from the end of the directive comes to. -/
inductive Reached (raw : Bytes) : Nat → Nat → Prop
  | first {i s : Nat} (hs : Bytes.FirstFrom opening raw i s) : Reached raw i s
  | later {i s c t : Nat} {kind : DirectiveKind} {target : String} (hs : Bytes.FirstFrom opening raw i s)
      (hd : WellFormed raw s c kind target) (ht : Reached raw (c + 4) t) : Reached raw i t

/-! ### Bodies -/

theorem word_of_ofWord? {word : String} (h : DirectiveKind.ofWord? word = some kind) : kind.word = word := by
  unfold DirectiveKind.ofWord? at h
  split at h <;> cases h <;> rfl

section Split

variable {text : String} {front back : List Char} (hfront : ':' ∉ front)
include hfront

theorem ne_colon_of_mem : ∀ c ∈ front, (c != ':') = true := by
  intro c hc
  rw [bne_iff_ne]
  rintro rfl
  exact hfront hc

/-- A body with a colon in it is read by what stands in front of the first one and behind it. -/
theorem readBody_of_split (htrim : Text.trimChars text.toList = front ++ ':' :: back) :
    readBody (Bytes.ofText text) = .ok (kind, target) ↔
      DirectiveKind.ofWord? (String.ofList (Text.trimChars front)) = some kind ∧
        String.ofList (Text.trimChars back) = target ∧ target ≠ "" := by
  have htake : (front ++ ':' :: back).takeWhile (· != ':') = front := by
    rw [List.takeWhile_append_of_pos (ne_colon_of_mem hfront), List.takeWhile_cons]
    simp
  have hdrop : (front ++ ':' :: back).dropWhile (· != ':') = ':' :: back := by
    rw [List.dropWhile_append_of_pos (ne_colon_of_mem hfront), List.dropWhile_cons]
    simp
  have hcolon : (front ++ ':' :: back).contains ':' = true := by simp
  have hne : front ++ ':' :: back ≠ [] := by simp
  unfold readBody
  rw [Bytes.text?_ofText]
  simp only [htrim, htake, hdrop, hcolon, hne, if_false, Bool.not_true, Bool.false_eq_true,
    List.drop_one, List.tail_cons]
  cases DirectiveKind.ofWord? (String.ofList (Text.trimChars front)) with
  | none => simp
  | some k =>
      by_cases htarget : String.ofList (Text.trimChars back) = ""
      · simp only [htarget, if_true, reduceCtorEq, Option.some.injEq, false_iff]
        rintro ⟨-, rfl, hnot⟩
        exact hnot rfl
      · simp only [htarget, if_false, Except.ok.injEq, Prod.mk.injEq, Option.some.injEq]
        constructor
        · rintro ⟨rfl, rfl⟩
          exact ⟨rfl, rfl, htarget⟩
        · rintro ⟨rfl, rfl, -⟩
          exact ⟨rfl, rfl⟩

end Split

/-- A body that is read is a text with a colon in it. -/
theorem exists_split_of_readBody {body : Bytes} {kt : DirectiveKind × String}
    (h : readBody body = .ok kt) : ∃ (text : String) (front back : List Char), body = Bytes.ofText text ∧
      Text.trimChars text.toList = front ++ ':' :: back ∧ ':' ∉ front := by
  unfold readBody at h
  split at h
  · cases h
  · next text htext =>
      dsimp only at h
      split at h
      · cases h
      · split at h
        · cases h
        · next hcolon =>
            have hmem : ':' ∈ Text.trimChars text.toList := by simpa using hcolon
            obtain ⟨front, back, heq, hfront⟩ := List.eq_append_cons_of_mem hmem
            exact ⟨text, front, back, Bytes.text?_eq_some_iff.1 htext, heq, hfront⟩

/-- A body is read if it names a kind and a target, and then as these. -/
theorem readBody_eq_ok_iff {body : Bytes} : readBody body = .ok (kind, target) ↔ Names body kind target := by
  constructor
  · intro h
    obtain ⟨text, front, back, rfl, htrim, hfront⟩ := exists_split_of_readBody h
    obtain ⟨hkind, rfl, htarget⟩ := (readBody_of_split hfront htrim).1 h
    refine ⟨text, front, back, rfl, Text.trimmed_iff.2 htrim.symm, hfront, ?_, ?_, htarget⟩
    · rw [Text.trimmed_iff, word_of_ofWord? hkind, String.toList_ofList]
    · rw [Text.trimmed_iff, String.toList_ofList]
  · rintro ⟨text, front, back, rfl, htrim, hfront, hword, hback, htarget⟩
    rw [readBody_of_split hfront htrim.eq_trimChars.symm, ← hword.eq_trimChars, ← hback.eq_trimChars,
      String.ofList_toList, String.ofList_toList]
    exact ⟨DirectiveKind.ofWord?_word kind, rfl, htarget⟩

theorem Names.unique {body : Bytes} {kind' : DirectiveKind} {target' : String} (h : Names body kind target)
    (h' : Names body kind' target') : kind = kind' ∧ target = target' := by
  rw [← readBody_eq_ok_iff] at h h'
  rw [h] at h'
  simpa using h'

/-- What is wrong with a body is told apart from what is wrong with the tokens. -/
theorem readBody_error_ne {body : Bytes} (h : readBody body = .error reason) :
    reason ≠ .unterminated ∧ reason ≠ .tooLong := by
  unfold readBody at h
  split at h
  · cases h
    simp
  · dsimp only at h
    repeat' split at h
    all_goals cases h <;> simp

/-! ### The line of an opening token -/

theorem closing_ne_nil : closing ≠ [] := List.cons_ne_nil _ _

/-- A closing token stands in the line at `s` if it closes what is opened there. -/
theorem closesAt_iff {k : Nat} : ClosesAt raw s (s + k) ↔
    3 ≤ k ∧ Bytes.StandsAt closing (Bytes.firstLine (raw.drop s)) k := by
  rw [Bytes.standsAt_firstLine closing_ne_nil, Bytes.standsAt_drop]
  constructor
  · intro h
    refine ⟨by have := h.behind; omega, h.stands, fun j hj => ?_⟩
    rw [List.getElem?_drop]
    exact h.line (s + j) (Nat.le_add_right s j) (by simp [closing] at hj; omega)
  · rintro ⟨hk, hstands, hline⟩
    refine ⟨by omega, hstands, fun j hsj hj => ?_⟩
    have hnot := hline (j - s) (by simp [closing]; omega)
    rwa [List.getElem?_drop, Nat.add_sub_cancel' hsj] at hnot

theorem exists_add_of_closesAt (h : ClosesAt raw s c) : ∃ k, c = s + k :=
  Nat.exists_eq_add_of_le (by have := h.behind; omega)

/-- The search in the line finds nothing only where nothing closes. -/
theorem closeIn?_eq_none_iff :
    closeIn? (Bytes.firstLine (raw.drop s)) = none ↔ ∀ c, ¬ ClosesAt raw s c := by
  rw [closeIn?, Bytes.findFrom?_eq_none_iff]
  constructor
  · intro h c hc
    obtain ⟨k, rfl⟩ := exists_add_of_closesAt hc
    obtain ⟨hk, hstands⟩ := closesAt_iff.1 hc
    exact h k hk hstands
  · intro h k hk hstands
    exact h (s + k) (closesAt_iff.2 ⟨hk, hstands⟩)

theorem standsAt_take_line {k : Nat} (hk : 3 ≤ k) :
    Bytes.StandsAt closing ((Bytes.firstLine (raw.drop s)).take maxLength) k ↔
      ClosesAt raw s (s + k) ∧ k + 4 ≤ 256 := by
  rw [Bytes.standsAt_take closing_ne_nil, closesAt_iff]
  constructor
  · rintro ⟨hstands, hshort⟩
    exact ⟨⟨hk, hstands⟩, hshort⟩
  · rintro ⟨⟨-, hstands⟩, hshort⟩
    exact ⟨hstands, hshort⟩

theorem closeIn?_take_eq_none_iff :
    closeIn? ((Bytes.firstLine (raw.drop s)).take maxLength) = none ↔
      ∀ c, ClosesAt raw s c → 256 < c + 4 - s := by
  rw [closeIn?, Bytes.findFrom?_eq_none_iff]
  constructor
  · intro h c hc
    obtain ⟨k, rfl⟩ := exists_add_of_closesAt hc
    have hk : 3 ≤ k := (closesAt_iff.1 hc).1
    by_contra hshort
    exact h k hk ((standsAt_take_line hk).2 ⟨hc, by omega⟩)
  · intro h k hk hstands
    obtain ⟨hc, hshort⟩ := (standsAt_take_line hk).1 hstands
    have hlong := h (s + k) hc
    omega

/-- The search finds the first closing token, if it ends on the line and within the limit. -/
theorem closeIn?_take_eq_some_iff {k : Nat} :
    closeIn? ((Bytes.firstLine (raw.drop s)).take maxLength) = some k ↔
      Bytes.FirstFrom closing raw (s + 3) (s + k) ∧ ClosesAt raw s (s + k) ∧ k + 4 ≤ 256 := by
  rw [closeIn?, Bytes.findFrom?_eq_some_iff]
  constructor
  · intro h
    obtain ⟨hc, hshort⟩ := (standsAt_take_line h.le).1 h.stands
    refine ⟨⟨hc.behind, hc.stands, fun j hj hjk hstands => ?_⟩, hc, hshort⟩
    -- a token before it would end on the line and within the limit as well
    obtain ⟨m, rfl⟩ := Nat.exists_eq_add_of_le (show s ≤ j by omega)
    have hcm : ClosesAt raw s (s + m) :=
      ⟨hj, hstands, fun n hn hnm => hc.line n hn (by omega)⟩
    exact h.least m (by omega) (by omega) ((standsAt_take_line (by omega)).2 ⟨hcm, by omega⟩)
  · rintro ⟨hfirst, hc, hshort⟩
    have hk : 3 ≤ k := (closesAt_iff.1 hc).1
    refine ⟨hk, (standsAt_take_line hk).2 ⟨hc, hshort⟩, fun m hm hmk hstands => ?_⟩
    have hcm := ((standsAt_take_line hm).1 hstands).1
    exact hfirst.least (s + m) hcm.behind (by omega) hcm.stands

/-- The bytes between the tokens, taken from the line. -/
theorem body_eq {k : Nat} (h : ClosesAt raw s (s + k)) :
    ((Bytes.firstLine (raw.drop s)).take k).drop opening.length = (raw.take (s + k)).drop (s + 4) := by
  have hroom := (closesAt_iff.1 h).2.add_length_le closing_ne_nil
  have hcut : (raw.take (s + k)).drop s = (raw.drop s).take k := by
    rw [List.drop_take, Nat.add_sub_cancel_left]
  rw [Bytes.firstLine_eq_take, List.take_take, Nat.min_eq_left (by omega), ← List.drop_drop, hcut]
  rfl

/-! ### One directive -/

/-- The directive at an opening token is read if it is well formed, and then as the grammar has it. -/
theorem readAt_eq_ok_iff {n : Nat} :
    readAt (Bytes.firstLine (raw.drop s)) = .ok (kind, target, n) ↔
      ∃ c, s + n = c + 4 ∧ WellFormed raw s c kind target := by
  constructor
  · intro h
    unfold readAt at h
    split at h
    · cases h
    · next k hk =>
        obtain ⟨hfirst, hc, hshort⟩ := closeIn?_take_eq_some_iff.1 hk
        rw [body_eq hc] at h
        cases hbody : readBody ((raw.take (s + k)).drop (s + 4)) with
        | error reason => rw [hbody] at h; cases h
        | ok kt =>
            rw [hbody] at h
            cases h
            refine ⟨s + k, by rw [Nat.add_assoc]; rfl, hfirst, hc.line, by omega, ?_⟩
            exact readBody_eq_ok_iff.1 hbody
  · rintro ⟨c, hn, hd⟩
    obtain ⟨k, rfl⟩ := Nat.exists_eq_add_of_le (show s ≤ c by have := hd.closes.le; omega)
    have hc : ClosesAt raw s (s + k) := ⟨hd.closes.le, hd.closes.stands, hd.line⟩
    have hshort := hd.short
    have hk := closeIn?_take_eq_some_iff.2 ⟨hd.closes, hc, by omega⟩
    have hn : n = k + closing.length := by simp [closing]; omega
    unfold readAt
    split
    · next hnone => rw [hnone] at hk; cases hk
    · next k' hk' =>
        obtain rfl : k' = k := Option.some.inj (hk'.symm.trans hk)
        rw [body_eq hc, readBody_eq_ok_iff.2 hd.names, hn]
        rfl

/-- What is told of an opening token that begins no directive. -/
structure Refused (raw : Bytes) (s : Nat) (reason : SyntaxFault) : Prop where
  illFormed : ∀ c kind target, ¬ WellFormed raw s c kind target
  unterminated : reason = .unterminated ↔ ∀ c, ¬ ClosesAt raw s c
  tooLong : reason = .tooLong ↔ (∃ c, ClosesAt raw s c) ∧ ∀ c, ClosesAt raw s c → 256 < c + 4 - s

theorem refused_of_readAt (h : readAt (Bytes.firstLine (raw.drop s)) = .error reason) :
    Refused raw s reason := by
  -- reading fails in one way only, so what is well formed is not refused
  have hill : ∀ c kind target, ¬ WellFormed raw s c kind target := by
    intro c kind target hd
    have hle := hd.closes.le
    have hok := readAt_eq_ok_iff.2 ⟨c, show s + (c + 4 - s) = c + 4 by omega, hd⟩
    rw [h] at hok
    cases hok
  unfold readAt at h
  split at h
  · next hnone =>
      have hlong := closeIn?_take_eq_none_iff.1 hnone
      cases hline : closeIn? (Bytes.firstLine (raw.drop s)) with
      | none =>
          rw [hline] at h
          cases h
          have hnot := closeIn?_eq_none_iff.1 hline
          exact ⟨hill, by simpa using hnot, by simpa using fun c hc => absurd hc (hnot c)⟩
      | some k =>
          rw [hline] at h
          cases h
          have hex : ∃ c, ClosesAt raw s c := by
            by_contra hnot
            rw [closeIn?_eq_none_iff.2 (not_exists.1 hnot)] at hline
            cases hline
          exact ⟨hill, by simpa using hex, by simpa using ⟨hex, hlong⟩⟩
  · next k hk =>
      obtain ⟨-, hc, hshort⟩ := closeIn?_take_eq_some_iff.1 hk
      cases hbody : readBody (((Bytes.firstLine (raw.drop s)).take k).drop opening.length) with
      | ok kt => rw [hbody] at h; cases h
      | error reason' =>
          rw [hbody] at h
          cases h
          obtain ⟨hne, hne'⟩ := readBody_error_ne hbody
          refine ⟨hill, iff_of_false hne fun hnot => hnot _ hc, iff_of_false hne' ?_⟩
          rintro ⟨-, hlong⟩
          have := hlong _ hc
          omega

/-! ### All directives -/

/-- The directives that a scan from `i` on finds, where nothing is wrong. -/
inductive Scanned (raw : Bytes) : Nat → List Directive → Prop
  | done {i : Nat} (hnone : ∀ s, i ≤ s → ¬ Bytes.StandsAt opening raw s) : Scanned raw i []
  | directive {i s c : Nat} {kind : DirectiveKind} {target : String} {ds : List Directive}
      (hs : Bytes.FirstFrom opening raw i s) (hd : WellFormed raw s c kind target)
      (hrest : Scanned raw (c + 4) ds) :
      Scanned raw i (⟨kind, target, (s : Nat), (c + 4 : Nat)⟩ :: ds)

/-- A scan from `i` on ends at `s`, where no directive begins. -/
inductive Stuck (raw : Bytes) (reason : SyntaxFault) : Nat → Nat → Prop
  | here {i s : Nat} (hs : Bytes.FirstFrom opening raw i s) (hr : Refused raw s reason) :
      Stuck raw reason i s
  | later {i s c t : Nat} {kind : DirectiveKind} {target : String}
      (hs : Bytes.FirstFrom opening raw i s) (hd : WellFormed raw s c kind target)
      (ht : Stuck raw reason (c + 4) t) : Stuck raw reason i t

/-- All that reading directives can come to. -/
theorem parseFrom_cases (raw : Bytes) (path : String) (i : Nat) :
    (∃ ds, parseFrom path i (raw.drop i) = .ok ds ∧ Scanned raw i ds) ∨
      ∃ s reason, parseFrom path i (raw.drop i) = .error (.malformed path s reason) ∧
        Stuck raw reason i s := by
  -- on the bytes that are left: a directive takes at least its closing token
  generalize hm : raw.length - i = m
  induction m using Nat.strong_induction_on generalizing i with
  | _ m ih =>
    subst hm
    rw [parseFrom]
    split
    · next hnone =>
        refine .inl ⟨[], rfl, .done fun s hs hstands => ?_⟩
        have hnot := Bytes.find?_eq_none_iff.1 hnone (s - i)
        rw [Bytes.standsAt_drop, Nat.add_sub_cancel' hs] at hnot
        exact hnot hstands
    · next k hk =>
        have hs := Bytes.firstFrom_drop.1 (Bytes.find?_eq_some_iff.1 hk)
        split
        · next reason hread =>
            rw [List.drop_drop] at hread
            exact .inr ⟨i + k, reason, rfl, .here hs (refused_of_readAt hread)⟩
        · next kind target n hread =>
            rw [List.drop_drop] at hread
            obtain ⟨c, hn, hd⟩ := readAt_eq_ok_iff.1 hread
            have hroom := hd.closes.stands.add_length_le closing_ne_nil
            have hle := hd.closes.le
            have hlength : closing.length = 4 := rfl
            rw [List.drop_drop, ← Nat.add_assoc, hn]
            rcases ih (raw.length - (c + 4)) (by omega) (c + 4) rfl with
              ⟨ds, hds, hscan⟩ | ⟨t, reason, herr, hstuck⟩
            · rw [hds]
              exact .inl ⟨_, rfl, .directive hs hd hscan⟩
            · rw [herr]
              exact .inr ⟨t, reason, rfl, .later hs hd hstuck⟩

/-- The grammar is not ambiguous. -/
theorem WellFormed.unique {c' : Nat} {kind' : DirectiveKind} {target' : String}
    (h : WellFormed raw s c kind target) (h' : WellFormed raw s c' kind' target') :
    c = c' ∧ kind = kind' ∧ target = target' := by
  obtain rfl := h.closes.unique h'.closes
  exact ⟨rfl, h.names.unique h'.names⟩

/-- What is reached behind a directive is what a scan from its end reaches. -/
theorem reached_iff (hs : Bytes.FirstFrom opening raw i s) (hd : WellFormed raw s c kind target) {t : Nat} :
    Reached raw i t ↔ t = s ∨ Reached raw (c + 4) t := by
  constructor
  · intro h
    cases h with
    | first hs' => exact .inl (hs'.unique hs)
    | later hs' hd' ht =>
        obtain rfl := hs'.unique hs
        obtain rfl := (hd.unique hd').1
        exact .inr ht
  · rintro (rfl | ht)
    · exact .first hs
    · exact .later hs hd ht

theorem Reached.le {t : Nat} (h : Reached raw i t) : i ≤ t := by
  induction h with
  | first hs => exact hs.le
  | later hs hd _ ih =>
      have h₁ := hs.le
      have h₂ := hd.closes.le
      omega

namespace Scanned

/-- What is found begins at the opening tokens that are reached. -/
theorem reached_iff (h : Scanned raw i ds) : Reached raw i s ↔ ∃ d ∈ ds, d.start = s := by
  induction h with
  | done hnone =>
      constructor
      · rintro (hs | ⟨hs, -, -⟩)
        · exact absurd hs.stands (hnone _ hs.le)
        · exact absurd hs.stands (hnone _ hs.le)
      · rintro ⟨d, hd, -⟩
        cases hd
  | directive hs hd _ ih =>
      rw [Directive.reached_iff hs hd, ih]
      simp only [List.exists_mem_cons_iff, Int.natCast_inj, eq_comm]

theorem wellFormed (h : Scanned raw i ds) {d : Directive} (hd : d ∈ ds) : ∃ s c : Nat,
    d.start = s ∧ d.stop = (c + 4 : Nat) ∧ WellFormed raw s c d.kind d.target := by
  induction h with
  | done => cases hd
  | directive _ hwell _ ih =>
      rcases List.mem_cons.1 hd with rfl | hd
      · exact ⟨_, _, rfl, rfl, hwell⟩
      · exact ih hd

theorem le_start (h : Scanned raw i ds) {d : Directive} (hd : d ∈ ds) : (i : Int) ≤ d.start := by
  obtain ⟨s, -, hs, -⟩ := h.wellFormed hd
  have hle := (h.reached_iff.2 ⟨d, hd, hs⟩).le
  omega

theorem pairwise (h : Scanned raw i ds) : ds.Pairwise fun d e => d.stop ≤ e.start := by
  induction h with
  | done => exact List.Pairwise.nil
  | directive _ _ hrest ih => exact List.pairwise_cons.2 ⟨fun e he => hrest.le_start he, ih⟩

/-- Each opening token stands in a span. -/
theorem exists_span (h : Scanned raw i ds) {k : Nat} (hk : i ≤ k)
    (hstands : Bytes.StandsAt opening raw k) : ∃ d ∈ ds, d.start ≤ k ∧ (k : Int) < d.stop := by
  induction h with
  | done hnone => exact absurd hstands (hnone k hk)
  | @directive i s c _ _ _ hs _ _ ih =>
      by_cases hc : c + 4 ≤ k
      · obtain ⟨d, hd, hspan⟩ := ih hc
        exact ⟨d, List.mem_cons_of_mem _ hd, hspan⟩
      · have hsk : s ≤ k := by
          by_contra hlt
          exact hs.least k hk (by omega) hstands
        exact ⟨_, List.mem_cons_self, by simp only []; omega, by simp only []; omega⟩

end Scanned

namespace Stuck

theorem reached (h : Stuck raw reason i s) : Reached raw i s := by
  induction h with
  | here hs _ => exact .first hs
  | later hs hd _ ih => exact .later hs hd ih

theorem refused (h : Stuck raw reason i s) : Refused raw s reason := by
  induction h with
  | here _ hr => exact hr
  | later _ _ _ ih => exact ih

/-- It is the first such token that is reached. -/
theorem wellFormed_of_lt (h : Stuck raw reason i s) {t : Nat} (ht : Reached raw i t) (hlt : t < s) :
    ∃ c kind target, WellFormed raw t c kind target := by
  induction h with
  | here hs hr =>
      cases ht with
      | first hs' =>
          obtain rfl := hs'.unique hs
          omega
      | later hs' hd _ =>
          obtain rfl := hs'.unique hs
          exact absurd hd (hr.illFormed _ _ _)
  | later hs hd _ ih =>
      rcases (reached_iff hs hd).1 ht with rfl | ht
      · exact ⟨_, _, _, hd⟩
      · exact ih ht hlt

end Stuck

/-! ### The parser and the grammar -/

/-- The directives of the grammar: those at the opening tokens that are reached, in ascending order, with no
opening token outside of their spans. -/
structure Inventory (raw : Bytes) (ds : List Directive) : Prop where
  reached : ∀ s : Nat, Reached raw 0 s ↔ ∃ d ∈ ds, d.start = s
  wellFormed : ∀ d ∈ ds, ∃ s c : Nat, d.start = s ∧ d.stop = (c + 4 : Nat) ∧
    WellFormed raw s c d.kind d.target
  ascending : ds.Pairwise fun d e => d.stop ≤ e.start
  covered : ∀ k : Nat, Bytes.StandsAt opening raw k → ∃ d ∈ ds, d.start ≤ k ∧ (k : Int) < d.stop

/-- The parser gives directives exactly where every opening token that a scan comes to begins one, and then gives
all of them. Else it tells the first token that does not, and says whether its line has no closing token, or has
one too far away. -/
theorem parse_iff_wellFormed (raw : Bytes) (path : String) :
    ((∃ ds, parse raw path = .ok ds) ↔
      ∀ s, Reached raw 0 s → ∃ c kind target, WellFormed raw s c kind target) ∧
    (∀ ds, parse raw path = .ok ds → Inventory raw ds) ∧
    ∀ f, parse raw path = .error f → ∃ s reason, f = .malformed path s reason ∧
      Reached raw 0 s ∧ Refused raw s reason ∧
      ∀ t < s, Reached raw 0 t → ∃ c kind target, WellFormed raw t c kind target := by
  have hparse : parse raw path = parseFrom path 0 (raw.drop 0) := rfl
  rcases parseFrom_cases raw path 0 with ⟨ds, hds, hscan⟩ | ⟨s, reason, herr, hstuck⟩
  · rw [hparse, hds]
    refine ⟨⟨fun _ s hs => ?_, fun _ => ⟨ds, rfl⟩⟩, ?_, ?_⟩
    · obtain ⟨d, hd, hstart⟩ := hscan.reached_iff.1 hs
      obtain ⟨s', c, hs', -, hwell⟩ := hscan.wellFormed hd
      obtain rfl : s' = s := by omega
      exact ⟨c, _, _, hwell⟩
    · rintro _ ⟨⟩
      exact ⟨fun s => hscan.reached_iff, fun d hd => hscan.wellFormed hd, hscan.pairwise,
        fun k hk => hscan.exists_span (Nat.zero_le k) hk⟩
    · rintro f ⟨⟩
  · rw [hparse, herr]
    refine ⟨⟨?_, fun h => ?_⟩, ?_, ?_⟩
    · rintro ⟨ds, ⟨⟩⟩
    · obtain ⟨c, kind, target, hd⟩ := h s hstuck.reached
      exact absurd hd (hstuck.refused.illFormed c kind target)
    · rintro ds ⟨⟩
    · rintro _ ⟨⟩
      exact ⟨s, reason, rfl, hstuck.reached, hstuck.refused, fun t ht h => hstuck.wellFormed_of_lt h ht⟩

end Directive

end HashedAssets
