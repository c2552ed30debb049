import Mathlib.Data.List.Basic
import Mathlib.Data.List.TakeWhile
import HashedAssets.Directive.Parser

/-!
# Where patterns stand

* `Bytes.StandsAt` and `Bytes.FirstFrom`: a pattern stands at an offset, and nowhere before it from some offset
  on; `find?_eq_some_iff`, `findFrom?_eq_some_iff`: this is what a search finds;
* `Bytes.standsAt_firstLine`: a pattern in the first line is one with no newline before its end;
* `Bytes.text?_eq_some_iff`: what can be decoded is what was encoded;
* `Text.Trimmed`: a part that is left when blank characters are taken from both ends;
  `trimmed_iff`: there is one, and trimming gives it.
-/

namespace HashedAssets

namespace Bytes

variable {p b : Bytes} {i k n : Nat}

/-- The pattern stands in the bytes at an offset. -/
def StandsAt (p b : Bytes) (k : Nat) : Prop := p <+: b.drop k

/-- The least offset from `i` on at which the pattern stands. -/
structure FirstFrom (p b : Bytes) (i k : Nat) : Prop where
  le : i ≤ k
  stands : StandsAt p b k
  least : ∀ j, i ≤ j → j < k → ¬ StandsAt p b j

theorem FirstFrom.unique {k' : Nat} (h : FirstFrom p b i k) (h' : FirstFrom p b i k') : k = k' := by
  rcases Nat.lt_trichotomy k k' with hlt | heq | hgt
  · exact absurd h.stands (h'.least k h.le hlt)
  · exact heq
  · exact absurd h'.stands (h.least k' h'.le hgt)

theorem StandsAt.add_length_le (h : StandsAt p b k) (hp : p ≠ []) : k + p.length ≤ b.length := by
  have hle := h.length_le
  have hpos := List.length_pos_iff.2 hp
  rw [List.length_drop] at hle
  omega

theorem standsAt_drop : StandsAt p (b.drop i) k ↔ StandsAt p b (i + k) := by
  rw [StandsAt, StandsAt, List.drop_drop]

/-! ### Searching -/

/-- A search finds the first place, and finds nothing only where there is none. -/
theorem find?_cases (p b : Bytes) : (∃ k, find? p b = some k ∧ FirstFrom p b 0 k) ∨
    find? p b = none ∧ ∀ k, ¬ StandsAt p b k := by
  induction b with
  | nil =>
      by_cases hp : p = []
      · subst hp
        exact .inl ⟨0, rfl, Nat.le_refl 0, List.nil_prefix, fun j _ hj => absurd hj (Nat.not_lt_zero j)⟩
      · refine .inr ⟨by simp [find?, hp], fun k hk => ?_⟩
        have hroom := hk.add_length_le hp
        have hpos := List.length_pos_iff.2 hp
        rw [List.length_nil] at hroom
        omega
  | cons x rest ih =>
      by_cases hp : p <+: x :: rest
      · refine .inl ⟨0, ?_, Nat.le_refl 0, hp, fun j _ hj => absurd hj (Nat.not_lt_zero j)⟩
        rw [find?, if_pos (List.isPrefixOf_iff_prefix.2 hp)]
      · have hfind : find? p (x :: rest) = (find? p rest).map (· + 1) := by
          rw [find?, if_neg (by simpa using hp)]
        rcases ih with ⟨k, hk, hfirst⟩ | ⟨hnone, hnot⟩
        · refine .inl ⟨k + 1, by rw [hfind, hk]; rfl, Nat.zero_le _, hfirst.stands, ?_⟩
          intro j _ hj
          cases j with
          | zero => exact hp
          | succ j => exact hfirst.least j (Nat.zero_le j) (by omega)
        · refine .inr ⟨by rw [hfind, hnone]; rfl, ?_⟩
          intro k
          cases k with
          | zero => exact hp
          | succ k => exact hnot k

theorem find?_eq_some_iff : find? p b = some k ↔ FirstFrom p b 0 k := by
  rcases find?_cases p b with ⟨j, hj, hfirst⟩ | ⟨hnone, hnot⟩
  · rw [hj, Option.some.injEq]
    constructor
    · rintro rfl
      exact hfirst
    · exact fun h => hfirst.unique h
  · simp only [hnone, reduceCtorEq, false_iff]
    exact fun h => hnot k h.stands

theorem find?_eq_none_iff : find? p b = none ↔ ∀ k, ¬ StandsAt p b k := by
  rcases find?_cases p b with ⟨j, hj, hfirst⟩ | ⟨hnone, hnot⟩
  · simp only [hj, reduceCtorEq, false_iff]
    exact fun h => h j hfirst.stands
  · simpa only [hnone, true_iff] using hnot

theorem firstFrom_drop : FirstFrom p (b.drop i) 0 k ↔ FirstFrom p b i (i + k) := by
  constructor
  · intro h
    refine ⟨by omega, standsAt_drop.1 h.stands, fun j hij hj => ?_⟩
    have hnot := h.least (j - i) (Nat.zero_le _) (by omega)
    rwa [standsAt_drop, Nat.add_sub_cancel' hij] at hnot
  · intro h
    refine ⟨Nat.zero_le k, standsAt_drop.2 h.stands, fun j _ hj => ?_⟩
    rw [standsAt_drop]
    exact h.least (i + j) (by omega) (by omega)

theorem findFrom?_eq_some_iff : findFrom? p i b = some k ↔ FirstFrom p b i k := by
  rw [findFrom?, Option.map_eq_some_iff]
  constructor
  · rintro ⟨j, hj, rfl⟩
    rw [Nat.add_comm]
    exact firstFrom_drop.1 (find?_eq_some_iff.1 hj)
  · intro h
    have hk : i + (k - i) = k := Nat.add_sub_cancel' h.le
    refine ⟨k - i, find?_eq_some_iff.2 (firstFrom_drop.2 ?_), by omega⟩
    rwa [hk]

theorem findFrom?_eq_none_iff : findFrom? p i b = none ↔ ∀ k, i ≤ k → ¬ StandsAt p b k := by
  rw [findFrom?, Option.map_eq_none_iff, find?_eq_none_iff]
  constructor
  · intro h k hk
    have hnot := h (k - i)
    rwa [standsAt_drop, Nat.add_sub_cancel' hk] at hnot
  · intro h k
    rw [standsAt_drop]
    exact h (i + k) (Nat.le_add_right i k)

/-! ### Lines -/

/-- A pattern stands in the beginning of some bytes if it stands in them and ends early enough. -/
theorem standsAt_take (hp : p ≠ []) : StandsAt p (b.take n) k ↔ StandsAt p b k ∧ k + p.length ≤ n := by
  constructor
  · intro h
    have hroom := h.add_length_le hp
    rw [List.length_take] at hroom
    refine ⟨h.trans ?_, by omega⟩
    rw [List.drop_take]
    exact List.take_prefix _ _
  · rintro ⟨h, hn⟩
    rw [StandsAt, List.drop_take, List.prefix_take_iff]
    exact ⟨h, by omega⟩

/-- So much of the first line: bytes that are there and are no newline. -/
theorem le_length_firstLine : n ≤ (firstLine b).length ↔ n ≤ b.length ∧ ∀ j < n, b[j]? ≠ some 10 := by
  induction b generalizing n with
  | nil =>
      simp only [firstLine, List.takeWhile_nil, List.length_nil, List.getElem?_nil]
      simp
  | cons x rest ih =>
      cases n with
      | zero => simp
      | succ n =>
          -- the line ends at once, or is longer by one than that of the rest
          by_cases hx : x = 10
          · subst hx
            simp only [firstLine, List.takeWhile_cons, bne_self_eq_false, Bool.false_eq_true, if_false,
              List.length_nil]
            constructor
            · intro h
              omega
            · rintro ⟨-, h⟩
              exact absurd rfl (h 0 (Nat.succ_pos n))
          · have hline : firstLine (x :: rest) = x :: firstLine rest := by
              simp [firstLine, hx]
            rw [hline, List.length_cons, List.length_cons, Nat.add_le_add_iff_right,
              Nat.add_le_add_iff_right, ih]
            refine and_congr_right fun _ => ?_
            constructor
            · intro h j hj
              cases j with
              | zero => simpa using hx
              | succ j => simpa using h j (by omega)
            · intro h j hj
              simpa using h (j + 1) (by omega)

/-- The first line is the beginning of the bytes. -/
theorem firstLine_eq_take (b : Bytes) : firstLine b = b.take (firstLine b).length :=
  List.prefix_iff_eq_take.1 (List.takeWhile_prefix _)

/-- A pattern stands in the first line if it stands in the bytes with no newline before its end. -/
theorem standsAt_firstLine (hp : p ≠ []) :
    StandsAt p (firstLine b) k ↔ StandsAt p b k ∧ ∀ j < k + p.length, b[j]? ≠ some 10 := by
  rw [firstLine_eq_take, standsAt_take hp, le_length_firstLine]
  constructor
  · rintro ⟨h, -, hline⟩
    exact ⟨h, hline⟩
  · rintro ⟨h, hline⟩
    exact ⟨h, h.add_length_le hp, hline⟩

/-! ### Text -/

theorem text?_eq_some_iff {s : String} : text? b = some s ↔ b = ofText s := by
  constructor
  · intro h
    unfold text? String.fromUTF8? at h
    split at h
    · cases h
      simp [ofText, String.fromUTF8]
    · cases h
  · rintro rfl
    exact text?_ofText s

end Bytes

namespace Text

variable {cs ts : List Char}

/-- What is left when blank characters are taken from both ends as long as there are any. -/
structure Trimmed (cs ts : List Char) : Prop where
  split : ∃ front back, cs = front ++ ts ++ back ∧ (∀ c ∈ front, isBlank c) ∧ ∀ c ∈ back, isBlank c
  head : ∀ c ∈ ts.head?, isBlank c = false
  last : ∀ c ∈ ts.getLast?, isBlank c = false

theorem trimmed_self (hhead : ∀ c ∈ cs.head?, isBlank c = false) (hlast : ∀ c ∈ cs.getLast?, isBlank c = false) :
    Trimmed cs cs :=
  ⟨⟨[], [], by simp, by simp, by simp⟩, hhead, hlast⟩

theorem head?_dropWhile_not_blank {c : Char} (h : c ∈ (cs.dropWhile isBlank).head?) : isBlank c = false := by
  have hhead := List.head?_dropWhile_not isBlank cs
  rw [Option.mem_def.1 h] at hhead
  simpa using hhead

theorem trimmed_trimChars (cs : List Char) : Trimmed cs (trimChars cs) := by
  have hfront : cs = cs.takeWhile isBlank ++ cs.dropWhile isBlank := List.takeWhile_append_dropWhile.symm
  generalize hmiddle : cs.dropWhile isBlank = middle at hfront
  have hback : middle = (middle.reverse.dropWhile isBlank).reverse
      ++ (middle.reverse.takeWhile isBlank).reverse := by
    rw [← List.reverse_append, List.takeWhile_append_dropWhile, List.reverse_reverse]
  have hts : trimChars cs = (middle.reverse.dropWhile isBlank).reverse := by rw [trimChars, hmiddle]
  rw [hts]
  constructor
  · refine ⟨cs.takeWhile isBlank, (middle.reverse.takeWhile isBlank).reverse, ?_, ?_, ?_⟩
    · rw [List.append_assoc, ← hback, ← hfront]
    · exact fun c hc => List.mem_takeWhile_imp hc
    · exact fun c hc => List.mem_takeWhile_imp (List.mem_reverse.1 hc)
  · intro c hc
    -- what is left begins as the part behind the blanks in front does
    have hmem : c ∈ (cs.dropWhile isBlank).head? := by
      rw [hmiddle, hback]
      exact List.mem_head?_append_of_mem_head? hc
    exact head?_dropWhile_not_blank hmem
  · intro c hc
    rw [List.getLast?_reverse] at hc
    exact head?_dropWhile_not_blank hc

theorem dropWhile_blank_append {front : List Char} (hfront : ∀ c ∈ front, isBlank c)
    (hts : ∀ c ∈ ts.head?, isBlank c = false) : (front ++ ts).dropWhile isBlank = ts := by
  rw [List.dropWhile_append_of_pos hfront, dropWhile_eq_self hts]

theorem Trimmed.eq_trimChars (h : Trimmed cs ts) : ts = trimChars cs := by
  obtain ⟨⟨front, back, rfl, hfront, hback⟩, hhead, hlast⟩ := h
  by_cases hts : ts = []
  · subst hts
    have hall : ∀ c ∈ front ++ [] ++ back, isBlank c := by
      intro c hc
      rw [List.append_nil, List.mem_append] at hc
      exact hc.elim (hfront c) (hback c)
    rw [trimChars, List.dropWhile_eq_nil_iff.2 hall]
    rfl
  · have hdrop : (front ++ ts ++ back).dropWhile isBlank = ts ++ back := by
      rw [List.append_assoc]
      refine dropWhile_blank_append hfront fun c hc => hhead c ?_
      rwa [List.head?_append_of_ne_nil _ hts] at hc
    have hdrop' : (back.reverse ++ ts.reverse).dropWhile isBlank = ts.reverse := by
      refine dropWhile_blank_append (fun c hc => hback c (List.mem_reverse.1 hc)) fun c hc => hlast c ?_
      rwa [List.head?_reverse] at hc
    rw [trimChars, hdrop, List.reverse_append, hdrop', List.reverse_reverse]

theorem trimmed_iff : Trimmed cs ts ↔ ts = trimChars cs := by
  constructor
  · exact Trimmed.eq_trimChars
  · rintro rfl
    exact trimmed_trimChars cs

end Text

end HashedAssets
