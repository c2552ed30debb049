import HashedAssets.Encoding.Base64Url
import Mathlib.Data.List.Basic

/-!
# Reading URL-safe base64

Without padding a text still tells how many bytes it stands for, since one byte more never gives the same number of
letters.

* `letter_inj`, `letter_mem_alphabet`: the letters of numbers;
* `mem_alphabet`, `length_letters`: the letters of a byte string, and how many there are;
* `letters_injective`: two byte strings do not have the same letters;
* `not_mem_toList_encode`, `length_encode`, `encode_inj`: the same of texts.
-/

namespace HashedAssets.Base64Url

/-! ### One letter -/

theorem letter_mem_alphabet (n : Nat) : letter n ∈ alphabet := by
  have hall : ∀ m < 64, alphabet.getD m 'A' ∈ alphabet := by decide +kernel
  exact hall _ (Nat.mod_lt n (by decide))

/-- The place of a letter in the alphabet is the number that it stands for. -/
theorem idxOf_letter {n : Nat} (h : n < 64) : alphabet.idxOf (letter n) = n := by
  have hall : ∀ m < 64, alphabet.idxOf (letter m) = m := by decide +kernel
  exact hall n h

theorem letter_inj {m n : Nat} (hm : m < 64) (hn : n < 64) : letter m = letter n ↔ m = n := by
  refine ⟨fun h => ?_, fun h => h ▸ rfl⟩
  rw [← idxOf_letter hm, h, idxOf_letter hn]

/-! ### All letters -/

theorem mem_alphabet (b : Bytes) : ∀ c ∈ letters b, c ∈ alphabet := by
  induction b using letters.induct with
  | case1 x y z rest ih => simpa [letters, letter_mem_alphabet] using ih
  | case2 x y => simp [letters, letter_mem_alphabet]
  | case3 x => simp [letters, letter_mem_alphabet]
  | case4 => simp [letters]

theorem length_letters (b : Bytes) : (letters b).length = (4 * b.length + 2) / 3 := by
  induction b using letters.induct with
  | case1 x y z rest ih =>
      simp only [letters, List.length_cons, ih]
      omega
  | case2 x y => simp [letters]
  | case3 x => simp [letters]
  | case4 => simp [letters]

/-- As many letters as these are those of as many bytes. -/
theorem length_eq_of_letters_eq {b b' : Bytes} (h : letters b = letters b') : b.length = b'.length := by
  have hlength := congrArg List.length h
  rw [length_letters, length_letters] at hlength
  omega

/-- The four numbers below sixty-four that three bytes are cut into tell the bytes. -/
theorem bytes_eq {x y z x' y' z' : UInt8} (h₁ : letter (x.toNat / 4) = letter (x'.toNat / 4))
    (h₂ : letter (x.toNat % 4 * 16 + y.toNat / 16) = letter (x'.toNat % 4 * 16 + y'.toNat / 16))
    (h₃ : letter (y.toNat % 16 * 4 + z.toNat / 64) = letter (y'.toNat % 16 * 4 + z'.toNat / 64))
    (h₄ : letter (z.toNat % 64) = letter (z'.toNat % 64)) : x = x' ∧ y = y' ∧ z = z' := by
  have hx := x.toNat_lt
  have hx' := x'.toNat_lt
  have hy := y.toNat_lt
  have hy' := y'.toNat_lt
  have hz := z.toNat_lt
  have hz' := z'.toNat_lt
  rw [letter_inj (by omega) (by omega)] at h₁ h₂ h₃ h₄
  simp only [← UInt8.toNat_inj]
  omega

/-- Two byte strings do not have the same letters. -/
theorem letters_injective : Function.Injective letters := by
  intro b
  induction b using letters.induct with
  | case1 x y z rest ih =>
      intro b' h
      match b', length_eq_of_letters_eq h with
      | x' :: y' :: z' :: rest', _ =>
          simp only [letters, List.cons.injEq] at h
          obtain ⟨h₁, h₂, h₃, h₄, hrest⟩ := h
          obtain ⟨rfl, rfl, rfl⟩ := bytes_eq h₁ h₂ h₃ h₄
          rw [ih hrest]
  -- two bytes, and one, are cut as if bytes of zeros stood behind them
  | case2 x y =>
      intro b' h
      match b', length_eq_of_letters_eq h with
      | [x', y'], _ =>
          simp only [letters, List.cons.injEq] at h
          obtain ⟨h₁, h₂, h₃, -⟩ := h
          obtain ⟨rfl, rfl, -⟩ : x = x' ∧ y = y' ∧ (0 : UInt8) = 0 := bytes_eq h₁ h₂ h₃ rfl
          rfl
  | case3 x =>
      intro b' h
      match b', length_eq_of_letters_eq h with
      | [x'], _ =>
          simp only [letters, List.cons.injEq] at h
          obtain ⟨h₁, h₂, -⟩ := h
          obtain ⟨rfl, -⟩ : x = x' ∧ (0 : UInt8) = 0 ∧ (0 : UInt8) = 0 := bytes_eq h₁ h₂ rfl rfl
          rfl
  | case4 =>
      intro b' h
      exact (List.length_eq_zero_iff.1 (length_eq_of_letters_eq h).symm).symm

/-! ### The text -/

theorem not_mem_toList_encode {c : Char} (b : Bytes) (h : c ∉ alphabet) : c ∉ (encode b).toList := by
  rw [encode, String.toList_ofList]
  exact fun hc => h (mem_alphabet b c hc)

theorem length_encode (b : Bytes) : (encode b).length = (4 * b.length + 2) / 3 := by
  rw [encode, String.length_ofList, length_letters]

theorem encode_inj {b b' : Bytes} : encode b = encode b' ↔ b = b' := by
  rw [encode, encode, String.ofList_inj]
  exact letters_injective.eq_iff

end HashedAssets.Base64Url
