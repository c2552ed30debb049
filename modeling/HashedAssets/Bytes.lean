/-!
# Byte strings

A byte string is the list of its bytes, first byte first.

* `Bytes.ofText` and `Bytes.text?`: the UTF-8 form of a text, and the text of a UTF-8 form;
* `Bytes.hex` and `Bytes.ofHex?`: two lower-case hexadecimal digits for each byte;
* `Bytes.find?`: the first place where a pattern stands;
* `Bytes.cut`: the part between two offsets, where a negative offset counts from the end;
* `Bytes.chunks`: pieces of one length.
-/

namespace HashedAssets

/-- A byte string. -/
abbrev Bytes := List UInt8

namespace Bytes

/-! ### Text -/

/-- The UTF-8 bytes of a text. -/
def ofText (s : String) : Bytes := s.toByteArray.data.toList

/-- The text whose UTF-8 bytes these are, if there is one. -/
def text? (b : Bytes) : Option String := String.fromUTF8? b.toByteArray

/-! ### Hexadecimal digits -/

/-- The digit of a number below sixteen. -/
def hexDigit (n : Nat) : Char := Nat.digitChar n

/-- Two lower-case digits for each byte. -/
def hex (b : Bytes) : String :=
  String.ofList (b.flatMap fun x => [hexDigit (x.toNat / 16), hexDigit (x.toNat % 16)])

/-- The value of a hexadecimal digit of either case. -/
def hexValue? (c : Char) : Option Nat :=
  if c.isDigit then some (c.toNat - 48)
  else if 'a' ≤ c ∧ c ≤ 'f' then some (c.toNat - 87)
  else if 'A' ≤ c ∧ c ≤ 'F' then some (c.toNat - 55)
  else none

/-- The bytes of a list of digits, an odd one out refused. -/
def ofHexDigits? : List Char → Option Bytes
  | [] => some []
  | [_] => none
  | a :: b :: rest => do
      let hi ← hexValue? a
      let lo ← hexValue? b
      let tail ← ofHexDigits? rest
      pure (UInt8.ofNat (16 * hi + lo) :: tail)

/-- The bytes written as hexadecimal digits. -/
def ofHex? (s : String) : Option Bytes := ofHexDigits? s.toList

/-! ### Searching and cutting -/

/-- The least offset at which `pattern` stands in the bytes. -/
def find? (pattern : Bytes) : Bytes → Option Nat
  | [] => if pattern.isEmpty then some 0 else none
  | b :: rest =>
      if pattern.isPrefixOf (b :: rest) then some 0
      else (find? pattern rest).map (· + 1)

/-- The least offset not below `start` at which `pattern` stands in the bytes. -/
def findFrom? (pattern : Bytes) (start : Nat) (b : Bytes) : Option Nat :=
  (find? pattern (b.drop start)).map (· + start)

/-- The bytes before the first newline. -/
def firstLine (b : Bytes) : Bytes := b.takeWhile (· != 10)

/-- An offset that may be negative, then counting from the end, as a place in a string of
`length` bytes. -/
def place (length : Nat) (i : Int) : Nat :=
  if i < 0 then (length + i).toNat else min i.toNat length

/-- The bytes from offset `start` up to offset `stop`; offsets out of range are moved to the
nearest end. -/
def cut (b : Bytes) (start stop : Int) : Bytes :=
  (b.take (place b.length stop)).drop (place b.length start)

/-- The bytes from offset `start` on. -/
def cutFrom (b : Bytes) (start : Int) : Bytes := b.drop (place b.length start)

/-- The bytes in pieces of `n`, the last one possibly shorter. -/
def chunks (n : Nat) (b : Bytes) : List Bytes :=
  if _h : n = 0 ∨ b = [] then [] else b.take n :: chunks n (b.drop n)
termination_by b.length
decreasing_by
  have : 0 < b.length := List.length_pos_iff.2 fun he => _h (.inr he)
  simp only [List.length_drop]
  omega

/-! ### Small laws -/

@[simp] theorem find?_nil_pattern (b : Bytes) : find? [] b = some 0 := by
  cases b <;> simp [find?]

/-- A place that is found leaves room for the pattern. -/
theorem find?_add_length_le {pattern b : Bytes} {k : Nat} (h : find? pattern b = some k) :
    k + pattern.length ≤ b.length := by
  induction b generalizing k with
  | nil =>
      by_cases hp : pattern = []
      · subst hp; simp [find?] at h; subst h; simp
      · simp [find?, hp] at h
  | cons x rest ih =>
      rw [find?] at h
      split at h
      · next hp =>
          injection h with h; subst h
          simpa using (List.isPrefixOf_iff_prefix.1 hp).length_le
      · obtain ⟨j, hj, rfl⟩ := Option.map_eq_some_iff.1 h
        have := ih hj
        simp only [List.length_cons]
        omega

/-- Decoding undoes encoding. -/
@[simp] theorem text?_ofText (s : String) : text? (ofText s) = some s := by
  have h : (ofText s).toByteArray = s.toByteArray := by
    apply ByteArray.ext
    simp [ofText]
  unfold text? String.fromUTF8?
  rw [h, dif_pos s.isValidUTF8]
  rfl

end Bytes

end HashedAssets
