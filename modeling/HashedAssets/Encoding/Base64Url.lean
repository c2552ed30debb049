import HashedAssets.Bytes

/-!
# URL-safe base64

Three bytes become four letters; two bytes become three letters and one byte two. No padding is
written, and the letters are safe in a path: `encode` writes neither a dot nor a slash.
-/

namespace HashedAssets.Base64Url

/-- The sixty-four letters. -/
def alphabet : List Char :=
  "ABCDEFGHIJKLMNOPQRSTUVWXYZabcdefghijklmnopqrstuvwxyz0123456789-_".toList

/-- The letter for a number below sixty-four. -/
def letter (n : Nat) : Char := alphabet.getD (n % 64) 'A'

/-- The letters of a byte string. -/
def letters : Bytes → List Char
  | a :: b :: c :: rest =>
      letter (a.toNat / 4) :: letter (a.toNat % 4 * 16 + b.toNat / 16)
        :: letter (b.toNat % 16 * 4 + c.toNat / 64) :: letter (c.toNat % 64) :: letters rest
  | [a, b] =>
      [letter (a.toNat / 4), letter (a.toNat % 4 * 16 + b.toNat / 16), letter (b.toNat % 16 * 4)]
  | [a] => [letter (a.toNat / 4), letter (a.toNat % 4 * 16)]
  | [] => []

/-- The text of a byte string. -/
def encode (b : Bytes) : String := String.ofList (letters b)

end HashedAssets.Base64Url
