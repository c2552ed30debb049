import HashedAssets.Decimal.Binary64

/-!
# Numbers from their written form

A literal is a sign, digits with or without a point among them, and an exponent; each but the digits
may be missing.

* `naturalOf`: the number that digits stand for;
* `Decimal.ofLiteral?`: the binary number nearest to a literal.
-/

namespace HashedAssets.Decimal

/-- The number that digits stand for. -/
def naturalOf (digits : List Char) : Nat :=
  digits.foldl (fun n c => 10 * n + (c.toNat - '0'.toNat)) 0

/-- A sign in front, taken as whether there is a minus, and the rest. -/
def takeSign : List Char → Bool × List Char
  | '-' :: rest => (true, rest)
  | '+' :: rest => (false, rest)
  | cs => (false, cs)

/-- The exponent that a literal ends with, zero if there is none. -/
def exponent? : List Char → Option Int
  | [] => some 0
  | c :: rest =>
      if c = 'e' ∨ c = 'E' then
        let (negative, digits) := takeSign rest
        if digits ≠ [] ∧ digits.all Char.isDigit then
          some (if negative then -naturalOf digits else naturalOf digits)
        else none
      else none

/-- The binary number nearest to a literal. -/
def ofLiteral? (cs : List Char) : Option Binary64 :=
  let (negative, cs) := takeSign cs
  let whole := cs.takeWhile Char.isDigit
  let rest := cs.dropWhile Char.isDigit
  let (fraction, rest) := match rest with
    | '.' :: rest => (rest.takeWhile Char.isDigit, rest.dropWhile Char.isDigit)
    | rest => ([], rest)
  if whole = [] ∧ fraction = [] then none
  else (exponent? rest).map fun e =>
    Binary64.ofDecimal negative (naturalOf (whole ++ fraction)) (e - fraction.length)

end HashedAssets.Decimal
