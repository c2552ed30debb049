/-!
# Binary floating point numbers of sixty-four bits

A number is kept as a sign, a natural number below `2 ^ 53` and a power of two, so that everything
about it is exact arithmetic of natural numbers.

* `divideEven`: a quotient rounded to the nearest number, a half going to the even one;
* `Binary64.ofRatio`: the number nearest to a fraction;
* `Binary64.ofDecimal`: the number nearest to a decimal.
-/

namespace HashedAssets

/-- A power of two. -/
def twoTo (n : Nat) : Nat := 1 <<< n

/-- A power of ten. -/
def tenTo (n : Nat) : Nat := Nat.pow 10 n

/-- The natural number nearest to `num / den`; of two equally near ones the even one. -/
def divideEven (num den : Nat) : Nat :=
  let q := num / den
  let r := num % den
  if 2 * r < den then q
  else if den < 2 * r then q + 1
  else if q % 2 = 0 then q else q + 1

/-- A floating point number: a sign with `m * 2 ^ e`, an infinity, or no number. -/
inductive Binary64
  | finite (negative : Bool) (m : Nat) (e : Int)
  | infinite (negative : Bool)
  | nan
  deriving DecidableEq, Repr

namespace Binary64

/-- The numerator and denominator of `num / den` times two to the power `-e`. -/
def scaled (num den : Nat) (e : Int) : Nat × Nat :=
  if e < 0 then (num * twoTo e.natAbs, den) else (num, den * twoTo e.natAbs)

/-- The power of two at which `num / den` has fifty-three binary digits. -/
def exponentOf (num den : Nat) : Int :=
  let e : Int := (num.log2 : Int) - (den.log2 : Int) - 53
  let (a, b) := scaled num den e
  if a / b < twoTo 53 then e else e + 1

/-- The number nearest to `num / den`, an infinity if the fraction is too great. -/
def ofRatio (negative : Bool) (num den : Nat) : Binary64 :=
  if num = 0 then .finite negative 0 (-1074)
  else
    let e := max (exponentOf num den) (-1074)
    let (a, b) := scaled num den e
    let m := divideEven a b
    let (m, e) := if m = twoTo 53 then (twoTo 52, e + 1) else (m, e)
    if 971 < e then .infinite negative else .finite negative m e

/-- The number nearest to `digits * 10 ^ exponent`. -/
def ofDecimal (negative : Bool) (digits : Nat) (exponent : Int) : Binary64 :=
  if digits = 0 then ofRatio negative 0 1
  else if 400 < exponent then .infinite negative
  else if exponent < 0 then
    -- far below the least number there is nothing but zero
    if (digits.log2 : Int) / 3 + 400 < -exponent then ofRatio negative 0 1
    else ofRatio negative digits (tenTo exponent.natAbs)
  else ofRatio negative (digits * tenTo exponent.natAbs) 1

/-- The fraction that a finite number is, without its sign. -/
def ratio? : Binary64 → Option (Nat × Nat)
  | .finite _ m e => some (scaled m 1 (-e))
  | _ => none

/-- Whether a number is zero of either sign. -/
def isZero : Binary64 → Bool
  | .finite _ m _ => m == 0
  | _ => false

/-- The whole number that a finite number is, if it is one. -/
def toInt? : Binary64 → Option Int
  | .finite negative m e =>
      let (a, b) := scaled m 1 (-e)
      if a % b = 0 then some (if negative then -((a / b : Nat) : Int) else ((a / b : Nat) : Int))
      else none
  | _ => none

/-- Whether a number is at most another one; this is never so if one of them is no number. -/
def atMost : Binary64 → Binary64 → Bool
  | .nan, _ => false
  | _, .nan => false
  | .infinite negative, y => negative || y == .infinite false
  | x, .infinite negative => !negative || x == .infinite true
  | .finite negative m e, .finite negative' m' e' =>
      let (a, b) := scaled m 1 (-e)
      let (c, d) := scaled m' 1 (-e')
      let signed (negative : Bool) (n : Nat) : Int := if negative then -(n : Int) else n
      decide (signed negative (a * d) ≤ signed negative' (c * b))

end Binary64

end HashedAssets
