import HashedAssets.Decimal.Binary64

/-!
# The shortest decimal of a floating point number

Among the decimals that are read back as a number, those with the fewest digits are shortest, and
among these the one nearest to the number is taken.

* `Interval`: the reals that are read as a given number;
* `shortest`: the digits and the power of ten;
* `Layout`, `Layout.render`: where the point stands and when an exponent is written.
-/

namespace HashedAssets.Decimal

/-- A comparison of `c * 10 ^ p` with `n * 2 ^ e`. -/
def compareScaled (c : Nat) (p : Int) (n : Nat) (e : Int) : Ordering :=
  let left := c * tenTo p.toNat * twoTo (-e).toNat
  let right := n * twoTo e.toNat * tenTo (-p).toNat
  compare left right

/-- The reals that are read as one number: all between `low * 2 ^ e` and `high * 2 ^ e`, with the
ends if `closed`; the number itself is `middle * 2 ^ e`. -/
structure Interval where
  low : Nat
  middle : Nat
  high : Nat
  e : Int
  closed : Bool

/-- The reals that are read as `m * 2 ^ e`: up to half way to the neighbours. -/
def Interval.of (m : Nat) (e : Int) : Interval :=
  { low := if m = twoTo 52 ∧ -1074 < e then 4 * m - 1 else 4 * m - 2
    middle := 4 * m
    high := 4 * m + 2
    e := e - 2
    closed := m % 2 == 0 }

/-- Whether `c * 10 ^ p` is in the interval. -/
def Interval.holds (i : Interval) (c : Nat) (p : Int) : Bool :=
  match compareScaled c p i.low i.e, compareScaled c p i.high i.e with
  | .gt, .lt => true
  | .eq, _ => i.closed
  | _, .eq => i.closed
  | _, _ => false

/-- The numerator and denominator of `n * 2 ^ e / 10 ^ p`. -/
def onGrid (n : Nat) (e p : Int) : Nat × Nat :=
  (n * twoTo e.toNat * tenTo (-p).toNat, twoTo (-e).toNat * tenTo p.toNat)

/-- The number of decimal digits before the point of `n * 2 ^ e`, negative for zeros behind it. -/
def leadingPlace (n : Nat) (e : Int) : Int :=
  let (a, b) := onGrid n e 0
  if b ≤ a then (Nat.toDigits 10 (a / b)).length
  else 1 - ((List.range 400).find? fun j => b ≤ a * tenTo j).getD 0

/-- The neighbour on the grid of `10 ^ p` that is read as the number; of two the nearer one, and of
two equally near the even one. -/
def nearest? (i : Interval) (p : Int) : Option Nat :=
  let (a, b) := onGrid i.middle i.e p
  let c := a / b
  let below := if i.holds c p && c != 0 then some c else none
  let above := if i.holds (c + 1) p then some (c + 1) else none
  match below, above with
  | some _, some _ => some (divideEven a b)
  | some x, none => some x
  | none, y => y

/-- The digits and power of ten of the shortest decimal of `m * 2 ^ e`, for `m` not zero. -/
def shortest (m : Nat) (e : Int) : Nat × Int :=
  let i := Interval.of m e
  let place := leadingPlace m e
  let found := (List.range 17).findSome? fun (n : Nat) =>
    let p := place - 1 - (n : Int)
    (nearest? i p).map fun c => (c, p)
  found.getD (m, e)

/-! ### Layout -/

/-- How a decimal is laid out: the powers of ten of its first digit between which it is written
with a point alone, whether whole numbers keep `.0`, and the least width of an exponent. -/
structure Layout where
  lowest : Int
  highest : Int
  keepsPoint : Bool
  exponentWidth : Nat

/-- Zeros in front of a text up to a width. -/
def padLeft (width : Nat) (cs : List Char) : List Char :=
  List.replicate (width - cs.length) '0' ++ cs

/-- A decimal that is not zero, its digits without zeros at the end. -/
def Layout.render (l : Layout) (digits : Nat) (power : Int) : List Char :=
  let all := Nat.toDigits 10 digits
  let ds := (all.reverse.dropWhile (· == '0')).reverse
  let first : Int := power + all.length - 1
  if l.lowest ≤ first ∧ first ≤ l.highest then
    if first < 0 then
      '0' :: '.' :: List.replicate ((-first).toNat - 1) '0' ++ ds
    else
      let whole := first.toNat + 1
      let before := ds.take whole ++ List.replicate (whole - ds.length) '0'
      let after := ds.drop whole
      if after.isEmpty then before ++ (if l.keepsPoint then ['.', '0'] else [])
      else before ++ '.' :: after
  else
    let mantissa := match ds with
      | [] => ['0']
      | [d] => [d]
      | d :: rest => d :: '.' :: rest
    let sign := if first < 0 then '-' else '+'
    mantissa ++ 'e' :: sign :: padLeft l.exponentWidth (Nat.toDigits 10 first.natAbs)

end HashedAssets.Decimal
