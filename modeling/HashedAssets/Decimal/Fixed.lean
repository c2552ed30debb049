import HashedAssets.Decimal.Binary64

/-!
# Decimals with a fixed number of places

* `places`: a fraction with so many digits behind the point, a half going to the even neighbour.
-/

namespace HashedAssets.Decimal

/-- The fraction `num / den` with `n` digits behind the point. -/
def places (n num den : Nat) : String :=
  let scaled := divideEven (num * tenTo n) den
  let after := Nat.toDigits 10 (scaled % tenTo n)
  toString (scaled / tenTo n) ++ "." ++
    String.ofList (List.replicate (n - after.length) '0' ++ after)

end HashedAssets.Decimal
