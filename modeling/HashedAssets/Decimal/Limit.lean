import HashedAssets.Decimal.Binary64

/-!
# How many digits a whole number may have

Whole numbers of more digits than a limit are neither read from decimal digits nor written as such.

* `digitLimit`: the limit;
* `isWritable`: whether a number keeps it;
* `LimitFault`: what is refused, with its text.
-/

namespace HashedAssets.Decimal

/-- The greatest number of digits that are read or written. -/
def digitLimit : Nat := 4300

/-- Whether a whole number has no more digits than are written. -/
def isWritable (n : Int) : Bool := n.natAbs < tenTo digitLimit

/-- What is refused because of the limit. -/
inductive LimitFault
  /-- Reading a number of so many digits. -/
  | reading (digits : Nat)
  /-- Writing a number. -/
  | writing
  deriving DecidableEq, Repr

/-- The text of a refusal. -/
def LimitFault.message : LimitFault → String
  | .reading digits =>
      "Exceeds the limit (" ++ toString digitLimit
        ++ " digits) for integer string conversion: value has " ++ toString digits ++ " digits; "
        ++ remedy
  | .writing =>
      "Exceeds the limit (" ++ toString digitLimit ++ " digits) for integer string conversion; "
        ++ remedy
where
  /-- What to do about it. -/
  remedy : String := "use sys.set_int_max_str_digits() to increase the limit"

/-- Whether a number is written does not depend on its sign. -/
theorem isWritable_neg (n : Int) : isWritable (-n) = isWritable n := by
  simp [isWritable]

end HashedAssets.Decimal
