import HashedAssets.Bytes

/-!
# Tokens of a deflate stream

A byte string is written as literal bytes and copies of earlier stretches.

* `Token`, `expand`: what a list of tokens stands for;
* `tokens`: a byte string as tokens, taking at each place the longest copy that the latest earlier
  occurrence of the next three bytes offers.
-/

namespace HashedAssets.Deflate

/-- A literal byte, or a copy of `length` bytes that began `distance` bytes ago. -/
inductive Token
  | literal (b : UInt8)
  | copy (length distance : Nat)
  deriving DecidableEq, Repr

/-- The bytes written so far with one more copied from `distance` bytes ago, `n` times. -/
def copyBack (out : Array UInt8) (distance : Nat) : Nat → Array UInt8
  | 0 => out
  | n + 1 => copyBack (out.push (out.getD (out.size - distance) 0)) distance n

/-- Write one token. A copy from before the beginning is refused. -/
def Token.apply? (out : Array UInt8) : Token → Option (Array UInt8)
  | .literal b => some (out.push b)
  | .copy length distance =>
      if 0 < distance ∧ distance ≤ out.size then some (copyBack out distance length) else none

/-- The bytes a list of tokens stands for. -/
def expand? (ts : List Token) : Option Bytes :=
  (ts.foldlM Token.apply? #[]).map (·.toList)

/-! ### Finding copies -/

/-- How many slots remember the latest place of a triple of bytes. -/
def slots : Nat := 4096

/-- The slot of the three bytes at a place. -/
def slotAt (x : Array UInt8) (i : Nat) : Nat :=
  ((x.getD i 0).toNat * 961 + (x.getD (i + 1) 0).toNat * 31 + (x.getD (i + 2) 0).toNat) % slots

/-- How far the bytes at `i` agree with those at `j`, at most `limit` bytes. -/
def agreement (x : Array UInt8) (i j : Nat) : Nat → Nat
  | 0 => 0
  | limit + 1 =>
      if i < x.size ∧ x.getD i 0 = x.getD j 0 then agreement x (i + 1) (j + 1) limit + 1 else 0

/-- A copy for the place `i`, from the place remembered in its slot. -/
def candidate? (x : Array UInt8) (latest : Array Nat) (i : Nat) : Option (Nat × Nat) :=
  let seen := latest.getD (slotAt x i) 0
  -- places are remembered one higher, so that zero means none
  if seen = 0 ∨ i < seen ∨ 32768 < i + 1 - seen then none
  else
    let n := agreement x i (seen - 1) 258
    if n < 3 then none else some (n, i + 1 - seen)

/-- Tokens from the place `i` on, put behind those found before. -/
def tokensFrom (x : Array UInt8) (latest : Array Nat) (i : Nat) (found : Array Token) :
    Array Token :=
  if _h : i < x.size then
    let remembered := latest.setIfInBounds (slotAt x i) (i + 1)
    match candidate? x latest i with
    | some (n, d) => tokensFrom x remembered (i + (n - 1) + 1) (found.push (.copy n d))
    | none => tokensFrom x remembered (i + 1) (found.push (.literal (x.getD i 0)))
  else found
termination_by x.size - i

/-- A byte string as tokens. -/
def tokens (b : Bytes) : List Token :=
  (tokensFrom b.toArray (Array.replicate slots 0) 0 #[]).toList

end HashedAssets.Deflate
