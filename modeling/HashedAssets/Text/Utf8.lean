import HashedAssets.Bytes

/-!
# Bytes that are no text

Where a byte string stops being UTF-8, and why.

* `Utf8.Fault`, `Utf8.Fault.message`: the first bytes that are wrong;
* `Utf8.fault?`: finding them;
* `Utf8.decode`: the text of a byte string.
-/

namespace HashedAssets.Utf8

/-- Why bytes are no character. -/
inductive Reason
  | start
  | continuation
  | end
  deriving DecidableEq, Repr

/-- The text of a reason. -/
def Reason.message : Reason → String
  | .start => "invalid start byte"
  | .continuation => "invalid continuation byte"
  | .end => "unexpected end of data"

/-- The bytes that are no character: the first of them, where they begin, how many they are, and
why. -/
structure Fault where
  byte : UInt8
  index : Nat
  length : Nat
  reason : Reason
  deriving DecidableEq, Repr

/-- The text of a fault. -/
def Fault.message (f : Fault) : String :=
  "'utf-8' codec can't decode " ++
    (if f.length = 1 then
      "byte 0x" ++ Bytes.hex [f.byte] ++ " in position " ++ toString f.index
    else
      "bytes in position " ++ toString f.index ++ "-" ++ toString (f.index + f.length - 1))
    ++ ": " ++ f.reason.message

/-- A range of bytes. -/
abbrev Range := UInt8 × UInt8

/-- The bytes that may follow any but the first. -/
def anyContinuation : Range := (0x80, 0xbf)

/-- The ranges of the bytes that have to follow a first byte, none if there is no such first byte. -/
def following? (b : UInt8) : Option (List Range) :=
  if b < 0x80 then some []
  else if b < 0xc2 then none
  else if b < 0xe0 then some [anyContinuation]
  else if b = 0xe0 then some [(0xa0, 0xbf), anyContinuation]
  else if b = 0xed then some [(0x80, 0x9f), anyContinuation]
  else if b < 0xf0 then some [anyContinuation, anyContinuation]
  else if b = 0xf0 then some [(0x90, 0xbf), anyContinuation, anyContinuation]
  else if b < 0xf4 then some [anyContinuation, anyContinuation, anyContinuation]
  else if b = 0xf4 then some [(0x80, 0x8f), anyContinuation, anyContinuation]
  else none

/-- How many bytes lie in the ranges one after the other, and why it ends there, if it does. -/
def match' : List Range → Bytes → Nat × Option Reason
  | [], _ => (0, none)
  | _ :: _, [] => (0, some .end)
  | (low, high) :: ranges, b :: rest =>
      if low ≤ b ∧ b ≤ high then
        let (n, r) := match' ranges rest
        (n + 1, r)
      else (0, some .continuation)

/-- The first fault in bytes that begin at an offset. -/
def faultFrom (index : Nat) (bytes : Bytes) : Option Fault :=
  match bytes with
  | [] => none
  | b :: rest => match following? b with
    | none => some ⟨b, index, 1, .start⟩
    | some ranges => match match' ranges rest with
      | (n, some r) => some ⟨b, index, n + 1, r⟩
      | (n, none) => faultFrom (index + n + 1) (rest.drop n)
termination_by bytes.length
decreasing_by simp only [List.length_drop, List.length_cons]; omega

/-- The first fault in a byte string. -/
def fault? (bytes : Bytes) : Option Fault := faultFrom 0 bytes

/-- The text of a byte string, or the first fault in it. -/
def decode (bytes : Bytes) : Except Fault String :=
  match bytes.text?, fault? bytes with
  | some s, _ => .ok s
  | none, some f => .error f
  | none, none => .error ⟨0, 0, 1, .start⟩

end HashedAssets.Utf8
