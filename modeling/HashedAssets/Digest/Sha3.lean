import HashedAssets.Bytes

/-!
# SHA3-256

A sponge over the permutation Keccak-f on twenty-five words of sixty-four bits. The word of column
`x` and row `y` stands at place `x + 5 * y`.

* `mixColumns`, `rotateAndMove`, `mixRows`, `permute`: the permutation;
* `hash`: the digest of thirty-two bytes.
-/

namespace HashedAssets.Sha3

/-- The constants that tell the rounds apart. -/
def roundConstants : List UInt64 :=
  [0x0000000000000001, 0x0000000000008082, 0x800000000000808a,
   0x8000000080008000, 0x000000000000808b, 0x0000000080000001,
   0x8000000080008081, 0x8000000000008009, 0x000000000000008a,
   0x0000000000000088, 0x0000000080008009, 0x000000008000000a,
   0x000000008000808b, 0x800000000000008b, 0x8000000000008089,
   0x8000000000008003, 0x8000000000008002, 0x8000000000000080,
   0x000000000000800a, 0x800000008000000a, 0x8000000080008081,
   0x8000000000008080, 0x0000000080000001, 0x8000000080008008]

/-- By how much the word at each place is rotated. -/
def rotations : List UInt64 :=
  [0, 1, 62, 28, 27, 36, 44, 6, 55, 20, 3, 10, 43,
   25, 39, 41, 45, 15, 21, 8, 18, 2, 61, 56, 14]

/-- The twenty-five words of the sponge. -/
abbrev State := Array UInt64

/-- The state before any input. -/
def initial : State := Array.replicate 25 0

/-- Rotate a word to the left. -/
def rotateLeft (x n : UInt64) : UInt64 :=
  if n = 0 then x else (x <<< n) ||| (x >>> (64 - n))

/-- The word of column `x` and row `y`. -/
def State.at' (s : State) (x y : Nat) : UInt64 := s.getD (x % 5 + 5 * (y % 5)) 0

/-- Each word is mixed with the parities of two columns beside it. -/
def mixColumns (s : State) : State :=
  let parity := Array.ofFn fun x : Fin 5 =>
    s.at' x 0 ^^^ s.at' x 1 ^^^ s.at' x 2 ^^^ s.at' x 3 ^^^ s.at' x 4
  Array.ofFn fun i : Fin 25 =>
    s.at' (i % 5) (i / 5) ^^^ parity.getD ((i % 5 + 4) % 5) 0
      ^^^ rotateLeft (parity.getD ((i % 5 + 1) % 5) 0) 1

/-- Each word is rotated and moved: the word at `(x, y)` goes to `(y, 2x + 3y)`. -/
def rotateAndMove (s : State) : State :=
  let turned := ((s.toList.zip rotations).map fun w => rotateLeft w.1 w.2).toArray
  Array.ofFn fun i : Fin 25 => State.at' turned (i % 5 + 3 * (i / 5)) (i % 5)

/-- Each word is mixed with two words of its row. -/
def mixRows (s : State) : State :=
  Array.ofFn fun i : Fin 25 =>
    s.at' (i % 5) (i / 5) ^^^ ((~~~s.at' (i % 5 + 1) (i / 5)) &&& s.at' (i % 5 + 2) (i / 5))

/-- One round. -/
def round (s : State) (constant : UInt64) : State :=
  (mixRows (rotateAndMove (mixColumns s))).modify 0 (· ^^^ constant)

/-- All twenty-four rounds. -/
def permute (s : State) : State := roundConstants.foldl round s

/-- The word of up to eight bytes, the lowest first. -/
def littleEndian : Bytes → UInt64
  | [] => 0
  | b :: rest => b.toUInt64 ||| (littleEndian rest <<< 8)

/-- The number of bytes taken in between two permutations. -/
def rate : Nat := 136

/-- The message, the bits that tell the use, zeros, and a closing bit at the end of a block. -/
def pad (message : Bytes) : Bytes :=
  let room := rate - message.length % rate
  if room = 1 then message ++ [0x86]
  else message ++ [0x06] ++ List.replicate (room - 2) 0 ++ [0x80]

/-- Take a block in. -/
def absorb (s : State) (block : Bytes) : State :=
  let mixed := (s.toList.zipIdx).map fun w =>
    w.1 ^^^ littleEndian ((block.drop (8 * w.2)).take 8)
  permute mixed.toArray

/-- The eight bytes of a word, the lowest first. -/
def wordBytes (w : UInt64) : Bytes :=
  (List.range 8).map fun i => (w >>> (8 * UInt64.ofNat i)).toUInt8

/-- The SHA3-256 digest of a message. -/
def hash (message : Bytes) : Bytes :=
  let s := ((pad message).chunks rate).foldl absorb initial
  (List.range 4).flatMap fun i => wordBytes (s.getD i 0)

/-- A padded message fills whole blocks. -/
theorem length_pad_mod (message : Bytes) : (pad message).length % rate = 0 := by
  have h : message.length % rate < rate := Nat.mod_lt _ (by decide)
  have := Nat.div_add_mod message.length rate
  unfold pad
  dsimp only
  split <;> simp [rate] at * <;> omega

/-- Every digest has thirty-two bytes. -/
@[simp] theorem length_hash (message : Bytes) : (hash message).length = 32 := by
  simp only [hash, wordBytes, List.length_flatMap, List.length_map, List.length_range]
  rfl

end HashedAssets.Sha3
