import HashedAssets.Bytes

/-!
# BLAKE2b

Without a key, with the full digest of sixty-four bytes. Blocks of a hundred and twenty-eight bytes
are folded into a state of eight words; the last block is marked and filled with zeros.

* `mix`, `round`, `compress`: folding one block;
* `hash`: the digest.
-/

namespace HashedAssets.Blake2b

/-- The first sixty-four bits of the fractional parts of the square roots of the first eight
primes. -/
def initial : Array UInt64 :=
  #[0x6a09e667f3bcc908, 0xbb67ae8584caa73b, 0x3c6ef372fe94f82b,
    0xa54ff53a5f1d36f1, 0x510e527fade682d1, 0x9b05688c2b3e6c1f,
    0x1f83d9abfb41bd6b, 0x5be0cd19137e2179]

/-- In which order the words of a block enter each of the ten different rounds. -/
def permutations : List (List Nat) :=
  [[0, 1, 2, 3, 4, 5, 6, 7, 8, 9, 10, 11, 12, 13, 14, 15],
   [14, 10, 4, 8, 9, 15, 13, 6, 1, 12, 0, 2, 11, 7, 5, 3],
   [11, 8, 12, 0, 5, 2, 15, 13, 10, 14, 3, 6, 7, 1, 9, 4],
   [7, 9, 3, 1, 13, 12, 11, 14, 2, 6, 5, 10, 4, 0, 15, 8],
   [9, 0, 5, 7, 2, 4, 10, 15, 14, 1, 11, 12, 6, 8, 3, 13],
   [2, 12, 6, 10, 0, 11, 8, 3, 4, 13, 7, 5, 15, 14, 1, 9],
   [12, 5, 1, 15, 14, 13, 4, 10, 0, 7, 6, 3, 9, 2, 8, 11],
   [13, 11, 7, 14, 12, 1, 3, 9, 5, 0, 15, 4, 8, 6, 2, 10],
   [6, 15, 14, 9, 11, 3, 0, 8, 12, 2, 13, 7, 1, 4, 10, 5],
   [10, 2, 8, 4, 7, 6, 1, 5, 15, 11, 9, 14, 3, 12, 13, 0]]

/-- Rotate a word to the right. -/
def rotateRight (x n : UInt64) : UInt64 := (x >>> n) ||| (x <<< (64 - n))

/-- Mix two words of input into four words of the working state. -/
def mix (v : Array UInt64) (ia ib ic id : Nat) (x y : UInt64) : Array UInt64 :=
  let a := v.getD ia 0 + v.getD ib 0 + x
  let d := rotateRight (v.getD id 0 ^^^ a) 32
  let c := v.getD ic 0 + d
  let b := rotateRight (v.getD ib 0 ^^^ c) 24
  let a := a + b + y
  let d := rotateRight (d ^^^ a) 16
  let c := c + d
  let b := rotateRight (b ^^^ c) 63
  (((v.setIfInBounds ia a).setIfInBounds ib b).setIfInBounds ic c).setIfInBounds id d

/-- The four columns, then the four diagonals, of the working state. -/
def lanes : List (Nat × Nat × Nat × Nat) :=
  [(0, 4, 8, 12), (1, 5, 9, 13), (2, 6, 10, 14), (3, 7, 11, 15),
   (0, 5, 10, 15), (1, 6, 11, 12), (2, 7, 8, 13), (3, 4, 9, 14)]

/-- One round over the words of a block, taken in the order of `order`. -/
def round (words : Array UInt64) (v : Array UInt64) (order : List Nat) : Array UInt64 :=
  let word (i : Nat) := words.getD (order.getD i 0) 0
  lanes.zipIdx.foldl (fun v l =>
    mix v l.1.1 l.1.2.1 l.1.2.2.1 l.1.2.2.2 (word (2 * l.2)) (word (2 * l.2 + 1))) v

/-- The word of up to eight bytes, the lowest first. -/
def littleEndian : Bytes → UInt64
  | [] => 0
  | b :: rest => b.toUInt64 ||| (littleEndian rest <<< 8)

/-- The sixteen words of a block, missing bytes taken as zero. -/
def blockWords (block : Bytes) : Array UInt64 :=
  Array.ofFn fun i : Fin 16 => littleEndian ((block.drop (8 * i)).take 8)

/-- Fold a block into the state; `count` is the number of message bytes up to its end. -/
def compress (h : Array UInt64) (block : Bytes) (count : Nat) (last : Bool) : Array UInt64 :=
  let mark : UInt64 := if last then 0xffffffffffffffff else 0
  let v := h ++ initial
  let v := v.modify 12 (· ^^^ UInt64.ofNat count)
  let v := v.modify 13 (· ^^^ UInt64.ofNat (count >>> 64))
  let v := v.modify 14 (· ^^^ mark)
  let v := (permutations ++ permutations.take 2).foldl (round (blockWords block)) v
  Array.ofFn fun i : Fin 8 => h.getD i 0 ^^^ v.getD i 0 ^^^ v.getD (i + 8) 0

/-- The starting state, marked with the digest size and the absence of a key. -/
def start : Array UInt64 := initial.modify 0 (· ^^^ 0x01010040)

/-- Fold all blocks into the state, where `count` bytes came before them. -/
def absorbAll (h : Array UInt64) (count : Nat) : List Bytes → Array UInt64
  | [] => compress h [] count true
  | [block] => compress h block (count + block.length) true
  | block :: rest =>
      absorbAll (compress h block (count + block.length) false) (count + block.length) rest

/-- The eight bytes of a word, the lowest first. -/
def wordBytes (w : UInt64) : Bytes :=
  (List.range 8).map fun i => (w >>> (8 * UInt64.ofNat i)).toUInt8

/-- The BLAKE2b digest of a message. -/
def hash (message : Bytes) : Bytes :=
  let h := absorbAll start 0 (message.chunks 128)
  (List.range 8).flatMap fun i => wordBytes (h.getD i 0)

/-- Every digest has sixty-four bytes. -/
@[simp] theorem length_hash (message : Bytes) : (hash message).length = 64 := by
  simp only [hash, wordBytes, List.length_flatMap, List.length_map, List.length_range]
  rfl

end HashedAssets.Blake2b
