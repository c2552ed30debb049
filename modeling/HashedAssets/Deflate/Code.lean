/-!
# Code words of a deflate stream

A code gives each symbol a word of bits, none of which begins another. It is fixed by the lengths
of the words: shorter words come first, and words of one length follow the order of the symbols.

* `words`: the words of a list of lengths;
* `Tree`: a code as a tree for reading, `Tree.ofLengths`, `Tree.read?`;
* `literalLengths`, `distanceLengths`: the code that needs no table in the stream;
* `lengthBase`, `distanceBase`: which lengths and distances a symbol stands for.
-/

namespace HashedAssets.Deflate

/-- The `n` low bits of a number, the highest first. -/
def highBits : Nat → Nat → List Bool
  | 0, _ => []
  | n + 1, x => x.testBit n :: highBits n x

/-- The `n` low bits of a number, the lowest first. -/
def lowBits (n x : Nat) : List Bool := (List.range n).map x.testBit

/-- The symbols whose words have `length` bits, in order. -/
def symbolsOfLength (lengths : List Nat) (length : Nat) : List Nat :=
  (lengths.zipIdx.filter (·.1 == length)).map (·.2)

/-- Words for the lengths from `length` up to `length + n - 1`, the first of them being `next`. -/
def wordsFrom (lengths : List Nat) (length next : Nat) : Nat → List (Nat × List Bool)
  | 0 => []
  | n + 1 =>
      let symbols := symbolsOfLength lengths length
      symbols.zipIdx.map (fun s => (s.1, highBits length (next + s.2)))
        ++ wordsFrom lengths (length + 1) (2 * (next + symbols.length)) n

/-- The word of each symbol, from the lengths of the words; a length of zero means no word. -/
def words (lengths : List Nat) : List (Nat × List Bool) := wordsFrom lengths 1 0 15

/-- A code as a tree: the bits of a word lead to its symbol. -/
inductive Tree
  | none
  | symbol (s : Nat)
  | branch (zero one : Tree)
  deriving Repr

namespace Tree

/-- Hang a symbol at the end of a word. -/
def put (s : Nat) : List Bool → Tree → Tree
  | [], _ => .symbol s
  | b :: bits, t =>
      let (zero, one) := match t with
        | .branch zero one => (zero, one)
        | _ => (.none, .none)
      if b then .branch zero (put s bits one) else .branch (put s bits zero) one

/-- The tree of the words with the given lengths. -/
def ofLengths (lengths : List Nat) : Tree :=
  (words lengths).foldl (fun t w => put w.1 w.2 t) .none

/-- Read one word: its symbol and the bits after it. -/
def read? : Tree → List Bool → Option (Nat × List Bool)
  | .none, _ => Option.none
  | .symbol s, bits => some (s, bits)
  | .branch _ _, [] => Option.none
  | .branch zero one, b :: bits => if b then one.read? bits else zero.read? bits

end Tree

/-- Lengths of the words for bytes, the end of a block, and lengths of copies. -/
def literalLengths : List Nat :=
  List.replicate 144 8 ++ List.replicate 112 9 ++ List.replicate 24 7 ++ List.replicate 8 8

/-- Lengths of the words for distances. -/
def distanceLengths : List Nat := List.replicate 30 5

/-- For each symbol from 257 on, its least length of a copy and the number of further bits. -/
def lengthBase : List (Nat × Nat) :=
  [(3, 0), (4, 0), (5, 0), (6, 0), (7, 0), (8, 0), (9, 0), (10, 0), (11, 1), (13, 1), (15, 1),
   (17, 1), (19, 2), (23, 2), (27, 2), (31, 2), (35, 3), (43, 3), (51, 3), (59, 3), (67, 4),
   (83, 4), (99, 4), (115, 4), (131, 5), (163, 5), (195, 5), (227, 5), (258, 0)]

/-- For each symbol, its least distance and the number of further bits. -/
def distanceBase : List (Nat × Nat) :=
  [(1, 0), (2, 0), (3, 0), (4, 0), (5, 1), (7, 1), (9, 2), (13, 2), (17, 3), (25, 3), (33, 4),
   (49, 4), (65, 5), (97, 5), (129, 6), (193, 6), (257, 7), (385, 7), (513, 8), (769, 8),
   (1025, 9), (1537, 9), (2049, 10), (3073, 10), (4097, 11), (6145, 11), (8193, 12), (12289, 12),
   (16385, 13), (24577, 13)]

/-- The last entry whose least value is not above `x`: its place, that value, and its bits. -/
def lastBelow (table : List (Nat × Nat)) (x : Nat) : Nat × Nat × Nat :=
  table.zipIdx.foldl (fun best e => if e.1.1 ≤ x then (e.2, e.1.1, e.1.2) else best) (0, 0, 0)

end HashedAssets.Deflate
