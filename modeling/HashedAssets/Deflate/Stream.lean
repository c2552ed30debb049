import HashedAssets.Deflate.Code
import HashedAssets.Deflate.Token

/-!
# Deflate streams

* `compress`: a byte string as one block in the code without a table;
* `decompress?`: the bytes of a stream and the bytes after it, for blocks of every kind.
-/

namespace HashedAssets.Deflate

/-! ### Bits and bytes -/

/-- The number whose bits these are, the lowest first. -/
def ofLowBits : List Bool → Nat
  | [] => 0
  | b :: bits => b.toNat + 2 * ofLowBits bits

/-- The bits of bytes, the lowest bit of each first. -/
def bitsOf (b : Bytes) : List Bool := b.flatMap fun x => lowBits 8 x.toNat

/-- Bits as bytes, the last one filled with zeros. -/
def packBits : List Bool → Bytes
  | a :: b :: c :: d :: e :: f :: g :: h :: rest =>
      UInt8.ofNat (ofLowBits [a, b, c, d, e, f, g, h]) :: packBits rest
  | [] => []
  | rest => [UInt8.ofNat (ofLowBits rest)]

/-! ### Writing -/

/-- The words of the code without a table, at the places of their symbols. -/
def literalWords : Array (List Bool) :=
  (words literalLengths).foldl (fun a w => a.setIfInBounds w.1 w.2) (Array.replicate 288 [])

/-- The word of a symbol for a byte, an end or a length. -/
def literalWord (s : Nat) : List Bool := literalWords.getD s []

/-- The bits of a token. -/
def Token.bits : Token → List Bool
  | .literal b => literalWord b.toNat
  | .copy length distance =>
      let (s, least, extra) := lastBelow lengthBase length
      let (d, nearest, further) := lastBelow distanceBase distance
      literalWord (257 + s) ++ lowBits extra (length - least)
        ++ highBits 5 d ++ lowBits further (distance - nearest)

/-- A byte string as a deflate stream of one block. -/
def compress (b : Bytes) : Bytes :=
  packBits ([true, true, false] ++ (tokens b).flatMap Token.bits ++ literalWord 256)

/-! ### Reading -/

/-- Read a number of `n` bits, the lowest first. -/
def readNumber? (n : Nat) (bits : List Bool) : Option (Nat × List Bool) :=
  if (bits.take n).length = n then some (ofLowBits (bits.take n), bits.drop n) else none

/-- Read tokens of one block into `out`, until its end; each token takes a bit at least. -/
def readTokens? (literals distances : Tree) :
    Nat → List Bool → Array UInt8 → Option (Array UInt8 × List Bool)
  | 0, _, _ => none
  | fuel + 1, bits, out => do
      let (s, bits) ← literals.read? bits
      if s < 256 then readTokens? literals distances fuel bits (out.push (UInt8.ofNat s))
      else if s = 256 then pure (out, bits)
      else
        let (least, extra) ← lengthBase[s - 257]?
        let (more, bits) ← readNumber? extra bits
        let (d, bits) ← distances.read? bits
        let (nearest, further) ← distanceBase[d]?
        let (beyond, bits) ← readNumber? further bits
        let out ← Token.apply? out (.copy (least + more) (nearest + beyond))
        readTokens? literals distances fuel bits out

/-- The order in which the lengths of the words for lengths are written. -/
def tableOrder : List Nat := [16, 17, 18, 0, 8, 7, 9, 6, 10, 5, 11, 4, 12, 3, 13, 2, 14, 1, 15]

/-- Read lengths of words, `missing` of them, in the code `t` for lengths and repetitions. -/
def readLengths? (t : Tree) : Nat → Nat → List Bool → List Nat → Option (List Nat × List Bool)
  | 0, missing, bits, found => if missing = 0 then some (found.reverse, bits) else none
  | fuel + 1, missing, bits, found =>
      if missing = 0 then some (found.reverse, bits)
      else do
        let (s, bits) ← t.read? bits
        if s < 16 then readLengths? t fuel (missing - 1) bits (s :: found)
        else
          let (value, least, width) ←
            if s = 16 then (found.head?).map fun v => (v, 3, 2)
            else if s = 17 then some (0, 3, 3) else some (0, 11, 7)
          let (more, bits) ← readNumber? width bits
          let n := least + more
          if missing < n then none
          else readLengths? t fuel (missing - n) bits (List.replicate n value ++ found)

/-- Read `n` numbers of three bits. -/
def readTriples? : Nat → List Bool → Option (List Nat × List Bool)
  | 0, bits => some ([], bits)
  | n + 1, bits => do
      let (x, bits) ← readNumber? 3 bits
      let (xs, bits) ← readTriples? n bits
      pure (x :: xs, bits)

/-- Read the two codes of a block that carries its own. -/
def readCodes? (bits : List Bool) : Option (Tree × Tree × List Bool) := do
  let (literals, bits) ← readNumber? 5 bits
  let (distances, bits) ← readNumber? 5 bits
  let (sizes, bits) ← readNumber? 4 bits
  let (triples, bits) ← readTriples? (sizes + 4) bits
  let lengthAt (s : Nat) : Nat := ((tableOrder.zip triples).lookup s).getD 0
  let t := Tree.ofLengths ((List.range 19).map lengthAt)
  let (lengths, bits) ← readLengths? t (literals + distances + 258) (literals + distances + 258)
    bits []
  pure (Tree.ofLengths (lengths.take (literals + 257)),
    Tree.ofLengths (lengths.drop (literals + 257)), bits)

/-- Read a block whose bytes stand as they are; `bits` begin at bit `at'` of the stream. -/
def readStored? (bits : List Bool) (at' : Nat) (out : Array UInt8) :
    Option (Array UInt8 × List Bool) := do
  let bits := bits.drop ((8 - at' % 8) % 8)
  let (n, bits) ← readNumber? 16 bits
  let (check, bits) ← readNumber? 16 bits
  if n + check ≠ 65535 ∨ bits.length < 8 * n then none
  else pure (out ++ packBits (bits.take (8 * n)), bits.drop (8 * n))

/-- Read blocks up to the last one; each block takes three bits at least. -/
def readBlocks? (size : Nat) : Nat → List Bool → Array UInt8 → Option (Array UInt8 × List Bool)
  | 0, _, _ => none
  | fuel + 1, bits, out => do
      let (last, bits) ← readNumber? 1 bits
      let (kind, bits) ← readNumber? 2 bits
      let (out, bits) ←
        if kind = 0 then readStored? bits (size - bits.length) out
        else if kind = 1 then
          readTokens? (.ofLengths literalLengths) (.ofLengths distanceLengths) bits.length bits out
        else if kind = 2 then do
          let (literals, distances, bits) ← readCodes? bits
          readTokens? literals distances bits.length bits out
        else none
      if last = 1 then pure (out, bits) else readBlocks? size fuel bits out

/-- The bytes of a deflate stream, and the bytes that stand after its end. -/
def decompress? (b : Bytes) : Option (Bytes × Bytes) := do
  let bits := bitsOf b
  let (out, rest) ← readBlocks? bits.length bits.length bits #[]
  pure (out.toList, b.drop (b.length - rest.length / 8))

end HashedAssets.Deflate
