import HashedAssets.Deflate.Stream

/-!
# Gzip members

A deflate stream between a header of ten bytes and a trailer of eight: the checksum and the length
of the bytes, the lowest byte first.

* `crc32`: the checksum;
* `compress`: a member without name or time, marked as the densest compression.
-/

namespace HashedAssets.Gzip

/-- One bit of the division behind the checksum. -/
def crcStep (c : UInt32) : UInt32 :=
  if c &&& 1 = 1 then (c >>> 1) ^^^ 0xedb88320 else c >>> 1

/-- Take one byte into a running checksum. -/
def crcByte (c : UInt32) (b : UInt8) : UInt32 :=
  (List.range 8).foldl (fun c _ => crcStep c) (c ^^^ b.toUInt32)

/-- The checksum CRC-32. -/
def crc32 (b : Bytes) : UInt32 := (b.foldl crcByte 0xffffffff) ^^^ 0xffffffff

/-- The four low bytes of a number, the lowest first. -/
def littleEndian (n : Nat) : Bytes := (List.range 4).map fun i => UInt8.ofNat (n >>> (8 * i))

/-- No name, no time, densest compression, written on a Unix-like system. -/
def header : Bytes := [0x1f, 0x8b, 8, 0, 0, 0, 0, 0, 2, 3]

/-- The checksum and the length of the bytes. -/
def trailer (b : Bytes) : Bytes := littleEndian (crc32 b).toNat ++ littleEndian b.length

/-- A byte string as a gzip member. -/
def compress (b : Bytes) : Bytes := header ++ Deflate.compress b ++ trailer b

/-- The bytes of a member with such a header, if its trailer agrees with them. -/
def decompress? (b : Bytes) : Option Bytes := do
  if b.take 10 ≠ header then none
  else
    let (out, rest) ← Deflate.decompress? (b.drop 10)
    if rest = trailer out then some out else none

end HashedAssets.Gzip
