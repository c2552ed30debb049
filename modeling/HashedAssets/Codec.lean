import HashedAssets.Digest.Blake2b
import HashedAssets.Digest.Sha256
import HashedAssets.Digest.Sha3
import HashedAssets.Encoding.Gzip
import HashedAssets.Failure
import HashedAssets.PathMap

/-!
# Hash functions and compressors by name

* `HashAlgorithm`, `Compression`: the ones that settings can choose;
* `CodecTable`: functions registered under names, the latest under each.
-/

namespace HashedAssets

/-- A hash function that settings can choose. -/
inductive HashAlgorithm
  | blake2b
  | sha256
  | sha3
  deriving DecidableEq, Repr

namespace HashAlgorithm

/-- All of them, in the order of their names. -/
def all : List HashAlgorithm := [.blake2b, .sha256, .sha3]

/-- The name of a hash function. -/
def name : HashAlgorithm → String
  | .blake2b => "blake2b"
  | .sha256 => "sha256"
  | .sha3 => "sha3_256"

/-- The function itself. -/
def run : HashAlgorithm → Bytes → Bytes
  | .blake2b => Blake2b.hash
  | .sha256 => Sha256.hash
  | .sha3 => Sha3.hash

/-- The hash function with a name. -/
def ofName? (s : String) : Option HashAlgorithm := all.find? (·.name == s)

end HashAlgorithm

/-- A compressor that settings can choose. -/
inductive Compression
  | deflate
  | gzip
  | none
  deriving DecidableEq, Repr

namespace Compression

/-- All of them, in the order of their names. -/
def all : List Compression := [.deflate, .gzip, .none]

/-- The name of a compressor. -/
def name : Compression → String
  | .deflate => "deflate"
  | .gzip => "gzip"
  | .none => "none"

/-- The function itself. -/
def run : Compression → Bytes → Bytes
  | .deflate => Deflate.compress
  | .gzip => Gzip.compress
  | .none => id

/-- The compressor with a name. -/
def ofName? (s : String) : Option Compression := all.find? (·.name == s)

end Compression

/-! ### Tables -/

/-- Functions registered under names: hash functions and compressors. -/
structure CodecTable where
  hashers : PathMap (Bytes → Bytes)
  compressors : PathMap (Bytes → Bytes)

namespace CodecTable

/-- Register the built-in functions, in place of others of their names. -/
def addBuiltins (t : CodecTable) : CodecTable :=
  { hashers := HashAlgorithm.all.foldl (fun m a => m.insert a.name a.run) t.hashers
    compressors := Compression.all.foldl (fun m c => m.insert c.name c.run) t.compressors }

/-- The table of the built-in functions. -/
def builtin : CodecTable := addBuiltins ⟨∅, ∅⟩

/-- The hash function of a name. -/
def hasher (t : CodecTable) (name : String) : Except Failure (Bytes → Bytes) :=
  match t.hashers.get? name with
  | some f => .ok f
  | none => .error (.unknownCodec "hash algorithm" name t.hashers.keys)

/-- The compressor of a name. -/
def compressor (t : CodecTable) (name : String) : Except Failure (Bytes → Bytes) :=
  match t.compressors.get? name with
  | some f => .ok f
  | none => .error (.unknownCodec "compression" name t.compressors.keys)

end CodecTable

end HashedAssets
