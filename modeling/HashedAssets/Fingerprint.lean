import HashedAssets.Encoding.Base64Url
import HashedAssets.Failure

/-!
# Digests and hashed paths

The digest of an asset is the hash of its final content followed by the digests of what it depends
on, so that a change anywhere below an asset changes its digest.

* `digest`: the digest of an asset;
* `hashText`: the beginning of a digest as it stands in a path;
* `publicPath`: a logical path with that text put in.
-/

namespace HashedAssets

/-- The digests of dependencies in ascending order of their paths, those of equal paths in the order
given. -/
def inPathOrder (deps : List (String × Bytes)) : List (String × Bytes) :=
  deps.mergeSort fun a b => decide (a.1 ≤ b.1)

/-- The bytes that are hashed for an asset: its final content, then the digests it depends on. -/
def preimage (content : Bytes) (deps : List (String × Bytes)) : Bytes :=
  content ++ (inPathOrder deps).flatMap (·.2)

/-- The digest of an asset. -/
def digest (hash : Bytes → Bytes) (content : Bytes) (deps : List (String × Bytes)) : Bytes :=
  hash (preimage content deps)

/-- The first `length` bytes of a digest as text for a path. -/
def hashText (digest : Bytes) (length : Int) : Except Failure String :=
  if length < 1 ∨ digest.length < length then .error (.hashLength digest.length length)
  else .ok (Base64Url.encode (digest.take length.toNat))

/-- A list of characters up to its last `c`, and from that on. -/
def splitLast? (c : Char) (cs : List Char) : Option (List Char × List Char) :=
  if cs.contains c then
    let tail := cs.reverse.takeWhile (· != c)
    some (cs.take (cs.length - tail.length - 1), cs.drop (cs.length - tail.length - 1))
  else none

/-- The directories of a path, up to its last slash, and its last segment. -/
def splitSegment (cs : List Char) : List Char × List Char :=
  let segment := (cs.reverse.takeWhile (· != '/')).reverse
  (cs.take (cs.length - segment.length), segment)

/-- Put a text before the extension of a path, with a dot; or behind a path without an extension,
with a hyphen. A dot at the beginning of the last segment does not begin an extension. -/
def spliceText (path text : String) : String :=
  let (directories, segment) := splitSegment path.toList
  match splitLast? '.' segment with
  | some (c :: stem, extension) =>
      String.ofList (directories ++ (c :: stem) ++ '.' :: text.toList ++ extension)
  | _ => path ++ "-" ++ text

/-- The public path of a hashed asset: the text of its digest put into its logical path, or between
the two texts given. -/
def publicPath (path : String) (digest : Bytes) (length : Int)
    (between : Option (String × String)) : Except Failure String :=
  (hashText digest length).map fun text =>
    match between with
    | some (before, after) => before ++ text ++ after
    | none => spliceText path text

end HashedAssets
