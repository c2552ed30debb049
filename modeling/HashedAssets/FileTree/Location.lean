/-!
# Locations of files

A location names a file or directory, either from the root or from the working directory. Empty parts
and parts that stand for the directory itself do not count; parts that lead upwards stay.

* `Location.ofText`, `Location.text`: locations and their written form;
* `Location.join`, `Location.parent`: going down and up.
-/

namespace HashedAssets

/-- The parts of a location, after what it begins with: nothing, one slash or two. -/
structure Location where
  root : String
  parts : List String
  deriving DecidableEq, Repr

namespace Location

/-- The pieces of a list of characters between the slashes. -/
def pieces : List Char → List (List Char)
  | [] => [[]]
  | c :: cs =>
      if c = '/' then [] :: pieces cs
      else match pieces cs with
        | [] => [[c]]
        | p :: ps => (c :: p) :: ps

/-- What a path begins with: exactly two slashes are kept apart from one or many. -/
def rootOf (cs : List Char) : String :=
  match (cs.takeWhile (· == '/')).length with
  | 0 => ""
  | 2 => "//"
  | _ => "/"

/-- The location that a text names. -/
def ofText (s : String) : Location :=
  { root := rootOf s.toList
    parts := ((pieces s.toList).map String.ofList).filter fun p => p != "" && p != "." }

/-- The written form of a location; the working directory itself is written as a dot. -/
def text (l : Location) : String :=
  if l.root = "" ∧ l.parts = [] then "." else l.root ++ "/".intercalate l.parts

/-- Whether a location is named from the root. -/
def isAbsolute (l : Location) : Bool := l.root != ""

/-- What `m` names from `l`. -/
def join (l m : Location) : Location :=
  if m.isAbsolute then m else { l with parts := l.parts ++ m.parts }

/-- The location of parts from the root. -/
def ofParts (parts : List String) : Location := ⟨"/", parts⟩

/-- The location without its last part. -/
def parent (l : Location) : Location := { l with parts := l.parts.dropLast }

end Location

end HashedAssets
