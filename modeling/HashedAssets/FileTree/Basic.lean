import HashedAssets.FileTree.Location
import HashedAssets.PathMap
import HashedAssets.Source

/-!
# Trees of files

Files and directories below a root, without links, and a working directory.

* `FileTree.ofFiles`: the tree of some files in an empty working directory;
* `read`, `write`, `makeDirectory`, `makeDirectories`: what is done with it;
* `filesBelow`: the files of the working directory.
-/

namespace HashedAssets

/-- A file or a directory. -/
inductive Node
  | directory
  | file (content : Bytes)
  deriving DecidableEq, Repr

/-- Files and directories by their names from the root, and the working directory. -/
structure FileTree where
  nodes : PathMap Node
  working : List String

namespace FileTree

/-- The parts of a name from the root, as the key of a node. -/
def key (parts : List String) : String := "/" ++ "/".intercalate parts

/-- The node at a place; the root is a directory. -/
def nodeAt (t : FileTree) (parts : List String) : Option Node :=
  if parts = [] then some .directory else t.nodes.get? (key parts)

/-- Put a node at a place. -/
def put (t : FileTree) (parts : List String) (n : Node) : FileTree :=
  { t with nodes := t.nodes.insert (key parts) n }

/-- Make directories of all beginnings of a place, but not of those given. -/
def putDirectories (t : FileTree) (above : List String) : List String → FileTree
  | [] => t
  | p :: rest => putDirectories (t.put (above ++ [p]) .directory) (above ++ [p]) rest

/-- How many bytes a part of a path may have. -/
def longestPart : Nat := 255

/-- How many bytes a path may have. -/
def longestPath : Nat := 4095

/-! ### Finding places -/

/-- Why a place is not found. -/
inductive Obstacle
  | missing
  | notDirectory
  | nameTooLong
  | nullInPath

/-- The text of an obstacle on the way to a path. -/
def Obstacle.fault (path : String) : Obstacle → SystemFault
  | .missing => .missing path
  | .notDirectory => .notDirectory path
  | .nameTooLong => .nameTooLong path
  | .nullInPath => .nullInPath

/-- Go from a place along parts. Every place but the last has to be a directory. -/
def walk (t : FileTree) (at' : List String) : List String → Except Obstacle (List String)
  | [] => .ok at'
  | p :: rest =>
      match t.nodeAt at' with
      | none => .error .missing
      | some (.file _) => .error .notDirectory
      | some .directory =>
          if p = ".." then walk t at'.dropLast rest
          else if longestPart < p.utf8ByteSize then .error .nameTooLong
          else walk t (at' ++ [p]) rest

/-- Where a location begins. -/
def origin (t : FileTree) (l : Location) : List String := if l.isAbsolute then [] else t.working

/-- The place of a location. -/
def place (t : FileTree) (l : Location) : Except SystemFault (List String) :=
  if l.parts.any fun p => p.toList.contains '\x00' then .error .nullInPath
  else if longestPath < l.text.utf8ByteSize then .error (.nameTooLong l.text)
  else (t.walk (t.origin l) l.parts).mapError (Obstacle.fault l.text)

/-- The place that a location names whether or not there is anything. -/
def resolve (t : FileTree) (l : Location) : List String :=
  l.parts.foldl (fun at' p => if p = ".." then at'.dropLast else at' ++ [p]) (t.origin l)

/-! ### Reading and writing -/

/-- The content of a file. -/
def read (t : FileTree) (l : Location) : Except SystemFault Bytes := do
  match t.nodeAt (← t.place l) with
  | none => throw (.missing l.text)
  | some .directory => throw (.isDirectory l.text)
  | some (.file b) => pure b

/-- Write a file, in place of one that is there. -/
def write (t : FileTree) (l : Location) (content : Bytes) : Except SystemFault FileTree := do
  let parts ← t.place l
  match t.nodeAt parts, t.nodeAt parts.dropLast with
  | some .directory, _ => throw (.isDirectory l.text)
  | _, some .directory => pure (t.put parts (.file content))
  | _, some (.file _) => throw (.notDirectory l.text)
  | _, none => throw (.missing l.text)

/-- Whether a location names a directory. -/
def isDirectory (t : FileTree) (l : Location) : Bool :=
  match t.place l with
  | .ok parts => t.nodeAt parts == some .directory
  | .error _ => false

/-- Make a directory in a directory that is there. -/
def makeDirectory (t : FileTree) (l : Location) : Except SystemFault FileTree := do
  let parts ← t.place l
  match t.nodeAt parts, t.nodeAt parts.dropLast with
  | some _, _ => throw (.exists l.text)
  | none, some .directory => pure (t.put parts .directory)
  | none, some (.file _) => throw (.notDirectory l.text)
  | none, none => throw (.missing l.text)

/-- Make a directory unless it is there; the directories above it have to be there already. -/
def ensureDirectory (t : FileTree) (l : Location) : Except SystemFault FileTree :=
  match t.makeDirectory l with
  | .ok t => .ok t
  | .error f => if t.isDirectory l then .ok t else .error f

/-- Make a directory and the directories above it, as far as they are missing; `n` is the number of
parts of the location. -/
def makeDirectoriesWithin : Nat → FileTree → Location → Except SystemFault FileTree
  | 0, t, l => t.ensureDirectory l
  | n + 1, t, l =>
      match t.makeDirectory l with
      | .ok t => .ok t
      | .error (.missing _) => do
          let t ← makeDirectoriesWithin n t l.parent
          t.ensureDirectory l
      | .error f => if t.isDirectory l then .ok t else .error f

/-- Make a directory and the directories above it, as far as they are missing. -/
def makeDirectories (t : FileTree) (l : Location) : Except SystemFault FileTree :=
  makeDirectoriesWithin l.parts.length t l

/-! ### Whole trees -/

/-- An empty tree with a working directory. -/
def empty (working : List String) : FileTree := putDirectories ⟨∅, working⟩ [] working

/-- The tree of files in a working directory that holds nothing else. -/
def ofFiles (working : List String) (files : List (String × Bytes)) : FileTree :=
  files.foldl (fun t f =>
    let parts := t.resolve (Location.ofText f.1)
    (putDirectories t [] parts.dropLast).put parts (.file f.2)) (empty working)

/-- The files below the working directory, by their names from there, in the order of these. -/
def filesBelow (t : FileTree) : List (String × Bytes) :=
  let above := key t.working ++ "/"
  t.nodes.bindings.filterMap fun x => match x.2 with
    | .file b =>
        if above.toList.isPrefixOf x.1.toList then
          some (String.ofList (x.1.toList.drop above.length), b)
        else none
    | .directory => none

/-- The files below the working directory that another tree does not have. -/
def filesSince (t before : FileTree) : List (String × Bytes) :=
  let old := before.filesBelow.map (·.1)
  t.filesBelow.filter fun f => !old.contains f.1

/-- The files that another tree does not have, or not with the same content, by their names from the
root. -/
def changesSince (t before : FileTree) : List (String × Bytes) :=
  t.nodes.bindings.filterMap fun x => match x.2 with
    | .file b => if before.nodes.get? x.1 = some x.2 then none else some (x.1, b)
    | .directory => none

end FileTree

/-- A loader that reads a file whenever it is called. -/
def Loader.ofFile (t : FileTree) (path : String) : Loader :=
  .constant ((t.read (Location.ofText path)).mapError .system)

end HashedAssets
