import HashedAssets.Directive.Basic
import HashedAssets.Graph.Edge
import HashedAssets.Source

/-!
# Faults and failures

A *fault* is one thing that is wrong with one asset, or with a group of assets that need one another.
A *failure* is why an operation ends without a result: a fault, all faults of a build, or a demand
that cannot be met.

* `SyntaxFault`, `Fault`, `Failure`: the causes;
* `message`: the text of each.
-/

namespace HashedAssets

/-- What is wrong with a directive. -/
inductive SyntaxFault
  | unterminated
  | tooLong
  | notText
  | empty
  | withoutColon (text : String)
  | unknownKind (word : String)
  | withoutTarget (kind : DirectiveKind)
  deriving DecidableEq, Repr

/-- The text of a fault in a directive. -/
def SyntaxFault.message : SyntaxFault → String
  | .unterminated => "unterminated directive"
  | .tooLong => "directive longer than 256 bytes"
  | .notText => "directive is not valid UTF-8"
  | .empty => "empty directive"
  | .withoutColon text => "expected 'kind:target', got '" ++ text ++ "'"
  | .unknownKind word =>
      "unknown directive kind '" ++ word ++ "' (expected one of: "
        ++ ", ".intercalate DirectiveKind.words ++ ")"
  | .withoutTarget kind => "'" ++ kind.word ++ "' directive without target"

/-- One thing that is wrong with an asset. -/
inductive Fault
  /-- An asset asks for another one that is not registered. -/
  | unknownTarget (inPath target : String) (kind : EdgeKind)
  /-- Assets need one another. -/
  | cycle (paths : List String)
  /-- A directive is malformed. -/
  | malformed (path : String) (offset : Nat) (reason : SyntaxFault)
  /-- A variable has no value. -/
  | undefinedVariable (path name : String)
  /-- The source of an asset gave no bytes; the text says why. -/
  | unreadable (path : String) (reason : String)
  /-- Nothing is registered, or served, under a path. -/
  | notFound (path : String)
  deriving DecidableEq, Repr

/-- The text of a fault. -/
def Fault.message : Fault → String
  | .unknownTarget inPath target kind =>
      "unresolved " ++ kind.word ++ " in '" ++ inPath ++ "': asset '" ++ target
        ++ "' does not exist"
  | .cycle paths =>
      "cyclic dependency detected: " ++ " -> ".intercalate (paths ++ paths.take 1)
  | .malformed path offset reason =>
      "template error in '" ++ path ++ "' at byte " ++ toString offset ++ ": " ++ reason.message
  | .undefinedVariable path name =>
      "variable '" ++ name ++ "' is used in '" ++ path
        ++ "', but that variable has not been defined"
  | .unreadable path reason => "IO error while loading '" ++ path ++ "': " ++ reason
  | .notFound path => "asset '" ++ path ++ "' not found"

/-- Why an operation ends without a result. -/
inductive Failure
  /-- One fault. -/
  | fault (f : Fault)
  /-- All the faults that a build has found. -/
  | build (faults : List Fault)
  /-- A digest of `available` bytes is too short for a path. -/
  | hashLength (available : Nat) (wanted : Int)
  /-- The digests of a hash function are too short for all paths. -/
  | digestSize (available : Nat) (wanted : Int)
  /-- A directive starts before the end of the one before it. -/
  | overlap (offset : Int)
  /-- An asset is needed that is not among the resolved ones. -/
  | unresolved (path : String)
  /-- An asset is named by no text at all. -/
  | unnamed
  /-- A dynamic asset has no loader. -/
  | withoutLoader (path : String)
  /-- An asset that is not dynamic has no content. -/
  | withoutContent (path : String)
  /-- Nothing is registered under the name of a hash function or compressor. -/
  | unknownCodec (what name : String) (known : List String)
  /-- A finished set of assets is asked to change. -/
  | immutable
  deriving DecidableEq, Repr

/-- The text of a failure. -/
def Failure.message : Failure → String
  | .fault f => f.message
  | .build faults =>
      toString faults.length ++ " error(s) while building assets:\n"
        ++ "\n".intercalate (faults.map fun f => "  - " ++ f.message)
  | .hashLength available wanted =>
      "hash_length must be between 1 and " ++ toString available ++ ", got " ++ toString wanted
  | .digestSize available wanted =>
      if Decimal.isWritable wanted then
        "hash_length " ++ toString wanted ++ " exceeds digest size " ++ toString available
      else Decimal.LimitFault.writing.message
  | .overlap offset => "Overlapping directive at byte " ++ toString offset
  | .unresolved path => Text.quoted path
  | .unnamed => "Asset logical_path must not be empty"
  | .withoutLoader path => "Dynamic asset '" ++ path ++ "' requires a loader"
  | .withoutContent path => "Asset '" ++ path ++ "' requires content"
  | .unknownCodec what name known =>
      "Unknown " ++ what ++ ": " ++ name ++ " (known: " ++ ", ".intercalate known ++ ")"
  | .immutable => "Eager registries are immutable; rebuild to pick up changes"

/-- Whether a failure lies in the assets: a fault, or the faults of a build. -/
def Failure.isOfAsset : Failure → Bool
  | .fault _ => true
  | .build _ => true
  | _ => false

/-- A list of faults as one failure: a single fault as itself, several together. -/
def Failure.ofFaults (fs : List Fault) : Option Failure :=
  match fs with
  | [] => none
  | [f] => some (.fault f)
  | fs => some (.build fs)

end HashedAssets
