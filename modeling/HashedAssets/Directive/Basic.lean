/-!
# Directives

A directive asks for something to be put in its place: the final content of an asset, the public
path of an asset, or the value of a variable.

* `DirectiveKind` and its words;
* `Directive`: kind, target and span.
-/

namespace HashedAssets

/-- What a directive asks for. -/
inductive DirectiveKind
  | include
  | path
  | variable
  deriving DecidableEq, Repr

/-- The word that stands for a kind in a directive. -/
def DirectiveKind.word : DirectiveKind → String
  | .include => "include"
  | .path => "path"
  | .variable => "var"

/-- The kind that a word stands for. -/
def DirectiveKind.ofWord? : String → Option DirectiveKind
  | "include" => some .include
  | "path" => some .path
  | "var" => some .variable
  | _ => none

/-- The words of all kinds, in alphabetical order. -/
def DirectiveKind.words : List String := ["include", "path", "var"]

/-- A directive that stands from offset `start` up to offset `stop` of the raw bytes. -/
structure Directive where
  kind : DirectiveKind
  target : String
  start : Int
  stop : Int
  deriving DecidableEq, Repr

@[simp] theorem DirectiveKind.ofWord?_word (k : DirectiveKind) : ofWord? k.word = some k := by
  cases k <;> rfl

end HashedAssets
