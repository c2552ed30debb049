import HashedAssets.Directive.Parser

/-!
# Writing directives

The printed form of a directive, and of literal bytes with directives between them.

* `print`: one directive;
* `Part`, `printAll`: literals and directives in turn;
* `spans`: the directives of a printed text, with the offsets at which they stand.
-/

namespace HashedAssets.Directive

/-- The printed form of a directive. -/
def print (kind : DirectiveKind) (target : String) : Bytes :=
  opening ++ Bytes.ofText kind.word ++ [0x3a] ++ Bytes.ofText target ++ closing

/-- A directive and the literal bytes behind it. -/
structure Part where
  kind : DirectiveKind
  target : String
  literal : Bytes

/-- Literal bytes, followed by directives with literal bytes behind each. -/
def printAll (first : Bytes) (parts : List Part) : Bytes :=
  first ++ parts.flatMap fun p => print p.kind p.target ++ p.literal

/-- The directives of a printed text; the first of them begins at `offset`. -/
def spans (offset : Nat) : List Part → List Directive
  | [] => []
  | p :: rest =>
      let stop := offset + (print p.kind p.target).length
      { kind := p.kind, target := p.target, start := offset, stop := stop }
        :: spans (stop + p.literal.length) rest

end HashedAssets.Directive
