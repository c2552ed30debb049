import HashedAssets.Document.Yaml.Cursor

/-!
# Tokens of YAML

* `TokenKind`, `Token`: the tokens, with the places where they begin and end;
* `TokenKind.name`: the name of a token in messages.
-/

namespace HashedAssets.Yaml

/-- A directive: the version of the language, a handle for tags, or one that means nothing. -/
inductive Declaration
  | version (major minor : Nat)
  | handle (handle tags : String)
  | other (name : String)
  deriving DecidableEq, Repr

/-- The kinds of tokens. A quoted or block scalar is not plain. -/
inductive TokenKind
  | textEnd
  | declaration (d : Declaration)
  | documentStart
  | documentEnd
  | blockSequenceStart
  | blockMappingStart
  | blockEnd
  | flowSequenceStart
  | flowMappingStart
  | flowSequenceEnd
  | flowMappingEnd
  | key
  | value
  | blockEntry
  | flowEntry
  | alias (name : String)
  | anchor (name : String)
  | tag (handle : Option String) (suffix : String)
  | scalar (value : String) (plain : Bool)
  deriving DecidableEq, Repr

/-- The name of a token in messages. -/
def TokenKind.name : TokenKind → String
  | .textEnd => "<stream end>"
  | .declaration _ => "<directive>"
  | .documentStart => "<document start>"
  | .documentEnd => "<document end>"
  | .blockSequenceStart => "<block sequence start>"
  | .blockMappingStart => "<block mapping start>"
  | .blockEnd => "<block end>"
  | .flowSequenceStart => "["
  | .flowMappingStart => "\x7b"
  | .flowSequenceEnd => "]"
  | .flowMappingEnd => "\x7d"
  | .key => "?"
  | .value => ":"
  | .blockEntry => "-"
  | .flowEntry => ","
  | .alias _ => "<alias>"
  | .anchor _ => "<anchor>"
  | .tag .. => "<tag>"
  | .scalar .. => "<scalar>"

/-- A token and where it stands. -/
structure Token where
  kind : TokenKind
  start : Mark
  stop : Mark
  deriving DecidableEq, Repr

end HashedAssets.Yaml
