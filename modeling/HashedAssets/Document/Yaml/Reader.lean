import HashedAssets.Document.Yaml.Lexer
import HashedAssets.Document.Yaml.Plain

/-!
# Reading the tokens of a YAML text

* `Node`: a value as written, with its tag and the place where it begins;
* `Reader`: the tokens that are left, and the names that are given to tags and nodes;
* `Reading`: steps that read tokens, until something is wrong.
-/

namespace HashedAssets.Yaml

/-! ### Nodes -/

/-- A value as written. -/
inductive Node
  | scalar (tag : Tag) (start : Mark) (text : String)
  | sequence (tag : Tag) (start : Mark) (items : List Node)
  | mapping (tag : Tag) (start : Mark) (entries : List (Node × Node))
  deriving Repr

namespace Node

/-- The tag of a node. -/
def tag : Node → Tag
  | .scalar t _ _ => t
  | .sequence t _ _ => t
  | .mapping t _ _ => t

/-- Where a node begins. -/
def start : Node → Mark
  | .scalar _ m _ => m
  | .sequence _ m _ => m
  | .mapping _ m _ => m

/-- The word for the form of a node. -/
def form : Node → String
  | .scalar .. => "scalar"
  | .sequence .. => "sequence"
  | .mapping .. => "mapping"

/-- The node where nothing is written. -/
def absent (m : Mark) : Node := .scalar .null m ""

end Node

/-! ### Readers -/

/-- A name given to a node, and the place where that begins. The node is missing while it is being
read. -/
structure Anchor where
  name : String
  start : Mark
  node : Option Node

/-- The tokens that are left, with the number of those read. -/
structure Reader where
  tokens : List Token
  taken : Nat
  /-- How many nodes are begun and not ended. -/
  depth : Nat
  /-- The fault of the text, and the number of the first token that is not known because of it. -/
  fault : Option (Nat × Fault)
  /-- What the handles of tags stand for. -/
  handles : List (String × String)
  anchors : List Anchor

/-- What the handles of tags stand for if nothing is said. -/
def commonHandles : List (String × String) := [("!", "!"), ("!!", Tag.common)]

/-- The beginning of a stream of tokens. -/
def Reader.start (s : Stream) : Reader :=
  { tokens := s.tokens, taken := 0, depth := 0, fault := s.fault, handles := commonHandles, anchors := [] }

/-- A step that reads tokens. -/
abbrev Reading := StateT Reader (Except Fault)

namespace Reading

/-- Something is wrong at a place. -/
def fail (setting : Option Setting) (start : Option Mark) (p : Problem) (place : Mark) : Reading α :=
  throw (.found setting start p place)

/-- The next token. -/
def peek : Reading Token := do
  let r ← get
  match r.fault, r.tokens with
  | some (known, f), t :: _ => if known ≤ r.taken then throw f else pure t
  | some (_, f), [] => throw f
  | none, t :: _ => pure t
  | none, [] => pure ⟨.textEnd, default, default⟩

/-- Go past the next token. -/
def skip : Reading Unit :=
  modify fun r => { r with tokens := r.tokens.tail, taken := r.taken + 1 }

/-- Go past the next token if it is of a kind, and tell whether it is. -/
def skipIf (k : TokenKind) : Reading Bool := do
  if (← peek).kind == k then
    skip
    pure true
  else pure false

/-- Read something, unless the next token is one of some kinds; then there is nothing at a place. -/
def unlessNext (stops : List TokenKind) (place : Mark) (read : Reading Node) : Reading Node := do
  if stops.contains (← peek).kind then pure (Node.absent place) else read

/-- How many nodes may stand within one another. -/
def deepest : Nat := 484

/-- Read what stands within a node. -/
def inside (read : Reading α) : Reading α := do
  let r ← get
  if deepest ≤ r.depth then throw .tooDeep
  set { r with depth := r.depth + 1 }
  let a ← read
  modify fun r => { r with depth := r.depth - 1 }
  pure a

/-! ### Names of nodes -/

/-- Give a name to the node that begins at a place. -/
def declare (name : Option String) (start : Mark) : Reading Unit := do
  match name with
  | none => pure ()
  | some name =>
      match (← get).anchors.find? (·.name == name) with
      | some first => fail (some (.firstAnchor name)) (some first.start) .secondAnchor start
      | none => modify fun r => { r with anchors := ⟨name, start, none⟩ :: r.anchors }

/-- The node of a name is read. -/
def define (name : Option String) (node : Node) : Reading Node := do
  match name with
  | none => pure node
  | some name =>
      modify fun r =>
        { r with anchors := r.anchors.map fun a =>
            if a.name == name then { a with node := some node } else a }
      pure node

/-- The node of a name. A node cannot stand within itself. -/
def follow (name : String) (place : Mark) : Reading Node := do
  match (← get).anchors.find? (·.name == name) with
  | none => fail none none (.undefinedAlias name) place
  | some a => match a.node with
    | some node => pure node
    | none => fail none none .endless a.start

/-! ### Directives -/

/-- Read directives, and give the handles that they declare. -/
def directives (version : Bool) (handles : List (String × String)) :
    Nat → Reading (List (String × String))
  | 0 => pure handles
  | n + 1 => do
      let t ← peek
      match t.kind with
      | .declaration d =>
          skip
          match d with
          | .version major _ =>
              if version then fail none none .duplicateVersion t.start
              else if major ≠ 1 then fail none none .incompatibleVersion t.start
              else directives true handles n
          | .handle h tags =>
              if (handles.lookup h).isSome then fail none none (.duplicateHandle h) t.start
              else directives version (handles ++ [(h, tags)]) n
          | .other _ => directives version handles n
      | _ => pure handles

/-! ### Properties of nodes -/

/-- What is said about a node in front of it: its name, its tag, and where that begins. -/
structure Properties where
  anchor : Option String := none
  tag : Option String := none
  start : Option Mark := none

/-- The full name of a tag. -/
def tagName (handle : Option String) (suffix : String) (start place : Mark) : Reading String := do
  match handle with
  | none => pure suffix
  | some h => match (← get).handles.lookup h with
    | some tags => pure (tags ++ suffix)
    | none => fail (some .node) (some start) (.undefinedHandle h) place

/-- Read what is said about a node in front of it. -/
def properties : Reading Properties := do
  let t ← peek
  match t.kind with
  | .anchor name =>
      skip
      let u ← peek
      match u.kind with
      | .tag h suffix =>
          skip
          let tag ← tagName h suffix t.start u.start
          pure { anchor := some name, tag := some tag, start := some t.start }
      | _ => pure { anchor := some name, start := some t.start }
  | .tag h suffix =>
      skip
      let u ← peek
      match u.kind with
      | .anchor name =>
          skip
          let tag ← tagName h suffix t.start t.start
          pure { anchor := some name, tag := some tag, start := some t.start }
      | _ =>
          let tag ← tagName h suffix t.start t.start
          pure { tag := some tag, start := some t.start }
  | _ => pure {}

namespace Properties

/-- The tag of a scalar. A tag of one mark says that the scalar is as if it were plain. -/
def scalarTag (p : Properties) (text : String) (plain : Bool) : Tag :=
  match p.tag with
  | none => if plain then Tag.ofPlain text else .text
  | some name => if name == "!" then Tag.ofPlain text else Tag.ofName name

/-- The tag of a sequence or mapping, which is `usual` if nothing is said. -/
def collectionTag (p : Properties) (usual : Tag) : Tag :=
  match p.tag with
  | none => usual
  | some name => if name == "!" then usual else Tag.ofName name

/-- Whether nothing is said. -/
def isEmpty (p : Properties) : Bool := p.anchor.isNone && p.tag.isNone

end Properties

end Reading

end HashedAssets.Yaml
