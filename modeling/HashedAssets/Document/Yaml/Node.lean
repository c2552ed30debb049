import HashedAssets.Document.Yaml.Reader

/-!
# Nodes from tokens

* `Reading.node`: reading a node, in a block or between brackets;
* `Reading.document`: reading the one document of a text;
* `Node.ofText?`: the node that a text is, if it is not empty.
-/

namespace HashedAssets.Yaml

namespace Reading

mutual

/-- Read a node. Outside of brackets it may be a block; where an `indentless` block is allowed, hyphens
may stand in the column of the mapping around them. -/
def node (block indentless : Bool) : Nat → Reading Node
  | 0 => do pure (Node.absent (← peek).start)
  | n + 1 => do
      let t ← peek
      if let .alias name := t.kind then
        skip
        follow name t.start
      else
        let p ← properties
        let t ← peek
        let start := p.start.getD t.start
        if indentless && t.kind == .blockEntry then
          declare p.anchor start
          define p.anchor (.sequence (p.collectionTag .sequence) start (← inside (indentlessItems n)))
        else match t.kind with
        | .scalar text plain =>
            skip
            declare p.anchor start
            define p.anchor (.scalar (p.scalarTag text plain) start text)
        | .flowSequenceStart =>
            declare p.anchor start
            skip
            let items ← inside (flowItems t.start true n)
            define p.anchor (.sequence (p.collectionTag .sequence) start items)
        | .flowMappingStart =>
            declare p.anchor start
            skip
            let entries ← inside (flowEntries t.start true n)
            define p.anchor (.mapping (p.collectionTag .mapping) start entries)
        | k =>
            if block && k == .blockSequenceStart then
              declare p.anchor start
              skip
              let items ← inside (blockItems t.start n)
              define p.anchor (.sequence (p.collectionTag .sequence) start items)
            else if block && k == .blockMappingStart then
              declare p.anchor start
              skip
              let entries ← inside (blockEntries t.start n)
              define p.anchor (.mapping (p.collectionTag .mapping) start entries)
            else if p.isEmpty then
              fail (some (if block then .blockNode else .flowNode)) (some start) (.noContent k.name)
                t.start
            else
              declare p.anchor start
              define p.anchor (.scalar (p.scalarTag "" true) start "")

/-- Read the items of a sequence in a block that began at a place. -/
def blockItems (start : Mark) : Nat → Reading (List Node)
  | 0 => pure []
  | n + 1 => do
      let t ← peek
      match t.kind with
      | .blockEntry =>
          skip
          let item ← unlessNext [.blockEntry, .blockEnd] t.stop (node true false n)
          pure (item :: (← blockItems start n))
      | .blockEnd =>
          skip
          pure []
      | k => fail (some .blockCollection) (some start) (.noBlockEnd k.name) t.start

/-- Read the items of a sequence that is set in no further than the mapping around it. -/
def indentlessItems : Nat → Reading (List Node)
  | 0 => pure []
  | n + 1 => do
      let t ← peek
      match t.kind with
      | .blockEntry =>
          skip
          let item ← unlessNext [.blockEntry, .key, .value, .blockEnd] t.stop (node true false n)
          pure (item :: (← indentlessItems n))
      | _ => pure []

/-- Read the entries of a mapping in a block that began at a place. -/
def blockEntries (start : Mark) : Nat → Reading (List (Node × Node))
  | 0 => pure []
  | n + 1 => do
      let t ← peek
      match t.kind with
      | .key =>
          skip
          let key ← unlessNext [.key, .value, .blockEnd] t.stop (node true true n)
          let value ← blockValue n
          pure ((key, value) :: (← blockEntries start n))
      | .blockEnd =>
          skip
          pure []
      | k => fail (some .blockMapping) (some start) (.noBlockEnd k.name) t.start

/-- Read the value behind a key in a block. -/
def blockValue : Nat → Reading Node
  | 0 => do pure (Node.absent (← peek).start)
  | n + 1 => do
      let t ← peek
      match t.kind with
      | .value =>
          skip
          unlessNext [.key, .value, .blockEnd] t.stop (node true true n)
      | _ => pure (Node.absent t.start)

/-- Read the items of a sequence between brackets that began at a place. -/
def flowItems (start : Mark) (first : Bool) : Nat → Reading (List Node)
  | 0 => pure []
  | n + 1 => do
      if ← skipIf .flowSequenceEnd then return []
      if !first then
        if !(← skipIf .flowEntry) then
          let t ← peek
          fail (some .flowSequence) (some start) (.noCommaOrBracket t.kind.name) t.start
      let t ← peek
      match t.kind with
      | .key =>
          skip
          let key ← unlessNext [.value, .flowEntry, .flowSequenceEnd] t.stop (node false false n)
          let value ← flowValue .flowSequenceEnd n
          pure (.mapping .mapping t.start [(key, value)] :: (← flowItems start false n))
      | .flowSequenceEnd =>
          skip
          pure []
      | _ =>
          let item ← node false false n
          pure (item :: (← flowItems start false n))

/-- Read the entries of a mapping between braces that began at a place. -/
def flowEntries (start : Mark) (first : Bool) : Nat → Reading (List (Node × Node))
  | 0 => pure []
  | n + 1 => do
      if ← skipIf .flowMappingEnd then return []
      if !first then
        if !(← skipIf .flowEntry) then
          let t ← peek
          fail (some .flowMapping) (some start) (.noCommaOrBrace t.kind.name) t.start
      let t ← peek
      match t.kind with
      | .key =>
          skip
          let key ← unlessNext [.value, .flowEntry, .flowMappingEnd] t.stop (node false false n)
          let value ← flowValue .flowMappingEnd n
          pure ((key, value) :: (← flowEntries start false n))
      | .flowMappingEnd =>
          skip
          pure []
      | _ =>
          let key ← node false false n
          let value := Node.absent (← peek).start
          pure ((key, value) :: (← flowEntries start false n))

/-- Read the value behind a key between brackets that end with a token. -/
def flowValue (stop : TokenKind) : Nat → Reading Node
  | 0 => do pure (Node.absent (← peek).start)
  | n + 1 => do
      let t ← peek
      match t.kind with
      | .value =>
          skip
          unlessNext [.flowEntry, stop] t.stop (node false false n)
      | _ => pure (Node.absent t.start)

end

/-! ### Documents -/

/-- Go past the ends of documents. -/
def skipEnds : Nat → Reading Unit
  | 0 => pure ()
  | n + 1 => do if ← skipIf .documentEnd then skipEnds n

/-- Read the beginning of a document and give its place, or nothing at the end of the text. -/
def documentStart (n : Nat) : Reading (Option Mark) := do
  skipEnds n
  let t ← peek
  if t.kind == .textEnd then return none
  let handles ← directives false [] n
  modify fun r =>
    { r with handles := handles ++ commonHandles.filter fun h => (handles.lookup h.1).isNone }
  if ← skipIf .documentStart then return some t.start
  let u ← peek
  fail none none (.noDocumentStart u.kind.name) u.start

/-- Whether a token does not begin the content of a document. -/
def isOutside : TokenKind → Bool
  | .declaration _ => true
  | .documentStart => true
  | .documentEnd => true
  | .textEnd => true
  | _ => false

/-- Read a document, if there is one, and nothing behind it. -/
def document (n : Nat) : Reading (Option Node) := do
  let t ← peek
  let begun ← match t.kind with
    | .documentEnd => pure true
    | k => if isOutside k then Option.isSome <$> documentStart n else pure true
  if !begun then return none
  let u ← peek
  let root ←
    if isOutside u.kind && t.kind != .documentEnd then pure (Node.absent u.start)
    else node true false n
  let _ ← skipIf .documentEnd
  match ← documentStart n with
  | none => pure (some root)
  | some second => fail (some .document) (some root.start) .secondDocument second

end Reading

/-- The node that a text is, if it is not empty. -/
def Node.ofText? (text : List Char) : Except Fault (Option Node) :=
  match characterFault? text with
  | some f => .error f
  | none =>
      let s := Stream.ofText text
      ((Reading.document (4 * s.tokens.length + 16)).run (Reader.start s)).map (·.1)

end HashedAssets.Yaml
