import HashedAssets.Document.Yaml.Property

/-!
# Splitting a YAML text into tokens

Indentation becomes tokens of its own, and a scalar that a colon follows becomes a key: the token for
that is put in before the scalar afterwards.

* `Lexer`: how far the text is split;
* `Lexer.step`: the next token;
* `Stream.ofText`: all tokens of a text. Where a text cannot be split to its end, the fault is known
  only to those who ask for a token that is not settled without the rest.
-/

namespace HashedAssets.Yaml

/-- A place where a key may have begun: the number of its token, and whether a colon has to follow. -/
structure PossibleKey where
  number : Nat
  required : Bool
  mark : Mark

/-- How far a text is split into tokens. -/
structure Lexer where
  cursor : Cursor
  /-- How many brackets are open. -/
  flow : Int
  /-- The column of the innermost block, and those of the blocks around it. -/
  indent : Int
  outer : List Int
  /-- Whether a key may begin here. -/
  keyAllowed : Bool
  /-- The place where a key may have begun, for each number of open brackets. -/
  keys : List (Int × PossibleKey)
  /-- The tokens so far, the last one first. -/
  tokens : List Token

namespace Lexer

/-- The beginning of a text. -/
def start (text : List Char) : Lexer :=
  let c := Cursor.start text
  { cursor := if c.peek == byteOrderMark then c.next else c
    flow := 0, indent := -1, outer := [], keyAllowed := true, keys := [], tokens := [] }

/-- The number of tokens so far. -/
def count (l : Lexer) : Nat := l.tokens.length

/-- The place that a lexer has come to. -/
def mark (l : Lexer) : Mark := l.cursor.mark

/-- Whether brackets are open. -/
def inFlow (l : Lexer) : Bool := l.flow != 0

/-- Add a token. -/
def push (l : Lexer) (t : Token) : Lexer := { l with tokens := t :: l.tokens }

/-- Add a token without extent. -/
def pushEmpty (l : Lexer) (k : TokenKind) : Lexer := l.push ⟨k, l.mark, l.mark⟩

/-- Add a token of `n` characters, and go past them. -/
def pushMark (l : Lexer) (k : TokenKind) (n : Nat) : Lexer :=
  let c := l.cursor.advance n
  { l.push ⟨k, l.mark, c.mark⟩ with cursor := c }

/-- Put a token in as number `n`. -/
def insertAt (l : Lexer) (n : Nat) (t : Token) : Lexer :=
  let later := l.count - n
  { l with tokens := l.tokens.take later ++ t :: l.tokens.drop later }

/-! ### Possible keys -/

/-- A key that has to be one, but is not. -/
def keyFault (l : Lexer) (k : PossibleKey) : Fault :=
  l.cursor.fault (some .simpleKey) (some k.mark) .noColon

/-- Give up keys that are on an earlier line or too far back. -/
def dropStaleKeys (l : Lexer) : Except Fault Lexer :=
  let stale (k : PossibleKey) : Bool :=
    k.mark.line != l.mark.line || k.mark.index + 1024 < l.mark.index
  match l.keys.find? fun x => stale x.2 && x.2.required with
  | some x => .error (l.keyFault x.2)
  | none => .ok { l with keys := l.keys.filter fun x => !stale x.2 }

/-- Give up the key of the innermost brackets. -/
def dropKey (l : Lexer) : Except Fault Lexer :=
  match l.keys.lookup l.flow with
  | some k =>
      if k.required then .error (l.keyFault k)
      else .ok { l with keys := l.keys.filter (·.1 != l.flow) }
  | none => .ok l

/-- Remember that a key may begin here. -/
def saveKey (l : Lexer) : Except Fault Lexer :=
  if !l.keyAllowed then .ok l
  else
    let required := !l.inFlow && l.indent == (l.cursor.column : Int)
    l.dropKey.map fun l =>
      { l with keys := l.keys ++ [(l.flow, ⟨l.count, required, l.mark⟩)] }

/-! ### Indentation -/

/-- Close all blocks that are set in further than a column. -/
def unwind (column : Int) : Nat → Lexer → Lexer
  | 0, l => l
  | n + 1, l =>
      if l.inFlow || l.indent ≤ column then l
      else
        unwind column n
          { l.pushEmpty .blockEnd with indent := l.outer.headD (-1), outer := l.outer.tail }

/-- Close all blocks that are set in further than a column. -/
def unwindTo (l : Lexer) (column : Int) : Lexer := unwind column (l.outer.length + 1) l

/-- Open a block at a column, unless one is open there; and whether one was opened. -/
def openBlock (l : Lexer) (column : Int) : Bool × Lexer :=
  if l.indent < column then (true, { l with indent := column, outer := l.indent :: l.outer })
  else (false, l)

/-! ### Tokens -/

/-- Go to the next token, past spaces, comments and ends of lines. -/
def skipToToken : Nat → Lexer → Lexer
  | 0, l => l
  | n + 1, l =>
      let c := l.cursor.skipSpaces.skipComment
      let (b, d) := c.takeBreak
      if b.isEmpty then { l with cursor := c }
      else skipToToken n { l with cursor := d, keyAllowed := l.keyAllowed || !l.inFlow }

/-- The end of the text. -/
def atEnd (l : Lexer) : Except Fault Lexer :=
  (l.unwindTo (-1)).dropKey.map fun l => { l with keyAllowed := false, keys := [] }.pushEmpty .textEnd

/-- A directive. -/
def directive (l : Lexer) : Except Fault Lexer := do
  let l ← (l.unwindTo (-1)).dropKey
  let (t, c) ← directiveToken l.cursor
  pure { { l with keyAllowed := false, cursor := c } with tokens := t :: l.tokens }

/-- The beginning or the end of a document. -/
def separator (l : Lexer) (k : TokenKind) : Except Fault Lexer :=
  (l.unwindTo (-1)).dropKey.map fun l => { l with keyAllowed := false }.pushMark k 3

/-- An opening bracket. -/
def openBracket (l : Lexer) (k : TokenKind) : Except Fault Lexer :=
  l.saveKey.map fun l => { l with flow := l.flow + 1, keyAllowed := true }.pushMark k 1

/-- A closing bracket. -/
def closeBracket (l : Lexer) (k : TokenKind) : Except Fault Lexer :=
  l.dropKey.map fun l => { l with flow := l.flow - 1, keyAllowed := false }.pushMark k 1

/-- A comma between brackets. -/
def comma (l : Lexer) : Except Fault Lexer :=
  l.dropKey.map fun l => { l with keyAllowed := true }.pushMark .flowEntry 1

/-- Begin something in a block that may begin only where a key may, and open the block for it. -/
def beginInBlock (l : Lexer) (block : TokenKind) (p : Problem) : Except Fault Lexer :=
  if l.inFlow then .ok l
  else if !l.keyAllowed then .error (l.cursor.fault none none p)
  else
    let (opened, l) := l.openBlock l.cursor.column
    .ok (if opened then l.pushEmpty block else l)

/-- A hyphen before an entry. -/
def entry (l : Lexer) : Except Fault Lexer := do
  let l ← l.beginInBlock .blockSequenceStart .entryNotAllowed
  l.dropKey.map fun l => { l with keyAllowed := true }.pushMark .blockEntry 1

/-- A question mark before a key. -/
def explicitKey (l : Lexer) : Except Fault Lexer := do
  let l ← l.beginInBlock .blockMappingStart .keyNotAllowed
  l.dropKey.map fun l => { l with keyAllowed := !l.inFlow }.pushMark .key 1

/-- A colon before a value. If a key may have begun before it, that was one. -/
def colon (l : Lexer) : Except Fault Lexer :=
  match l.keys.lookup l.flow with
  | some k =>
      let l := { l with keys := l.keys.filter (·.1 != l.flow), keyAllowed := false }
      let l := l.insertAt k.number ⟨.key, k.mark, k.mark⟩
      let (opened, l) := if l.inFlow then (false, l) else l.openBlock k.mark.column
      let l := if opened then l.insertAt k.number ⟨.blockMappingStart, k.mark, k.mark⟩ else l
      .ok (l.pushMark .value 1)
  | none => do
      let l ← l.beginInBlock .blockMappingStart .valueNotAllowed
      l.dropKey.map fun l => { l with keyAllowed := !l.inFlow }.pushMark .value 1

/-- A token that may be a key. -/
def keyLike (l : Lexer) (scan : Cursor → Except Fault (Token × Cursor)) : Except Fault Lexer := do
  let l ← l.saveKey
  let (t, c) ← scan l.cursor
  pure ({ l with keyAllowed := false, cursor := c }.push t)

/-- A plain scalar. -/
def plain (l : Lexer) : Except Fault Lexer :=
  l.saveKey.map fun l =>
    let (t, c, broken) := plainScalar l.cursor l.inFlow (l.indent + 1)
    { l with keyAllowed := broken, cursor := c }.push t

/-- A block scalar. -/
def block (l : Lexer) (folded : Bool) : Except Fault Lexer := do
  let l ← l.dropKey
  let (t, c) ← blockScalar l.cursor folded l.indent
  pure ({ l with cursor := c, keyAllowed := true }.push t)

/-- Whether a plain scalar begins here. -/
def atPlain (l : Lexer) : Bool :=
  let x := l.cursor.peek
  !(isBlankOrEnd x || "-?:,[]\x7b\x7d#&*!|>\x27\"%@\x60".toList.contains x)
    || (!isBlankOrEnd (l.cursor.peekAt 1) && (x == '-' || (!l.inFlow && (x == '?' || x == ':'))))

/-- The token that begins here. -/
def token (l : Lexer) : Except Fault Lexer :=
  let c := l.cursor
  let x := c.peek
  let alone := isBlankOrEnd (c.peekAt 1)
  let atSeparator := c.column == 0 && c.atSeparator
  if x == endOfText then l.atEnd
  else if x == '%' && c.column == 0 then l.directive
  else if x == '-' && atSeparator then l.separator .documentStart
  else if x == '.' && atSeparator then l.separator .documentEnd
  else if x == '[' then l.openBracket .flowSequenceStart
  else if x == '\x7b' then l.openBracket .flowMappingStart
  else if x == ']' then l.closeBracket .flowSequenceEnd
  else if x == '\x7d' then l.closeBracket .flowMappingEnd
  else if x == ',' then l.comma
  else if x == '-' && alone then l.entry
  else if x == '?' && (l.inFlow || alone) then l.explicitKey
  else if x == ':' && (l.inFlow || alone) then l.colon
  else if x == '*' then l.keyLike fun c => anchorToken c true
  else if x == '&' then l.keyLike fun c => anchorToken c false
  else if x == '!' then l.keyLike tagToken
  else if x == '|' && !l.inFlow then l.block false
  else if x == '>' && !l.inFlow then l.block true
  else if x == '\x27' then l.keyLike fun c => quotedScalar c false
  else if x == '"' then l.keyLike fun c => quotedScalar c true
  else if l.atPlain then l.plain
  else .error (c.fault (some .nextToken) none (.cannotStart x))

/-- The next token, with the ends of the blocks that end before it. -/
def step (l : Lexer) : Except Fault Lexer := do
  let l ← (skipToToken (l.cursor.rest.length + 1) l).dropStaleKeys
  let l ← (l.unwindTo l.cursor.column).token
  match l.tokens with
  | ⟨.textEnd, _, _⟩ :: _ => pure l
  | _ => l.dropStaleKeys

/-- How many tokens are settled, whatever follows. -/
def settled (l : Lexer) : Nat := l.keys.foldl (fun n x => min n x.2.number) l.count

/-- Whether the text is split to its end. -/
def isDone (l : Lexer) : Bool :=
  match l.tokens with
  | ⟨.textEnd, _, _⟩ :: _ => true
  | _ => false

end Lexer

/-- The tokens of a text. If there is a fault, only the tokens before a number are known. -/
structure Stream where
  tokens : List Token
  fault : Option (Nat × Fault)

namespace Stream

/-- Split what is left of a text. -/
def ofLexer : Nat → Lexer → Stream
  | 0, l => ⟨l.tokens.reverse, none⟩
  | n + 1, l =>
      if l.isDone then ⟨l.tokens.reverse, none⟩
      else match l.step with
        | .ok next => ofLexer n next
        | .error f => ⟨l.tokens.reverse, some (l.settled, f)⟩

/-- The tokens of a text. -/
def ofText (text : List Char) : Stream := ofLexer (text.length + 2) (Lexer.start text)

end Stream

end HashedAssets.Yaml
