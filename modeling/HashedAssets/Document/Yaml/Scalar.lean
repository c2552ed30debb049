import HashedAssets.Bytes
import HashedAssets.Document.Yaml.Token

/-!
# Scalars of YAML

* `plainScalar`: a scalar without quotes;
* `quotedScalar`: a scalar in single or double quotes;
* `blockScalar`: a scalar of whole lines.
-/

namespace HashedAssets.Yaml

/-- The breaks of lines within a scalar: a single line feed becomes a space, of several the first is
left out, and any other break stays. -/
def fold (first : List Char) (others : List Char) : List Char :=
  if first != ['\n'] then first ++ others
  else if others.isEmpty then [' ']
  else others

/-! ### Plain scalars -/

/-- The characters that end a plain scalar inside brackets. -/
def isFlowMark (c : Char) : Bool :=
  c == ',' || c == '[' || c == ']' || c == '\x7b' || c == '\x7d'

/-- How many characters at the beginning of a text belong to a plain scalar. -/
def plainLength (flow : Bool) : List Char → Nat
  | [] => 0
  | x :: rest =>
      let y := rest.headD endOfText
      if isBlankOrEnd x || (x == ':' && (isBlankOrEnd y || (flow && isFlowMark y)))
          || (flow && (isFlowMark x || x == '?')) then 0
      else plainLength flow rest + 1

/-- Go past spaces and breaks of lines, and give the breaks. There are none to give once a marker of
documents stands at the beginning of a line. -/
def plainBreaks : Nat → Cursor → List Char → Option (List Char) × Cursor
  | 0, c, breaks => (some breaks, c)
  | n + 1, c, breaks =>
      if c.peek == ' ' then plainBreaks n c.next breaks
      else if isBreak c.peek then
        let (b, c) := c.takeBreak
        if c.atSeparator then (none, c) else plainBreaks n c (breaks ++ b)
      else (some breaks, c)

/-- What stands between two pieces of a plain scalar, and whether there is the end of a line in it. -/
def plainSpaces (c : Cursor) : List Char × Cursor × Bool :=
  let (spaces, c) := c.take (· == ' ')
  if isBreak c.peek then
    let (first, c) := c.takeBreak
    if c.atSeparator then ([], c, true)
    else match plainBreaks (c.rest.length + 1) c [] with
      | (some others, c) => (fold first others, c, true)
      | (none, c) => ([], c, true)
  else (spaces, c, false)

/-- The rest of a plain scalar, behind what is read already: its characters, where it ends, and whether
the end of a line follows it. -/
def plainRest (flow : Bool) (indent : Int) : Nat → Cursor → List Char → List Char → Mark → Bool →
    List Char × Mark × Cursor × Bool
  | 0, c, read, _, stop, broken => (read, stop, c, broken)
  | n + 1, c, read, spaces, stop, broken =>
      let length := if c.peek == '#' then 0 else plainLength flow c.rest
      if length = 0 then (read, stop, c, broken)
      else
        let read := read ++ spaces ++ c.rest.take length
        let c := c.advance length
        let stop := c.mark
        let (spaces, c, broken) := plainSpaces c
        if spaces.isEmpty || c.peek == '#' || (!flow && (c.column : Int) < indent) then
          (read, stop, c, broken)
        else plainRest flow indent n c read spaces stop broken

/-- A plain scalar; its further lines are set in by `indent` at least, unless it stands inside
brackets. The last component says whether the end of a line follows it. -/
def plainScalar (c : Cursor) (flow : Bool) (indent : Int) : Token × Cursor × Bool :=
  let (read, stop, rest, broken) := plainRest flow indent (c.rest.length + 1) c [] [] c.mark false
  (⟨.scalar (String.ofList read) true, c.mark, stop⟩, rest, broken)

/-! ### Quoted scalars -/

/-- The character that a letter behind a backslash stands for. -/
def escape? : Char → Option Char
  | '0' => some '\x00'
  | 'a' => some '\x07'
  | 'b' => some '\x08'
  | 't' => some '\t'
  | '\t' => some '\t'
  | 'n' => some '\n'
  | 'v' => some '\x0b'
  | 'f' => some '\x0c'
  | 'r' => some '\r'
  | 'e' => some '\x1b'
  | ' ' => some ' '
  | '"' => some '"'
  | '\\' => some '\\'
  | '/' => some '/'
  | 'N' => some '\x85'
  | '_' => some '\xa0'
  | 'L' => some '\u2028'
  | 'P' => some '\u2029'
  | _ => none

/-- How many hexadecimal digits follow a letter behind a backslash. -/
def escapeWidth? : Char → Option Nat
  | 'x' => some 2
  | 'u' => some 4
  | 'U' => some 8
  | _ => none

/-- The number that hexadecimal digits stand for. -/
def hexNumber (digits : List Char) : Nat :=
  digits.foldl (fun n c => 16 * n + (Bytes.hexValue? c).getD 0) 0

/-- How many numbers of characters there are. -/
def characterCount : Nat := 0x110000

/-- The character of a number. A number that stands for half of a character gives the replacement
character; numbers of more than thirty-one binary digits are too great to be looked at. -/
def characterOf (n : Nat) : Except Fault Char :=
  if n < characterCount then .ok (if n.isValidChar then Char.ofNat n else '\ufffd')
  else .error (.scalar (if n < twoTo 31 then .noCharacter else .tooGreat))

/-- Go past breaks of lines and blanks before them, and give the breaks. -/
def quotedBreaks (start : Mark) : Nat → Cursor → List Char → Except Fault (List Char × Cursor)
  | 0, c, breaks => .ok (breaks, c)
  | n + 1, c, breaks =>
      if c.atSeparator then .error (c.fault (some .quotedScalar) (some start) .separator)
      else
        let c := c.skip isSpaceOrTab
        if isBreak c.peek then
          let (b, c) := c.takeBreak
          quotedBreaks start n c (breaks ++ b)
        else .ok (breaks, c)

/-- An escape sequence, behind its backslash. -/
def quotedEscape (start : Mark) (c : Cursor) : Except Fault (List Char × Cursor) :=
  match escape? c.peek, escapeWidth? c.peek with
  | some x, _ => .ok ([x], c.next)
  | none, some width =>
      let c := c.next
      let digits := (c.rest.take width).takeWhile isHexDigit
      if digits.length < width then
        .error (c.fault (some .doubleQuotedScalar) (some start)
          (.unexpected (.hexadecimal width) (c.peekAt digits.length)))
      else (characterOf (hexNumber digits)).map fun x => ([x], c.advance width)
  | none, none =>
      if isBreak c.peek then quotedBreaks start (c.rest.length + 1) c.takeBreak.2 []
      else .error (c.fault (some .doubleQuotedScalar) (some start) (.unknownEscape c.peek))

/-- The characters of a quoted scalar up to a blank, the end of a line or its closing quote. -/
def quotedText (double : Bool) (start : Mark) : Nat → Cursor → List Char →
    Except Fault (List Char × Cursor)
  | 0, c, read => .ok (read, c)
  | n + 1, c, read =>
      let (run, c) := c.take fun x => !(x == '\'' || x == '"' || x == '\\' || isBlankOrEnd x)
      let read := read ++ run
      let x := c.peek
      if !double && x == '\'' && c.peekAt 1 == '\'' then
        quotedText double start n (c.advance 2) (read ++ ['\''])
      else if (double && x == '\'') || (!double && (x == '"' || x == '\\')) then
        quotedText double start n c.next (read ++ [x])
      else if double && x == '\\' then
        match quotedEscape start c.next with
        | .error f => .error f
        | .ok (escaped, c) => quotedText double start n c (read ++ escaped)
      else .ok (read, c)

/-- The blanks and ends of lines inside a quoted scalar. -/
def quotedSpaces (start : Mark) (c : Cursor) : Except Fault (List Char × Cursor) :=
  let (spaces, c) := c.take isSpaceOrTab
  if c.peek == endOfText then .error (c.fault (some .quotedScalar) (some start) .endOfText)
  else if isBreak c.peek then
    let (first, c) := c.takeBreak
    (quotedBreaks start (c.rest.length + 1) c []).map fun x => (fold first x.1, x.2)
  else .ok (spaces, c)

/-- The rest of a quoted scalar, behind what is read already. -/
def quotedRest (double : Bool) (start : Mark) : Nat → Cursor → List Char →
    Except Fault (List Char × Cursor)
  | 0, c, read => .ok (read, c)
  | n + 1, c, read =>
      match quotedText double start (c.rest.length + 1) c read with
      | .error f => .error f
      | .ok (read, c) =>
          if c.peek == (if double then '"' else '\'') then .ok (read, c.next)
          else match quotedSpaces start c with
            | .error f => .error f
            | .ok (spaces, c) => quotedRest double start n c (read ++ spaces)

/-- A scalar in quotes. -/
def quotedScalar (c : Cursor) (double : Bool) : Except Fault (Token × Cursor) :=
  (quotedRest double c.mark (c.rest.length + 1) c.next []).map fun x =>
    (⟨.scalar (String.ofList x.1) false, c.mark, x.2.mark⟩, x.2)

/-! ### Block scalars -/

/-- What becomes of the breaks at the end of a block scalar. -/
inductive Chomping
  | clip
  | strip
  | keep
  deriving DecidableEq, Repr

/-- The chomping that a character asks for. -/
def chomping? : Char → Option Chomping
  | '+' => some .keep
  | '-' => some .strip
  | _ => none

/-- An indentation in the header of a block scalar, if there is one. -/
def blockIndentation (start : Mark) (c : Cursor) : Except Fault (Option Nat × Cursor) :=
  if c.peek == '0' then .error (c.fault (some .blockScalar) (some start) .zeroIndentation)
  else if c.peek.isDigit then .ok (some (c.peek.toNat - '0'.toNat), c.next)
  else .ok (none, c)

/-- The header of a block scalar: chomping and indentation in either order. -/
def blockHeader (start : Mark) (c : Cursor) : Except Fault (Chomping × Option Nat × Cursor) := do
  let (chomping, indentation, c) ← match chomping? c.peek with
    | some chomping => do
        let (indentation, c) ← blockIndentation start c.next
        pure (chomping, indentation, c)
    | none => do
        let (indentation, c) ← blockIndentation start c
        match indentation, chomping? c.peek with
        | some n, some chomping => pure (chomping, some n, c.next)
        | _, _ => pure (.clip, indentation, c)
  if isSpaceOrEnd c.peek then pure (chomping, indentation, c)
  else throw (c.unexpected .blockScalar start .chomping)

/-- The rest of a line that holds nothing but a comment. -/
def ignoredLine (setting : Setting) (start : Mark) (c : Cursor) : Except Fault Cursor :=
  let c := c.skipSpaces.skipComment
  if isBreakOrEnd c.peek then .ok c.takeBreak.2
  else .error (c.unexpected setting start .commentOrBreak)

/-- Go past empty lines and spaces; give the breaks, how far spaces went at most, and the place behind
the last break. -/
def blockStart : Nat → Cursor → List Char → Nat → Mark → List Char × Nat × Mark × Cursor
  | 0, c, breaks, widest, stop => (breaks, widest, stop, c)
  | n + 1, c, breaks, widest, stop =>
      if c.peek == ' ' then
        let c := c.next
        blockStart n c breaks (max widest c.column) stop
      else if isBreak c.peek then
        let (b, c) := c.takeBreak
        blockStart n c (breaks ++ b) widest c.mark
      else (breaks, widest, stop, c)

/-- Go past spaces, up to a column. -/
def skipTo (indent : Nat) (c : Cursor) : Cursor :=
  c.advance (min (indent - c.column) (c.rest.takeWhile (· == ' ')).length)

/-- Go past empty lines that are set in by `indent` at most. -/
def blockBreaks (indent : Nat) : Nat → Cursor → List Char → Mark → List Char × Mark × Cursor
  | 0, c, breaks, stop => (breaks, stop, c)
  | n + 1, c, breaks, stop =>
      let c := skipTo indent c
      if isBreak c.peek then
        let (b, c) := c.takeBreak
        blockBreaks indent n c (breaks ++ b) c.mark
      else (breaks, stop, c)

/-- Whether a line of a block scalar goes on here. -/
def atBlockLine (indent : Nat) (c : Cursor) : Bool := c.column == indent && c.peek != endOfText

/-- The lines of a block scalar, behind what is read already: the text, the break of the last line, the
breaks behind that, and where it ends. -/
def blockLines (folded : Bool) (indent : Nat) : Nat → Cursor → List Char → List Char → Mark →
    List Char × List Char × List Char × Mark × Cursor
  | 0, c, read, breaks, stop => (read, [], breaks, stop, c)
  | n + 1, c, read, breaks, stop =>
      if !atBlockLine indent c then (read, [], breaks, stop, c)
      else
        let spacedHere := isSpaceOrTab c.peek
        let (line, c) := c.take fun x => !isBreakOrEnd x
        let read := read ++ breaks ++ line
        let (lineBreak, c) := c.takeBreak
        let (breaks, stop, c) := blockBreaks indent (c.rest.length + 1) c [] c.mark
        if atBlockLine indent c then
          let joint :=
            if folded && lineBreak == ['\n'] && !spacedHere && !isSpaceOrTab c.peek then
              (if breaks.isEmpty then [' '] else [])
            else lineBreak
          blockLines folded indent n c (read ++ joint) breaks stop
        else (read, lineBreak, breaks, stop, c)

/-- A block scalar; it is set in further than `outer`. -/
def blockScalar (c : Cursor) (folded : Bool) (outer : Int) : Except Fault (Token × Cursor) := do
  let (chomping, indentation, d) ← blockHeader c.mark c.next
  let d ← ignoredLine .blockScalar c.mark d
  let least := (max 1 (outer + 1)).toNat
  let (indent, breaks, stop, d) := match indentation with
    | none =>
        let (breaks, widest, stop, d) := blockStart (d.rest.length + 1) d [] 0 d.mark
        (max least widest, breaks, stop, d)
    | some n =>
        let indent := least + n - 1
        let (breaks, stop, d) := blockBreaks indent (d.rest.length + 1) d [] d.mark
        (indent, breaks, stop, d)
  let (text, last, breaks, stop, d) := blockLines folded indent (d.rest.length + 1) d [] breaks stop
  let tail := match chomping with
    | .strip => []
    | .clip => last
    | .keep => last ++ breaks
  pure (⟨.scalar (String.ofList (text ++ tail)) false, c.mark, stop⟩, d)

end HashedAssets.Yaml
