import HashedAssets.Document.Yaml.Fault

/-!
# Going through a YAML text

* `Cursor`: what is left of a text, and the place where that begins;
* `peek`, `advance`, `take`: looking at characters and going on;
* `takeBreak`: going past the end of a line;
* `isUnprintable`: the characters that may not stand in a text.
-/

namespace HashedAssets.Yaml

/-- What is left of a text, and the place where that begins. -/
structure Cursor where
  rest : List Char
  mark : Mark

/-- The character that stands for the end of a text; it never stands in one. -/
def endOfText : Char := '\x00'

/-- The end of the text or of a line. -/
def isBreakOrEnd (c : Char) : Bool := c == endOfText || isBreak c

/-- A space, or the end of the text or of a line. -/
def isSpaceOrEnd (c : Char) : Bool := c == ' ' || isBreakOrEnd c

/-- A space or tab, or the end of the text or of a line. -/
def isBlankOrEnd (c : Char) : Bool := c == '\t' || isSpaceOrEnd c

/-- A space or a tab. -/
def isSpaceOrTab (c : Char) : Bool := c == ' ' || c == '\t'

/-- A letter or digit of the first 128 characters, a hyphen or an underscore. -/
def isNameChar (c : Char) : Bool := c.isAlphanum || c == '-' || c == '_'

/-- A hexadecimal digit. -/
def isHexDigit (c : Char) : Bool := c.isDigit || ('a' ≤ c && c ≤ 'f') || ('A' ≤ c && c ≤ 'F')

/-- The mark that may stand at the beginning of a text. -/
def byteOrderMark : Char := '\ufeff'

/-- Whether a character may not stand in a text. -/
def isUnprintable (c : Char) : Bool :=
  let n := c.toNat
  !(n = 9 || n = 10 || n = 13 || n = 0x85 || (0x20 ≤ n && n ≤ 0x7e) || (0xa0 ≤ n && n ≤ 0xd7ff)
    || (0xe000 ≤ n && n ≤ 0xfffd) || 0x10000 ≤ n)

namespace Cursor

/-- The beginning of a text. -/
def start (text : List Char) : Cursor := ⟨text, ⟨0, 0, 0⟩⟩

/-- The column of a cursor. -/
def column (c : Cursor) : Nat := c.mark.column

/-- The next character. -/
def peek (c : Cursor) : Char := c.rest.headD endOfText

/-- The character behind `n` others. -/
def peekAt (c : Cursor) (n : Nat) : Char := c.rest.getD n endOfText

/-- The place behind a character. A carriage return before a line feed does not end a line. -/
def markAfter (m : Mark) (x : Char) (rest : List Char) : Mark :=
  if x == '\n' || x == '\x85' || x == '\u2028' || x == '\u2029'
      || (x == '\r' && rest.head? != some '\n') then
    ⟨m.index + 1, m.line + 1, 0⟩
  else if x == byteOrderMark then { m with index := m.index + 1 }
  else { m with index := m.index + 1, column := m.column + 1 }

/-- Go past `n` characters. -/
def advance (c : Cursor) : Nat → Cursor
  | 0 => c
  | n + 1 => match c.rest with
    | [] => c
    | x :: rest => advance ⟨rest, markAfter c.mark x rest⟩ n

/-- Go past the next character. -/
def next (c : Cursor) : Cursor := c.advance 1

/-- Go past all characters of a class, and give them. -/
def take (c : Cursor) (p : Char → Bool) : List Char × Cursor :=
  let taken := c.rest.takeWhile p
  (taken, c.advance taken.length)

/-- Go past all characters of a class. -/
def skip (c : Cursor) (p : Char → Bool) : Cursor := (c.take p).2

/-- Go past spaces. -/
def skipSpaces (c : Cursor) : Cursor := c.skip (· == ' ')

/-- Go past a comment, if one begins here. -/
def skipComment (c : Cursor) : Cursor :=
  if c.peek == '#' then c.skip fun x => !isBreakOrEnd x else c

/-- Go past the end of a line, and give the break that stands for it: the line and paragraph separators
stand for themselves, all others for a line feed. Elsewhere nothing happens. -/
def takeBreak (c : Cursor) : List Char × Cursor :=
  match c.rest with
  | '\r' :: '\n' :: _ => (['\n'], c.advance 2)
  | x :: _ =>
      if x == '\r' || x == '\n' || x == '\x85' then (['\n'], c.next)
      else if x == '\u2028' || x == '\u2029' then ([x], c.next)
      else ([], c)
  | [] => ([], c)

/-- Whether a marker of documents stands here: three hyphens or three points, and nothing behind them
on the line. -/
def atSeparator (c : Cursor) : Bool :=
  let three := c.rest.take 3
  (three == ['-', '-', '-'] || three == ['.', '.', '.']) && isBlankOrEnd (c.peekAt 3)

/-- Something is wrong here. -/
def fault (c : Cursor) (setting : Option Setting) (start : Option Mark) (p : Problem) : Fault :=
  .found setting start p c.mark

/-- Something else was expected than the next character. -/
def unexpected (c : Cursor) (setting : Setting) (start : Mark) (e : Expected) : Fault :=
  c.fault (some setting) (some start) (.unexpected e c.peek)

end Cursor

/-- The first character of a text that may not stand in it. -/
def characterFault? (text : List Char) : Option Fault :=
  (text.zipIdx.find? fun x => isUnprintable x.1).map fun x => .character x.1 x.2

end HashedAssets.Yaml
