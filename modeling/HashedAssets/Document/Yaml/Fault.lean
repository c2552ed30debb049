import HashedAssets.Document.Value

/-!
# What can be wrong with a YAML text

* `Mark`: a place in a text, with the piece of its line that is shown for it;
* `Problem`, `Setting`: what is wrong, and within what;
* `ScalarFault`: why a scalar does not stand for a value of its kind;
* `Fault.message`: all of it as text.
-/

namespace HashedAssets.Yaml

/-! ### Places -/

/-- A place in a text: its offset, and line and column counted from zero. -/
structure Mark where
  index : Nat
  line : Nat
  column : Nat
  deriving DecidableEq, Repr, Inhabited

/-- Whether a character ends a line. -/
def isBreak (c : Char) : Bool :=
  c == '\n' || c == '\r' || c == '\x85' || c == '\u2028' || c == '\u2029'

/-- How many characters are shown on each side of a place. -/
def shownWidth : Nat := 37

/-- The end of a list of characters that is shown before a place: the characters of its line, or the
last of them behind an ellipsis. -/
def shownBefore (before : List Char) : List Char × List Char :=
  let line := (before.reverse.takeWhile fun c => !isBreak c).take shownWidth
  if line.length = shownWidth then (" ... ".toList, (line.take (shownWidth - 5)).reverse)
  else ([], line.reverse)

/-- The beginning of a list of characters that is shown behind a place: the characters of its line, or
the first of them before an ellipsis. -/
def shownAfter (after : List Char) : List Char :=
  let line := (after.takeWhile fun c => !isBreak c).take shownWidth
  if line.length = shownWidth then line.take (shownWidth - 5) ++ " ... ".toList
  else line

/-- A place with its line and an arrow under it. -/
def Mark.message (text : List Char) (m : Mark) : String :=
  let (ellipsis, before) := shownBefore (text.take m.index)
  "  in \"<unicode string>\", line " ++ toString (m.line + 1) ++ ", column "
    ++ toString (m.column + 1) ++ ":\n    "
    ++ String.ofList (ellipsis ++ before ++ shownAfter (text.drop m.index)) ++ "\n"
    ++ String.ofList (List.replicate (4 + ellipsis.length + before.length) ' ') ++ "^"

/-! ### Problems -/

/-- What is being read when a problem arises. -/
inductive Setting
  | nextToken
  | simpleKey
  | directive
  | parsedDirective
  | anchor
  | alias
  | tag
  | parsedTag
  | blockScalar
  | quotedScalar
  | doubleQuotedScalar
  | node
  | blockNode
  | flowNode
  | blockCollection
  | blockMapping
  | flowSequence
  | flowMapping
  | mapping
  | document
  | firstAnchor (name : String)
  deriving DecidableEq, Repr

/-- The text of what is being read. -/
def Setting.message : Setting → String
  | .nextToken => "while scanning for the next token"
  | .simpleKey => "while scanning a simple key"
  | .directive => "while scanning a directive"
  | .parsedDirective => "while parsing a directive"
  | .anchor => "while scanning an anchor"
  | .alias => "while scanning an alias"
  | .tag => "while scanning a tag"
  | .parsedTag => "while parsing a tag"
  | .blockScalar => "while scanning a block scalar"
  | .quotedScalar => "while scanning a quoted scalar"
  | .doubleQuotedScalar => "while scanning a double-quoted scalar"
  | .node => "while parsing a node"
  | .blockNode => "while parsing a block node"
  | .flowNode => "while parsing a flow node"
  | .blockCollection => "while parsing a block collection"
  | .blockMapping => "while parsing a block mapping"
  | .flowSequence => "while parsing a flow sequence"
  | .flowMapping => "while parsing a flow mapping"
  | .mapping => "while constructing a mapping"
  | .document => "expected a single document in the stream"
  | .firstAnchor name => "found duplicate anchor " ++ Text.quoted name ++ "; first occurrence"

/-- What was expected where a character was found. -/
inductive Expected
  | name
  | digit
  | digitOrPoint
  | digitOrSpace
  | space
  | commentOrBreak
  | chomping
  | bang
  | uri
  | angle
  | hexadecimal (n : Nat)
  | uriHexadecimal
  deriving DecidableEq, Repr

/-- The text of what was expected. -/
def Expected.message : Expected → String
  | .name => "alphabetic or numeric character"
  | .digit => "a digit"
  | .digitOrPoint => "a digit or '.'"
  | .digitOrSpace => "a digit or ' '"
  | .space => "' '"
  | .commentOrBreak => "a comment or a line break"
  | .chomping => "chomping or indentation indicators"
  | .bang => "'!'"
  | .uri => "URI"
  | .angle => "'>'"
  | .hexadecimal n => "escape sequence of " ++ toString n ++ " hexadecimal numbers"
  | .uriHexadecimal => "URI escape sequence of 2 hexadecimal numbers"

/-- What is wrong. -/
inductive Problem
  | cannotStart (c : Char)
  | noColon
  | entryNotAllowed
  | keyNotAllowed
  | valueNotAllowed
  | unexpected (e : Expected) (found : Char)
  | zeroIndentation
  | unknownEscape (c : Char)
  | endOfText
  | separator
  | notText (reason : String)
  | duplicateVersion
  | incompatibleVersion
  | duplicateHandle (handle : String)
  | undefinedHandle (handle : String)
  | noDocumentStart (found : String)
  | noContent (found : String)
  | noBlockEnd (found : String)
  | noCommaOrBracket (found : String)
  | noCommaOrBrace (found : String)
  | undefinedAlias (name : String)
  | endless
  | secondAnchor
  | secondDocument
  | noMeaning (tag : String)
  | unsuitableKey
  | wrongNode (expected found : String)
  | wrongMerge (found : String)
  | wrongMerges (found : String)
  deriving DecidableEq, Repr

/-- The text of what is wrong. -/
def Problem.message : Problem → String
  | .cannotStart c => "found character " ++ Text.quoted c.toString ++ " that cannot start any token"
  | .noColon => "could not find expected ':'"
  | .entryNotAllowed => "sequence entries are not allowed here"
  | .keyNotAllowed => "mapping keys are not allowed here"
  | .valueNotAllowed => "mapping values are not allowed here"
  | .unexpected e c => "expected " ++ e.message ++ ", but found " ++ Text.quoted c.toString
  | .zeroIndentation => "expected indentation indicator in the range 1-9, but found 0"
  | .unknownEscape c => "found unknown escape character " ++ Text.quoted c.toString
  | .endOfText => "found unexpected end of stream"
  | .separator => "found unexpected document separator"
  | .notText reason => reason
  | .duplicateVersion => "found duplicate YAML directive"
  | .incompatibleVersion => "found incompatible YAML document (version 1.* is required)"
  | .duplicateHandle h => "duplicate tag handle " ++ Text.quoted h
  | .undefinedHandle h => "found undefined tag handle " ++ Text.quoted h
  | .noDocumentStart t => "expected '<document start>', but found " ++ Text.quoted t
  | .noContent t => "expected the node content, but found " ++ Text.quoted t
  | .noBlockEnd t => "expected <block end>, but found " ++ Text.quoted t
  | .noCommaOrBracket t => "expected ',' or ']', but got " ++ Text.quoted t
  | .noCommaOrBrace t => "expected ',' or '\x7d', but got " ++ Text.quoted t
  | .undefinedAlias n => "found undefined alias " ++ Text.quoted n
  | .endless => "found unconstructable recursive node"
  | .secondAnchor => "second occurrence"
  | .secondDocument => "but found another document"
  | .noMeaning t => "could not determine a constructor for the tag " ++ Text.quoted t
  | .unsuitableKey => "found unhashable key"
  | .wrongNode e f => "expected a " ++ e ++ " node, but found " ++ f
  | .wrongMerge f => "expected a mapping for merging, but found " ++ f
  | .wrongMerges f => "expected a mapping or list of mappings for merging, but found " ++ f

/-- Why a scalar does not stand for a value of its kind. -/
inductive ScalarFault
  | year (n : Nat)
  | month
  | day
  | hour
  | minute
  | second
  | offset (minutes : Int)
  /-- The text is no whole number in a base. -/
  | notInteger (base : Nat) (text : String)
  /-- The text is no number. -/
  | notNumber (text : String)
  /-- The text is no word for a truth value. -/
  | notTruth
  /-- The text is no point in time. -/
  | notTime
  /-- A whole number has too many digits. -/
  | limit (f : Decimal.LimitFault)
  /-- A number is too great. -/
  | tooGreat
  /-- No character has such a number. -/
  | noCharacter
  deriving DecidableEq, Repr

/-- The text of a fault; there is none where a text is of another kind altogether. -/
def ScalarFault.message : ScalarFault → String
  | .year n => "year " ++ toString n ++ " is out of range"
  | .month => "month must be in 1..12"
  | .day => "day is out of range for month"
  | .hour => "hour must be in 0..23"
  | .minute => "minute must be in 0..59"
  | .second => "second must be in 0..59"
  | .offset minutes =>
      "offset must be a timedelta strictly between -timedelta(hours=24) and timedelta(hours=24), not "
        ++ Moment.spanShown minutes ++ "."
  | .notInteger base text =>
      "invalid literal for int() with base " ++ toString base ++ ": " ++ Text.quoted text
  | .notNumber text => "could not convert string to float: " ++ Text.quoted text
  | .notTruth => ""
  | .notTime => ""
  | .limit f => f.message
  | .tooGreat => ""
  | .noCharacter => "chr() arg not in range(0x110000)"

/-- Why a text cannot be read. -/
inductive Fault
  /-- A character may not stand in a text. -/
  | character (c : Char) (index : Nat)
  /-- Something is wrong at a place, while something was read that began at another one. -/
  | found (setting : Option Setting) (start : Option Mark) (problem : Problem) (place : Mark)
  /-- A scalar does not stand for a value of its kind. -/
  | scalar (f : ScalarFault)
  /-- Nodes stand too deeply within one another. -/
  | tooDeep
  deriving DecidableEq, Repr

/-- The text of a fault in a text. The place where something began is left out if it is that of the
problem. -/
def Fault.message (text : List Char) : Fault → String
  | .character c index =>
      let digits := Nat.toDigits 16 c.toNat
      "unacceptable character #x" ++ String.ofList (List.replicate (4 - digits.length) '0' ++ digits)
        ++ ": special characters are not allowed\n  in \"<unicode string>\", position "
        ++ toString index
  | .found setting start problem place =>
      let begin := match start with
        | some m => if m.line = place.line ∧ m.column = place.column then [] else [m.message text]
        | none => []
      "\n".intercalate ((setting.toList.map Setting.message) ++ begin
        ++ [problem.message, place.message text])
  | .scalar f => f.message
  | .tooDeep => ""

end HashedAssets.Yaml
