import HashedAssets.Document.Yaml.Number
import HashedAssets.Document.Yaml.Tag
import HashedAssets.Document.Yaml.Timestamp

/-!
# What scalars stand for

A plain scalar without a tag is nothing, a truth value, a number or a point in time if it is written like
one, and a text otherwise.

* `Tag.ofPlain`: the tag of a plain scalar;
* `scalarValue`: the value of a scalar with a tag.
-/

namespace HashedAssets.Yaml

/-- The words for the truth values, in small letters. -/
def truthWords : List (String × Bool) :=
  [("yes", true), ("no", false), ("true", true), ("false", false), ("on", true), ("off", false)]

/-- The ways to write a word: in small letters, with a great one in front, in great letters. -/
def spellings (word : String) : List String := [word, word.capitalize, word.toUpper]

/-- Whether a text is one of the spellings of a word for a truth value. -/
def isTruthWord (s : String) : Bool := truthWords.any fun w => (spellings w.1).contains s

/-- Whether a text stands for nothing. -/
def isNothing (s : String) : Bool := s == "" || s == "~" || (spellings "null").contains s

/-- The tag of a plain scalar. -/
def Tag.ofPlain (s : String) : Tag :=
  let cs := s.toList
  if isTruthWord s then .bool
  else if (FloatLiteral.ofChars? cs).isSome then .float
  else if (IntLiteral.ofChars? cs).isSome then .int
  else if s == "<<" then .merge
  else if isNothing s then .null
  else if (Timestamp.ofChars? cs).any Timestamp.isPlain then .timestamp
  else if s == "=" then .value
  else .text

/-- The whole number that a text is. -/
def integerOf (s : String) : Except ScalarFault Int :=
  match IntLiteral.ofChars? s.toList with
  | some l => match l.excess?, l.value? with
    | some digits, _ => .error (.limit (.reading digits))
    | none, some n => .ok n
    | none, none => .error (.notInteger l.base "")
  | none => .error (.notInteger 10 (String.ofList (withoutLines s.toList)))

/-- The number that a text is; whole ones and those without a sign in the exponent are numbers too if
they are called so. -/
def numberOf (s : String) : Except ScalarFault Binary64 :=
  match FloatLiteral.ofChars? s.toList with
  | some l => match l.value? with
    | some x => .ok x
    | none => .error .tooGreat
  | none =>
      let digits := withoutLines s.toList
      match Decimal.ofLiteral? digits with
      | some x => .ok x
      | none => .error (.notNumber (String.ofList (digits.map Char.toLower)))

/-- The value of a scalar with a tag, if the tag is one of scalars. -/
def scalarValue? (t : Tag) (s : String) : Option (Except ScalarFault Value) :=
  match t with
  | .null => some (.ok .null)
  | .bool => some (match truthWords.lookup s.toLower with
      | some b => .ok (.bool b)
      | none => .error .notTruth)
  | .int => some ((integerOf s).map .int)
  | .float => some ((numberOf s).map .float)
  | .timestamp => some (match Timestamp.ofChars? s.toList with
      | some t => t.value
      | none => .error .notTime)
  | .text => some (.ok (.text s))
  | _ => none

end HashedAssets.Yaml
