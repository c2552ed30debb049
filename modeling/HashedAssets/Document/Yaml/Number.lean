import HashedAssets.Decimal.Limit
import HashedAssets.Decimal.Literal

/-!
# Numbers in YAML

Whole numbers are written in base two, eight, ten or sixteen, or in places that are counted by sixties;
so are the others, but for the bases. Underscores between digits mean nothing.

* `IntLiteral`: a whole number as written;
* `FloatLiteral`: any other number as written.
-/

namespace HashedAssets

/-! ### Arithmetic -/

namespace Binary64

/-- The number nearest to the sum of two that are not negative. -/
def addMagnitudes (x y : Binary64) : Binary64 :=
  match x.ratio?, y.ratio? with
  | some (a, b), some (c, d) => ofRatio false (a * d + c * b) (b * d)
  | _, _ => .infinite false

/-- The number nearest to the product of two that are not negative. -/
def multiplyMagnitudes (x y : Binary64) : Binary64 :=
  match x.ratio?, y.ratio? with
  | some (a, b), some (c, d) => ofRatio false (a * c) (b * d)
  | _, _ => .infinite false

/-- A number with its sign turned, if it is to be. -/
def negateIf (b : Bool) : Binary64 → Binary64
  | .finite negative m e => .finite (negative != b) m e
  | .infinite negative => .infinite (negative != b)
  | .nan => .nan

end Binary64

namespace Yaml

/-- A digit or an underscore. -/
def isDigitOrLine (c : Char) : Bool := c.isDigit || c == '_'

/-- Digits without the underscores between them. -/
def withoutLines (cs : List Char) : List Char := cs.filter (· != '_')

/-- A text cut at every colon. -/
def cutAtColons (cs : List Char) : List (List Char) :=
  cs.foldr (fun c parts => match c, parts with
    | ':', parts => [] :: parts
    | c, part :: rest => (c :: part) :: rest
    | c, [] => [[c]]) [[]]

/-- A place that is counted by sixties: one digit, or two of which the first is at most five. -/
def isSixties : List Char → Bool
  | [a] => a.isDigit
  | [a, b] => '0' ≤ a && a ≤ '5' && b.isDigit
  | _ => false

/-! ### Whole numbers -/

/-- A whole number as written: its base, and its digits in places that are counted by sixties. -/
structure IntLiteral where
  negative : Bool
  base : Nat
  places : List (List Char)

namespace IntLiteral

/-- The places of a number in base ten. -/
def decimalPlaces? (cs : List Char) : Option (List (List Char)) :=
  match cutAtColons cs with
  | first :: rest =>
      if (first.head?.any fun c => '1' ≤ c && c ≤ '9') && first.all isDigitOrLine
          && rest.all isSixties then some (first :: rest) else none
  | [] => none

/-- The whole number that a text is, if it is one. -/
def ofChars? (cs : List Char) : Option IntLiteral :=
  let (negative, body) := Decimal.takeSign cs
  let based (base : Nat) (digits : List Char) (p : Char → Bool) : Option IntLiteral :=
    if digits.all fun c => p c || c == '_' then some ⟨negative, base, [digits]⟩ else none
  match body with
  | ['0', 'b'] => none
  | '0' :: 'b' :: digits => based 2 digits fun c => c == '0' || c == '1'
  | ['0', 'x'] => none
  | '0' :: 'x' :: digits => based 16 digits fun c =>
      c.isDigit || ('a' ≤ c && c ≤ 'f') || ('A' ≤ c && c ≤ 'F')
  | '0' :: digits => based 8 ('0' :: digits) fun c => '0' ≤ c && c ≤ '7'
  | body => (decimalPlaces? body).map fun places => ⟨negative, 10, places⟩

/-- The amount of a digit. -/
def digitValue (c : Char) : Nat :=
  if c.isDigit then c.toNat - '0'.toNat else c.toLower.toNat - 'a'.toNat + 10

/-- A place of more digits than are read in base ten, as their number. -/
def excess? (l : IntLiteral) : Option Nat :=
  if l.base = 10 then
    (l.places.map fun place => (withoutLines place).length).find? (Decimal.digitLimit < ·)
  else none

/-- The number that a literal stands for; there is none if a place has no digits. -/
def value? (l : IntLiteral) : Option Int :=
  let places := l.places.map withoutLines
  if places.any (· == []) then none
  else
    let amount (digits : List Char) : Nat := digits.foldl (fun n c => l.base * n + digitValue c) 0
    let total := places.foldl (fun n digits => 60 * n + amount digits) 0
    some (if l.negative then -(total : Int) else (total : Int))

end IntLiteral

/-! ### Other numbers -/

/-- A number with a point as written: in places that are counted by sixties, or an infinity, or
none. -/
inductive FloatLiteral
  | placed (negative : Bool) (places : List (List Char))
  | infinite (negative : Bool)
  | nan

namespace FloatLiteral

/-- Whether a text is nothing, or an exponent with a sign. -/
def isExponent : List Char → Bool
  | [] => true
  | e :: sign :: digits =>
      (e == 'e' || e == 'E') && (sign == '+' || sign == '-') && !digits.isEmpty
        && digits.all Char.isDigit
  | _ => false

/-- Whether a text is digits with a point among them, and an exponent or not. -/
def isPointed (cs : List Char) : Bool :=
  let whole := cs.takeWhile isDigitOrLine
  match cs.dropWhile isDigitOrLine with
  | '.' :: rest =>
      whole.head?.any Char.isDigit && isExponent (rest.dropWhile isDigitOrLine)
  | _ => false

/-- Whether a text is a point with digits behind it, and an exponent or not. -/
def isFraction : List Char → Bool
  | '.' :: rest => rest.head?.any Char.isDigit && isExponent (rest.dropWhile isDigitOrLine)
  | _ => false

/-- Whether a text is digits in places that are counted by sixties, the last of them with a point. -/
def isPlaced (cs : List Char) : Bool :=
  match cutAtColons cs with
  | first :: second :: rest =>
      let places := second :: rest
      let last := places.getLastD []
      first.head?.any Char.isDigit && first.all isDigitOrLine
        && places.dropLast.all isSixties && isSixties (last.takeWhile (· != '.'))
        && match last.dropWhile (· != '.') with
          | '.' :: fraction => fraction.all isDigitOrLine
          | _ => false
  | _ => false

/-- The number with a point that a text is, if it is one. -/
def ofChars? (cs : List Char) : Option FloatLiteral :=
  let (negative, body) := Decimal.takeSign cs
  if isFraction cs then some (.placed false [cs])
  else if isPointed body then some (.placed negative [body])
  else if isPlaced body then some (.placed negative (cutAtColons body))
  else if [".inf", ".Inf", ".INF"].contains (String.ofList body) then some (.infinite negative)
  else if [".nan", ".NaN", ".NAN"].contains (String.ofList cs) then some .nan
  else none

/-- The number that the digits of a place stand for. -/
def amount (digits : List Char) : Binary64 := (Decimal.ofLiteral? (withoutLines digits)).getD .nan

/-- What one is worth `k` places before the last one, if a number is great enough for that. -/
def weight? (k : Nat) : Option Binary64 :=
  match Binary64.ofRatio false (Nat.pow 60 k) 1 with
  | .finite negative m e => some (.finite negative m e)
  | _ => none

/-- The sum of places, the last one first; it is rounded at every step. -/
def total? (places : List (List Char)) : Option Binary64 :=
  places.reverse.zipIdx.foldlM (fun total place => (weight? place.2).map fun weight =>
    total.addMagnitudes ((amount place.1).multiplyMagnitudes weight)) (Binary64.ofRatio false 0 1)

/-- The number that a literal stands for; there is none if it has too many places. -/
def value? : FloatLiteral → Option Binary64
  | .placed negative [digits] => some ((amount digits).negateIf negative)
  | .placed negative places => (total? places).map (·.negateIf negative)
  | .infinite negative => some (.infinite negative)
  | .nan => some .nan

end FloatLiteral

end Yaml

end HashedAssets
