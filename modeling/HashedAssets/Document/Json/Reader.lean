import HashedAssets.Decimal.Literal
import HashedAssets.Bytes
import HashedAssets.Document.Value

/-!
# Reading JSON

A number with a point or an exponent is a floating point number, any other one is a whole number of any
size. The entries of an object keep their order; of two with one key the later counts.

* `readText`: the rest of a string, behind its opening quote;
* `number?`: what a number means;
* `Json.read?`: the value of a whole text.
-/

namespace HashedAssets.Json

/-- The characters that may stand between tokens. -/
def isBlank (c : Char) : Bool := c == ' ' || c == '\n' || c == '\r' || c == '\t'

/-- Leave out what may stand between tokens. -/
def skip (cs : List Char) : List Char := cs.dropWhile isBlank

/-! ### Strings -/

/-- The number that four hexadecimal digits stand for. -/
def unit? (a b c d : Char) : Option Nat :=
  [a, b, c, d].foldlM (fun n x => (Bytes.hexValue? x).map (16 * n + ·)) 0

/-- The character that stands behind a backslash. -/
def escaped? : Char → Option Char
  | '"' => some '"'
  | '\\' => some '\\'
  | '/' => some '/'
  | 'b' => some '\x08'
  | 'f' => some '\x0c'
  | 'n' => some '\n'
  | 'r' => some '\r'
  | 't' => some '\t'
  | _ => none

/-- The character of one unit of sixteen bits, if it stands for itself. -/
def single? (n : Nat) : Option Char :=
  if 0xD800 ≤ n ∧ n < 0xE000 then none else some (Char.ofNat n)

/-- The character of two units of sixteen bits. -/
def pair? (high low : Nat) : Option Char :=
  if 0xD800 ≤ high ∧ high < 0xDC00 ∧ 0xDC00 ≤ low ∧ low < 0xE000 then
    some (Char.ofNat (0x10000 + (high - 0xD800) * 0x400 + (low - 0xDC00)))
  else none

/-- The rest of a string, behind its opening quote, and what follows it. The characters read so far
come last first. -/
def readText (read : List Char) : List Char → Option (String × List Char)
  | [] => none
  | '"' :: rest => some (String.ofList read.reverse, rest)
  | '\\' :: 'u' :: a :: b :: c :: d :: '\\' :: 'u' :: a' :: b' :: c' :: d' :: rest =>
      match unit? a b c d, unit? a' b' c' d' with
      | some m, some n => match pair? m n, single? m, single? n with
        | some x, _, _ => readText (x :: read) rest
        | none, some x, some y => readText (y :: x :: read) rest
        | none, some x, none => readText (x :: read) ('\\' :: 'u' :: a' :: b' :: c' :: d' :: rest)
        | none, none, _ => none
      | _, _ => none
  | '\\' :: 'u' :: a :: b :: c :: d :: rest =>
      match (unit? a b c d).bind single? with
      | some x => readText (x :: read) rest
      | none => none
  | '\\' :: c :: rest => match escaped? c with
      | some x => readText (x :: read) rest
      | none => none
  | c :: rest => if c.toNat < 0x20 then none else readText (c :: read) rest
termination_by cs => cs.length

/-! ### Numbers -/

/-- The characters that a number consists of. -/
def isNumberChar (c : Char) : Bool :=
  c.isDigit || c == '-' || c == '+' || c == '.' || c == 'e' || c == 'E'

/-- The value of a number. -/
def number? (cs : List Char) : Option Value :=
  let digits := if cs.head? = some '-' then cs.tail else cs
  if !((digits.head?).map Char.isDigit).getD false then none
  else if digits.all Char.isDigit then
    let n : Int := Decimal.naturalOf digits
    some (.int (if cs.head? = some '-' then -n else n))
  else (Decimal.ofLiteral? cs).map .float

/-! ### Values -/

/-- A word that stands for a value. -/
def word? (cs : List Char) : Option (Value × List Char) :=
  match cs with
  | 't' :: 'r' :: 'u' :: 'e' :: rest => some (.bool true, rest)
  | 'f' :: 'a' :: 'l' :: 's' :: 'e' :: rest => some (.bool false, rest)
  | 'n' :: 'u' :: 'l' :: 'l' :: rest => some (.null, rest)
  | cs => (number? (cs.takeWhile isNumberChar)).map fun v => (v, cs.dropWhile isNumberChar)

mutual

/-- A value at the beginning of a text, and what follows it; the number bounds how deep it is. -/
def readValue : Nat → List Char → Option (Value × List Char)
  | 0, _ => none
  | n + 1, cs => match skip cs with
    | '[' :: rest => match skip rest with
      | ']' :: rest => some (.list [], rest)
      | rest => (readItems n [] rest).map fun x => (.list x.1, x.2)
    | '\x7b' :: rest => match skip rest with
      | '\x7d' :: rest => some (.map [], rest)
      | rest => (readEntries n [] rest).map fun x => (.map x.1, x.2)
    | '"' :: rest => (readText [] rest).map fun x => (.text x.1, x.2)
    | cs => word? cs

/-- The items of a list, behind those read so far, and what follows the list. -/
def readItems : Nat → List Value → List Char → Option (List Value × List Char)
  | 0, _, _ => none
  | n + 1, read, cs => match readValue n cs with
    | none => none
    | some (v, rest) => match skip rest with
      | ',' :: rest => readItems n (v :: read) rest
      | ']' :: rest => some ((v :: read).reverse, rest)
      | _ => none

/-- The entries of an object, behind those read so far, and what follows the object. -/
def readEntries : Nat → List (Value × Value) → List Char →
    Option (List (Value × Value) × List Char)
  | 0, _, _ => none
  | n + 1, read, cs => match skip cs with
    | '"' :: rest => match readText [] rest with
      | none => none
      | some (k, rest) => match skip rest with
        | ':' :: rest => match readValue n rest with
          | none => none
          | some (v, rest) =>
              let read := Value.addEntry (.text k) v read
              match skip rest with
              | ',' :: rest => readEntries n read rest
              | '\x7d' :: rest => some (read, rest)
              | _ => none
        | _ => none
    | _ => none

end

/-- The value of a text. -/
def read? (s : String) : Option Value :=
  match readValue (s.length + 1) s.toList with
  | some (v, rest) => if (skip rest).isEmpty then some v else none
  | none => none

end HashedAssets.Json
