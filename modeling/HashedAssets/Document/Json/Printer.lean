import HashedAssets.Document.Value

/-!
# Writing JSON

* `Json.Style`: how values are laid out;
* `Json.quote`: a string between quotes;
* `Json.print`: a value.
-/

namespace HashedAssets.Json

/-- How values are laid out. -/
structure Style where
  /-- Whether characters beyond the first 128 are written by their numbers. -/
  ascii : Bool
  /-- By how many spaces the inside of lists and objects is set in, on lines of its own. -/
  indent : Option Nat
  deriving DecidableEq, Repr

/-- Everything on one line. -/
def Style.line : Style := ⟨false, none⟩

/-- One line for each item, set in by two spaces, with the first 128 characters only. -/
def Style.page : Style := ⟨true, some 2⟩

/-! ### Strings -/

/-- A unit of sixteen bits by its number. -/
def unit (n : Nat) : String :=
  let digits := Nat.toDigits 16 n
  "\\u" ++ String.ofList (List.replicate (4 - digits.length) '0' ++ digits)

/-- A character by the numbers of its units of sixteen bits. -/
def units (c : Char) : String :=
  let n := c.toNat
  if n < 0x10000 then unit n
  else unit (0xD800 + (n - 0x10000) / 0x400) ++ unit (0xDC00 + (n - 0x10000) % 0x400)

/-- A character as it stands in a string. -/
def quoteChar (ascii : Bool) (c : Char) : String :=
  match c with
  | '"' => "\\\""
  | '\\' => "\\\\"
  | '\n' => "\\n"
  | '\r' => "\\r"
  | '\t' => "\\t"
  | '\x08' => "\\b"
  | '\x0c' => "\\f"
  | c => if c.toNat < 0x20 ∨ (ascii ∧ 0x7f ≤ c.toNat) then units c else c.toString

/-- A string between quotes. -/
def quote (ascii : Bool) (s : String) : String :=
  s.toList.foldl (fun t c => t ++ quoteChar ascii c) "\"" ++ "\""

/-! ### Values -/

/-- What stands before an item that is set in `depth` times. -/
def Style.gap (s : Style) (depth : Nat) : String :=
  match s.indent with
  | none => ""
  | some n => "\n" ++ String.ofList (List.replicate (n * depth) ' ')

/-- What stands between two items that are set in `depth` times. -/
def Style.separator (s : Style) (depth : Nat) : String :=
  match s.indent with
  | none => ", "
  | some _ => "," ++ s.gap depth

/-- Items between brackets. -/
def Style.enclose (s : Style) (depth : Nat) (left right : String) (items : List String) : String :=
  if items.isEmpty then left ++ right
  else left ++ s.gap (depth + 1) ++ (s.separator (depth + 1)).intercalate items ++ s.gap depth ++ right

mutual

/-- A value that stands where things are set in `depth` times. -/
def printAt (s : Style) (depth : Nat) : Value → String
  | .null => "null"
  | .bool b => if b then "true" else "false"
  | .int n => toString n
  | .float x => Value.floatText x
  | .text t => quote s.ascii t
  | .list items => s.enclose depth "[" "]" (printItems s (depth + 1) items)
  | .map entries => s.enclose depth "\x7b" "\x7d" (printEntries s (depth + 1) entries)
  | v => quote s.ascii v.plain

/-- The items of a list. -/
def printItems (s : Style) (depth : Nat) : List Value → List String
  | [] => []
  | v :: rest => printAt s depth v :: printItems s depth rest

/-- The entries of an object. -/
def printEntries (s : Style) (depth : Nat) : List (Value × Value) → List String
  | [] => []
  | (k, v) :: rest =>
      (quote s.ascii k.plain ++ ": " ++ printAt s depth v) :: printEntries s depth rest

end

/-- A value as JSON. -/
def print (s : Style) (v : Value) : String := printAt s 0 v

end HashedAssets.Json
