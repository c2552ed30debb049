import HashedAssets.Decimal.Limit
import HashedAssets.Document.Moment
import HashedAssets.Text.Quoted

/-!
# Values of a settings document

What a document can hold: nothing, truth values, numbers, text, dates, lists and mappings. A
mapping keeps its entries in the order in which their keys first stood.

* `Value`: the values;
* `Value.typeName`, `Value.isTrue`, `Value.isKey`, `Value.sameKey`: how values are classed;
* `Value.isWritable`: whether a value has a text at all;
* `Value.shown`: a value as it is shown inside messages, text between quotes;
* `Value.plain`: the same, but a text stands as it is;
* `Value.sortKeys?`: keys in order.
-/

namespace HashedAssets

/-- A value of a document. -/
inductive Value
  | null
  | bool (b : Bool)
  | int (n : Int)
  | float (x : Binary64)
  | text (s : String)
  | date (year month day : Nat)
  | moment (m : Moment)
  | list (items : List Value)
  | map (entries : List (Value × Value))
  deriving Repr, Inhabited

namespace Value

/-- The name of the kind of a value. -/
def typeName : Value → String
  | .null => "NoneType"
  | .bool _ => "bool"
  | .int _ => "int"
  | .float _ => "float"
  | .text _ => "str"
  | .date .. => "date"
  | .moment _ => "datetime"
  | .list _ => "list"
  | .map _ => "dict"

/-- Whether a value counts as true: everything but nothing, zero and what is empty. -/
def isTrue : Value → Bool
  | .null => false
  | .bool b => b
  | .int n => n != 0
  | .float x => !x.isZero
  | .text s => !s.isEmpty
  | .date .. => true
  | .moment _ => true
  | .list items => !items.isEmpty
  | .map entries => !entries.isEmpty

/-- Whether a value may be a key: lists and mappings may not. -/
def isKey : Value → Bool
  | .list _ => false
  | .map _ => false
  | _ => true

/-- The whole number that a number or truth value is, if it is one. -/
def toInt? : Value → Option Int
  | .bool b => some b.toNat
  | .int n => some n
  | .float x => x.toInt?
  | _ => none

/-- Whether two keys are one: numbers and truth values by their amount, moments by their instant, all
else by what it is. -/
def sameKey : Value → Value → Bool
  | .null, .null => true
  | .text s, .text t => s == t
  | .date y m d, .date y' m' d' => y == y' && m == m' && d == d'
  | .moment m, .moment m' => m.same m'
  | .float x, .float y => x == y || (x.isZero && y.isZero)
  | v, w => match v.toInt?, w.toInt? with
    | some n, some n' => n == n'
    | _, _ => false

/-- The value of the entry with a text as its key. -/
def field? (name : String) : List (Value × Value) → Option Value
  | [] => none
  | (k, v) :: rest => if k.sameKey (.text name) then some v else field? name rest

/-- Add an entry; an entry of the same key keeps its place and takes the new value. -/
def addEntry (k v : Value) : List (Value × Value) → List (Value × Value)
  | [] => [(k, v)]
  | (k', v') :: rest => if k'.sameKey k then (k', v) :: rest else (k', v') :: addEntry k v rest

/-! ### Text of values -/

mutual

/-- Whether a value has a text: no whole number in it has too many digits. -/
def isWritable : Value → Bool
  | .int n => Decimal.isWritable n
  | .list items => areWritable items
  | .map entries => areEntriesWritable entries
  | _ => true

/-- Whether all items of a list have a text. -/
def areWritable : List Value → Bool
  | [] => true
  | v :: rest => v.isWritable && areWritable rest

/-- Whether all entries of a mapping have a text. -/
def areEntriesWritable : List (Value × Value) → Bool
  | [] => true
  | (k, v) :: rest => k.isWritable && v.isWritable && areEntriesWritable rest

end

/-- Floating point numbers are positional for first digits from the fourth place behind the point to
the sixteenth before it, whole ones keep a zero behind the point, and exponents have a sign and two
digits at least. -/
def floatLayout : Decimal.Layout :=
  { lowest := -4, highest := 15, keepsPoint := true, exponentWidth := 2 }

/-- The text of a floating point number. -/
def floatText : Binary64 → String
  | .nan => "nan"
  | .infinite negative => if negative then "-inf" else "inf"
  | .finite negative m e =>
      let body :=
        if m = 0 then ['0', '.', '0']
        else
          let (digits, power) := Decimal.shortest m e
          floatLayout.render digits power
      String.ofList (if negative then '-' :: body else body)

mutual

/-- A value as it is shown inside messages. -/
def shown : Value → String
  | .null => "None"
  | .bool b => if b then "True" else "False"
  | .int n => toString n
  | .float x => floatText x
  | .text s => Text.quoted s
  | .date y m d => "datetime.date(" ++ ", ".intercalate [toString y, toString m, toString d] ++ ")"
  | .moment m => m.shown
  | .list items => "[" ++ ", ".intercalate (shownItems items) ++ "]"
  | .map entries => "\x7b" ++ ", ".intercalate (shownEntries entries) ++ "\x7d"

/-- The items of a list as they are shown. -/
def shownItems : List Value → List String
  | [] => []
  | v :: rest => shown v :: shownItems rest

/-- The entries of a mapping as they are shown. -/
def shownEntries : List (Value × Value) → List String
  | [] => []
  | (k, v) :: rest => (shown k ++ ": " ++ shown v) :: shownEntries rest

end

/-- The text of a value. -/
def plain : Value → String
  | .text s => s
  | .date y m d => dateText y m d
  | .moment m => m.text
  | v => v.shown

/-- A list of texts as it is shown inside messages. -/
def shownTexts (ts : List String) : String := (Value.list (ts.map .text)).shown

/-! ### Order -/

/-- Whether a key does not come behind another one, if the two can be compared: texts by code point,
numbers by amount, dates and moments by the calendar. -/
def atMost? : Value → Value → Option Bool
  | .text s, .text t => some (decide (s ≤ t))
  | .date y m d, .date y' m' d' =>
      some (decide (dayNumber y m d ≤ dayNumber y' m' d'))
  | .moment m, .moment m' => m.atMost? m'
  | .float x, .float y => some (x.atMost y)
  | .float x, w => w.toInt?.map fun n => x.atMost (.finite (n < 0) n.natAbs 0)
  | v, .float y => v.toInt?.map fun n => Binary64.atMost (.finite (n < 0) n.natAbs 0) y
  | v, w => match v.toInt?, w.toInt? with
    | some n, some n' => some (decide (n ≤ n'))
    | _, _ => none

/-- Keys in order, if every two of them can be compared. -/
def sortKeys? (ks : List Value) : Option (List Value) :=
  if ks.length ≤ 1 ∨ ks.all fun k => ks.all fun k' => (k.atMost? k').isSome then
    some (ks.mergeSort fun k k' => (k.atMost? k').getD true)
  else none

end Value

end HashedAssets
