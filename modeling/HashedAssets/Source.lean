import HashedAssets.Bytes
import HashedAssets.Document.Value

/-!
# Sources of raw bytes

Where the raw bytes of an asset come from, and what can go wrong on the way.

* `SystemFault`, `HostError`, `LoadFault`: why there are no bytes, with the text of each;
* `Loader`: bytes that are fetched anew whenever they are needed;
* `Source`: bytes handed over once, bytes of a directory listing, or a loader.
-/

namespace HashedAssets

/-! ### What can go wrong -/

/-- A file operation that the system refuses. -/
inductive SystemFault
  | missing (path : String)
  | isDirectory (path : String)
  | exists (path : String)
  | notDirectory (path : String)
  | nameTooLong (path : String)
  /-- The path holds the character that ends paths for the system. -/
  | nullInPath
  deriving DecidableEq, Repr

/-- The text of a refusal: a number, a description and the path. -/
def SystemFault.message : SystemFault → String
  | .missing p => text 2 "No such file or directory" p
  | .isDirectory p => text 21 "Is a directory" p
  | .exists p => text 17 "File exists" p
  | .notDirectory p => text 20 "Not a directory" p
  | .nameTooLong p => text 36 "File name too long" p
  | .nullInPath => "embedded null byte"
where
  /-- A refusal as the system words it. -/
  text (number : Nat) (description path : String) : String :=
    "[Errno " ++ toString number ++ "] " ++ description ++ ": " ++ Text.quoted path

/-- An error that the host's own loader reports: its kind and what it was reported with. -/
structure HostError where
  kind : String
  args : List Value
  deriving Repr

/-- Whether the kind is that of errors of the system, which carry a number and a description. -/
def HostError.isSystem (e : HostError) : Bool := e.kind == "OSError" || e.kind == "ConnectionError"

/-- The numbers of the system errors of operations that would have to wait. -/
def waitingNumbers : List Int := [11, 114, 115]

/-- Whether an error says that an operation would have to wait. A number in the place of its path is
then an amount of work that was done. -/
def HostError.isWaiting (e : HostError) (number : Value) : Bool :=
  match number with
  | .int n => e.kind == "OSError" && waitingNumbers.contains n
  | _ => false

/-- What is wrong with an amount of work: it is no whole number, or not one of sixty-four bits. -/
def amountFault? : Value → Option String
  | .float _ => some "'float' object cannot be interpreted as an integer"
  | .int n =>
      if -(twoTo 63 : Int) ≤ n ∧ n < twoTo 63 then none
      else some "cannot fit 'int' into an index-sized integer"
  | _ => none

/-- Whether a value is a number or a truth value. -/
def isAmount : Value → Bool
  | .bool _ => true
  | .int _ => true
  | .float _ => true
  | _ => false

/-- The paths that a system error concerns, each behind what leads to it: there is no second one
without a first one. -/
def pathsText (first second : Value) : String :=
  match first, second with
  | .null, _ => ""
  | p, .null => ": " ++ p.shown
  | p, q => ": " ++ p.shown ++ " -> " ++ q.shown

/-- The text of an error: its argument, or all of them in parentheses. A system error with a number
and a description shows these, and the paths it concerns; a missing key is shown in quotes. -/
def HostError.message (e : HostError) : String :=
  let described (number description first second : Value) : String :=
    let text := "[Errno " ++ number.plain ++ "] " ++ description.plain
    if e.isWaiting number && isAmount first then (amountFault? first).getD text
    else text ++ pathsText first second
  match e.isSystem, e.args with
  | _, [] => ""
  | _, [v] => if e.kind = "KeyError" then v.shown else v.plain
  | true, [n, d] => described n d .null .null
  | true, [n, d, p] => described n d p .null
  | true, [n, d, p, _] => described n d p .null
  | true, [n, d, p, _, q] => described n d p q
  | _, _ => "(" ++ ", ".intercalate (e.args.map Value.shown) ++ ")"

/-- Why a loader gave no bytes. -/
inductive LoadFault
  | reported (e : HostError)
  | notBytes (typeName : String)
  | system (f : SystemFault)
  deriving Repr

/-- The text of a fault. -/
def LoadFault.message : LoadFault → String
  | .reported e => e.message
  | .notBytes t => "loader returned " ++ t ++ ", expected bytes"
  | .system f => f.message

/-! ### Sources -/

/-- A loader: it gives the same on every call, or something that depends on the number of the call. One
of the second kind may have a gate, which each call waits for before it gives anything. -/
inductive Loader
  | constant (result : Except LoadFault Bytes)
  | varying (deliver : Nat → Except LoadFault Bytes) (gate : Option String)

/-- Whether it matters how often a loader was called. -/
def Loader.isCounted : Loader → Bool
  | .constant _ => false
  | .varying .. => true

/-- What the call of a number gives. -/
def Loader.deliver : Loader → Nat → Except LoadFault Bytes
  | .constant result, _ => result
  | .varying f _, k => f k

/-- The gate of a loader. -/
def Loader.gate : Loader → Option String
  | .constant _ => none
  | .varying _ gate => gate

/-- The results of a list one after the other, the last one again and again. -/
def Loader.ofResults (first : Except LoadFault Bytes) (rest : List (Except LoadFault Bytes))
    (gate : Option String) : Loader :=
  .varying (fun k => (first :: rest).getD (min k rest.length) first) gate

/-- How an asset was registered. -/
inductive Origin
  | static
  | dynamic
  | directory
  deriving DecidableEq, Repr

/-- The word for an origin. -/
def Origin.word : Origin → String
  | .static => "static"
  | .dynamic => "dynamic"
  | .directory => "directory"

/-- Where raw bytes come from. Bytes held beside a loader are shown but never served. -/
inductive Source
  | static (content : Bytes)
  | directory (content : Bytes)
  | dynamic (loader : Loader) (held : Option Bytes)

/-- How a source was registered. -/
def Source.origin : Source → Origin
  | .static _ => .static
  | .directory _ => .directory
  | .dynamic .. => .dynamic

/-- The bytes that a source holds. -/
def Source.held? : Source → Option Bytes
  | .static b => some b
  | .directory b => some b
  | .dynamic _ held => held

/-- The loader of a source. -/
def Source.loader? : Source → Option Loader
  | .dynamic l _ => some l
  | _ => none

end HashedAssets
