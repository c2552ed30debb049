import HashedAssets.Text.Digit

/-!
# Arguments of a command line

An argument is an option if it begins with a hyphen and is not just that, a number, or something with a
space in it. Options may be shortened as long as it is clear which one is meant, a value may follow an
equals sign, and flags of one letter may share a hyphen; an equals sign may stand between the first of
these and the rest. Behind two hyphens there are no options.

* `Switch`, `Argument`, `Argument.ofTexts?`: telling arguments apart;
* `Arguments`, `Arguments.collect`: one operand and the values of options;
* `Stop`: why that ends early.
-/

namespace HashedAssets.CommandLine

/-- An option: its name, with its letter if it is a flag that has one, and whether a value belongs to
it. -/
structure Switch where
  name : String
  letter : Option Char
  takesValue : Bool
  deriving DecidableEq, Repr

namespace Switch

/-- A flag. -/
def flag (name : String) (letter : Char) : Switch := ⟨name, some letter, false⟩

/-- An option with a value. -/
def valued (name : String) : Switch := ⟨name, none, true⟩

/-- The flag that asks for help. -/
def help : Switch := flag "help" 'h'

/-- The long form of an option. -/
def long (s : Switch) : String := "--" ++ s.name

/-- The short form of an option. -/
def short? (s : Switch) : Option String := s.letter.map fun c => "-" ++ c.toString

/-- Whether a text is one of the forms of an option. -/
def isWritten (s : Switch) (text : String) : Bool := text == s.long || s.short? == some text

end Switch

/-- An argument, told apart from the others. -/
inductive Argument
  | word (text : String)
  /-- The two hyphens behind which there are no options. -/
  | separator
  /-- An option with what belongs to the same argument: a value, or the letters of further flags. -/
  | switch (s : Switch) (value : Option String) (letters : List Char)
  /-- An option that is not known. -/
  | unknown (text : String)
  deriving DecidableEq, Repr

namespace Argument

/-- A text cut at its first equals sign. -/
def cutAtEquals (cs : List Char) : List Char × Option (List Char) :=
  match cs.dropWhile (· != '=') with
  | [] => (cs, none)
  | _ :: rest => (cs.takeWhile (· != '='), some rest)

/-- Whether a text is a number below zero, in the digits of any script; the end of a line may follow. -/
def isNegativeNumber : List Char → Bool
  | '-' :: cs =>
      let cs := if cs.getLast? = some '\n' then cs.dropLast else cs
      let whole := cs.takeWhile Text.isDecimalDigit
      match cs.dropWhile Text.isDecimalDigit with
      | [] => !whole.isEmpty
      | '.' :: fraction => !fraction.isEmpty && fraction.all Text.isDecimalDigit
      | _ => false
  | _ => false

/-- The options that a text may be a shortened form of. -/
def candidates (switches : List Switch) (cs : List Char) : List Argument :=
  match cs with
  | '-' :: '-' :: _ =>
      let (name, value) := cutAtEquals cs
      (switches.filter fun s => name.isPrefixOf s.long.toList).map fun s =>
        .switch s (value.map String.ofList) []
  | '-' :: letter :: rest =>
      (switches.filter fun s => s.letter == some letter).map fun s => .switch s none rest
  | _ => []

/-- What an argument is, if that is clear. -/
def ofText? (switches : List Switch) (text : String) : Option Argument :=
  let cs := text.toList
  if cs.head? != some '-' then some (.word text)
  else match switches.find? (·.isWritten text) with
  | some s => some (.switch s none [])
  | none =>
      if cs.length = 1 then some (.word text)
      else
        let (name, value) := cutAtEquals cs
        let name := String.ofList name
        match value, switches.find? (·.isWritten name) with
        | some (c :: letters), some s =>
            if name = s.long then some (.switch s (some (String.ofList (c :: letters))) [])
            else some (.switch s none (c :: letters))
        | some [], some s => some (.switch s (some "") [])
        | _, _ => match candidates switches cs with
          | [a] => some a
          | _ :: _ :: _ => none
          | [] =>
              if isNegativeNumber cs || cs.contains ' ' then some (.word text)
              else some (.unknown text)

/-- What arguments are, if that is clear of each. -/
def ofTexts? (switches : List Switch) : List String → Option (List Argument)
  | [] => some []
  | text :: rest =>
      if text = "--" then some (.separator :: rest.map .word)
      else do
        let a ← ofText? switches text
        let as ← ofTexts? switches rest
        pure (a :: as)

end Argument

/-- Why the arguments are not read to their end. -/
inductive Stop
  | help
  | refused
  deriving DecidableEq, Repr

/-- A flag and those whose letters follow it, if each of these is the letter of a flag. -/
def flagsOf (switches : List Switch) (s : Switch) : List Char → Except Stop (List Switch)
  | [] => .ok [s]
  | c :: rest => match switches.find? fun s => s.letter == some c with
    | none => .error .refused
    | some t => (flagsOf switches t rest).map (s :: ·)

/-- Take the flags of an argument. One that asks for help ends everything. -/
def takeFlags (switches : List Switch) (s : Switch) (value : Option String) (letters : List Char) :
    Except Stop Unit := do
  if value.isSome then throw .refused
  if (← flagsOf switches s letters).contains .help then throw .help

/-- What arguments say. -/
structure Arguments where
  operand : Option String := none
  values : List (String × String) := []
  /-- Whether there are arguments that nothing is known about. -/
  hasSurplus : Bool := false

namespace Arguments

/-- The value of an option: the last one that is given. -/
def value? (a : Arguments) (s : Switch) : Option String := a.values.lookup s.name

/-- Give a value to an option. -/
def set (a : Arguments) (s : Switch) (value : String) : Arguments :=
  { a with values := (s.name, value) :: a.values }

/-- Take arguments one after the other: the first word is the operand. -/
def collect (switches : List Switch) (a : Arguments) : List Argument → Except Stop Arguments
  | [] => .ok a
  | .word text :: rest =>
      match a.operand, rest with
      | some _, rest => collect switches { a with hasSurplus := true } rest
      | none, .separator :: rest => collect switches { a with operand := some text } rest
      | none, rest => collect switches { a with operand := some text } rest
  | .separator :: rest =>
      match a.operand, rest with
      | none, .word text :: rest => collect switches { a with operand := some text } rest
      | _, rest => collect switches { a with hasSurplus := true } rest
  | .unknown _ :: rest => collect switches { a with hasSurplus := true } rest
  | .switch s value letters :: rest =>
      if s.takesValue then
        match value, rest with
        | some value, rest => collect switches (a.set s value) rest
        | none, .word value :: rest => collect switches (a.set s value) rest
        | none, _ => .error .refused
      else do
        takeFlags switches s value letters
        collect switches a rest

end Arguments

end HashedAssets.CommandLine
