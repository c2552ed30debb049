import HashedAssets.CommandLine.Arguments

/-!
# Commands

* `Command`: writing all assets under their public paths, or showing how they depend on one another;
* `Request.ofArguments`: what a command line asks for.
-/

namespace HashedAssets.CommandLine

/-- A command, with the file of the settings and the directories that are concerned. -/
inductive Command
  | bundle (settings root out : String)
  | inspect (settings root : String)
  deriving DecidableEq, Repr

/-- What a command line asks for. -/
inductive Request
  | run (c : Command)
  /-- No command is given: the commands are shown. -/
  | overview
  | help
  /-- The arguments mean nothing. -/
  | refused
  deriving DecidableEq, Repr

namespace Request

/-- The directory that holds the files of the assets. -/
def root : Switch := .valued "root"

/-- The directory that assets are written to. -/
def out : Switch := .valued "out"

/-- The options in front of the command. -/
def general : List Switch := [.help, .flag "verbose" 'v']

/-- What the arguments behind the name of a command say. -/
def collect (switches : List Switch) (args : List String) : Except Stop Arguments :=
  match Argument.ofTexts? switches args with
  | none => .error .refused
  | some as => Arguments.collect switches {} as

/-- The command of a name and the arguments behind it, and whether some of these mean nothing. -/
def command (name : String) (args : List String) : Except Stop (Command × Bool) := do
  if name = "bundle" then
    let a ← collect [.help, root, out] args
    match a.operand, a.value? root, a.value? out with
    | some settings, some root, some out => pure (.bundle settings root out, a.hasSurplus)
    | _, _, _ => throw .refused
  else if name = "inspect" then
    let a ← collect [.help, root] args
    match a.operand, a.value? root with
    | some settings, some root => pure (.inspect settings root, a.hasSurplus)
    | _, _ => throw .refused
  else throw .refused

/-- Take the arguments up to the name of a command. -/
def collectGeneral (hasSurplus : Bool) : List (String × Argument) → Except Stop Request
  | [] => if hasSurplus then .error .refused else .ok .overview
  | (_, .word name) :: rest => do
      let (c, more) ← command name (rest.map (·.1))
      if hasSurplus || more then throw .refused
      pure (.run c)
  | (_, .separator) :: _ => .error .refused
  | (_, .unknown _) :: rest => collectGeneral true rest
  | (_, .switch s value letters) :: rest => do
      takeFlags general s value letters
      collectGeneral hasSurplus rest

/-- What a command line asks for. -/
def ofArguments (args : List String) : Request :=
  match Argument.ofTexts? general args with
  | none => .refused
  | some as => match collectGeneral false (args.zip as) with
    | .ok r => r
    | .error .help => .help
    | .error .refused => .refused

end Request

end HashedAssets.CommandLine
