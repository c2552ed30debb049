import HashedAssets.FileTree.Basic
import HashedAssets.Settings.Text
import HashedAssets.Text.Utf8

/-!
# What a command leaves

* `CommandFault`: why a command ends early;
* `Line`, `Outcome`: what is shown, and the files afterwards.
-/

namespace HashedAssets.CommandLine

/-- Why a command ends early. -/
inductive CommandFault
  | settings (f : SettingsFault)
  | failure (f : Failure)
  | system (f : SystemFault)
  /-- The settings are no text. -/
  | notText (f : Utf8.Fault)
  /-- A public path does not lead to a file in the output directory. -/
  | outside (publicPath path out : String)
  deriving Repr

/-- The text of a fault. -/
def CommandFault.message : CommandFault → String
  | .settings f => f.message
  | .failure f => f.message
  | .system f => f.message
  | .notText f => f.message
  | .outside publicPath path out =>
      "Public path " ++ Text.quoted publicPath ++ " of " ++ path ++ " is outside " ++ out

/-- A line that is shown. -/
inductive Line
  | text (s : String)
  /-- How long resolving took; the time itself is known only while that runs. -/
  | buildTime
  deriving DecidableEq, Repr

/-- A line as it is shown. -/
def Line.shown (time : String) : Line → String
  | .text s => s ++ "\n"
  | .buildTime => "Build time: " ++ time ++ "\n"

/-- What a command leaves: the lines shown, the fault it ended with, and the files. -/
structure Outcome where
  lines : List Line
  fault : Option CommandFault
  tree : FileTree

namespace Outcome

/-- What is shown. -/
def output (o : Outcome) (time : String) : String := String.join (o.lines.map (Line.shown time))

/-- What is shown as an error. -/
def errors (o : Outcome) : String :=
  match o.fault with
  | some f => "Error: " ++ f.message ++ "\n"
  | none => ""

/-- Zero if a command has done what it was to do. -/
def status (o : Outcome) : Nat := if o.fault.isSome then 1 else 0

end Outcome

end HashedAssets.CommandLine
