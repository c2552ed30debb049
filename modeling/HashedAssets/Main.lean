import HashedAssets.CommandLine.Run

/-!
# The program

The files that a command needs are read into a tree, the command runs there, and the files that it has
changed are written back.

* `look`, `gather`: reading files into a tree;
* `store`: writing them back.
-/

namespace HashedAssets.CommandLine

/-- Put what is found at a location into a tree. -/
def look (t : FileTree) (l : Location) : IO FileTree := do
  let place := t.resolve l
  match ← (IO.FS.readBinFile l.text).toBaseIO with
  | .ok content =>
      pure ((t.putDirectories [] place.dropLast).put place (.file content.toList))
  | .error (.noFileOrDirectory ..) => pure t
  | .error (.inappropriateType ..) => pure (t.putDirectories [] place)
  | .error e => throw e

/-- Read the settings that a command names, and the files that these list. -/
def gather (t : FileTree) : Command → IO FileTree
  | .bundle settings root out => do
      let t ← look t (Location.ofText out)
      gatherListed t settings root
  | .inspect settings root => gatherListed t settings root
where
  /-- Read settings and the files that they list. -/
  gatherListed (t : FileTree) (settings root : String) : IO FileTree := do
    let t ← look t (Location.ofText settings)
    match settingsOf t settings with
    | .error _ => pure t
    | .ok s => s.listed.foldlM (fun t a =>
        look t ((Location.ofText root).join (Location.ofText a.path))) t

/-- Write a file and make the directories around it. -/
def store (name : String) (content : Bytes) : IO Unit := do
  IO.FS.createDirAll (Location.ofText name).parent.text
  IO.FS.writeBinFile name (ByteArray.mk content.toArray)

/-- A span of time in seconds. -/
def seconds (milliseconds : Nat) : String :=
  toString (milliseconds / 1000) ++ "." ++ padded 3 (milliseconds % 1000) ++ "s"

/-- Run a command on the files of the system. -/
def perform (c : Command) : IO UInt32 := do
  let working := (Location.ofText (toString (← IO.currentDir))).parts
  let before ← gather (FileTree.empty working) c
  let started ← IO.monoMsNow
  let o := c.run before
  let changes := o.tree.changesSince before
  for (name, content) in changes do
    store name content
  let ended ← IO.monoMsNow
  IO.print (o.output (seconds (ended - started)))
  IO.eprint o.errors
  pure o.status.toUInt32

end HashedAssets.CommandLine

open HashedAssets.CommandLine in
/-- Run the command that the arguments ask for. -/
def main (args : List String) : IO UInt32 := do
  match Request.ofArguments args with
  | .run c =>
      try perform c
      catch e =>
        IO.eprintln ("Error: " ++ toString e)
        pure 1
  | .overview =>
      IO.print helpText
      pure 1
  | .help =>
      IO.print helpText
      pure 0
  | .refused =>
      IO.eprint helpText
      pure 2
