import HashedAssets.CommandLine.Outcome
import HashedAssets.Service.Basic

/-!
# Services of listed files

* `settingsOf`: the settings in a file;
* `catalogOf`: the assets that settings list, with their files below a root;
* `serviceOf`: all these assets, resolved.
-/

namespace HashedAssets.CommandLine

/-- A text in which every end of a line is a line feed. -/
def withLineFeeds : List Char → List Char
  | '\r' :: '\n' :: rest => '\n' :: withLineFeeds rest
  | '\r' :: rest => '\n' :: withLineFeeds rest
  | c :: rest => c :: withLineFeeds rest
  | [] => []

/-- The settings in a file. -/
def settingsOf (t : FileTree) (file : String) : Except CommandFault Settings := do
  let content ← (t.read (Location.ofText file)).mapError .system
  let text ← (Utf8.decode content).mapError .notText
  (Settings.ofText (String.ofList (withLineFeeds text.toList))).mapError .settings

/-- A file of an asset that cannot be read. -/
def readFault (path : String) : SystemFault → CommandFault
  | .nullInPath => .system .nullInPath
  | f => .failure (.fault (.unreadable path f.message))

/-- Register a listed asset. The file of a dynamic one is read when it is resolved. -/
def register (t : FileTree) (root : Location) (c : Catalog) (a : ListedAsset) :
    Except CommandFault Catalog := do
  let file := root.join (Location.ofText a.path)
  if a.dynamic then
    let choices ← a.choices.mapError .settings
    let (_, c) ← (c.addDynamic a.path (Loader.ofFile t file.text) choices).mapError .failure
    pure c
  else
    let content ← (t.read file).mapError (readFault a.path)
    let choices ← a.choices.mapError .settings
    let (_, c) ← (c.addStatic a.path content choices).mapError .failure
    pure c

/-- The assets that settings list, with their files below a root. -/
def catalogOf (t : FileTree) (root : Location) (s : Settings) : Except CommandFault Catalog :=
  s.listed.foldlM (register t root) ∅

/-- All assets that the settings in a file list, resolved now whatever mode is set there. -/
def snapshotOf (t : FileTree) (file root : String) : Except CommandFault (Snapshot × Catalog) := do
  let s ← settingsOf t file
  let c ← catalogOf t (Location.ofText root) s
  let x ← (Context.make s none none).mapError .failure
  let (result, _, c) := Snapshot.build x c
  let snapshot ← result.mapError .failure
  pure (snapshot, c)

end HashedAssets.CommandLine
