import HashedAssets.CommandLine.Listing
import HashedAssets.Document.Json.Printer

/-!
# Writing bundles

The served assets of a service are written one after the other, each under its public path in the output
directory, and then a file that says which public path each of them has.

* `target?`: where an asset is written;
* `writeAsset`, `writeAssets`: writing assets;
* `bundle`: the whole command.
-/

namespace HashedAssets.CommandLine

/-- The place that a public path leads to from a directory, if that is strictly inside it. -/
def target? (t : FileTree) (directory : List String) (publicPath : String) : Option (List String) :=
  let place := t.resolve ((Location.ofParts directory).join (Location.ofText publicPath))
  if directory.isPrefixOf place && place != directory then some place else none

/-- Write an asset under its public path. The directories around it are made as far as they are
missing. -/
def writeAsset (t : FileTree) (out : String) (directory : List String) (r : Resolved) :
    Except CommandFault FileTree × FileTree :=
  match target? t directory r.publicPath with
  | none => (.error (.outside r.publicPath r.path out), t)
  | some place =>
      let file := Location.ofParts place
      match t.makeDirectories file.parent with
      | .error f => (.error (.system f), t)
      | .ok t => ((t.write file r.content).mapError .system, t)

/-- The line that tells where an asset went. -/
def assetLine (r : Resolved) : Line := .text ("  " ++ r.path ++ " -> " ++ r.publicPath)

/-- Write assets one after the other until one cannot be written. -/
def writeAssets (out : String) (directory : List String) (o : Outcome) : List Resolved → Outcome
  | [] => o
  | r :: rest => match writeAsset o.tree out directory r with
    | (.error f, t) => { o with fault := some f, tree := t }
    | (.ok t, _) =>
        writeAssets out directory { o with lines := o.lines ++ [assetLine r], tree := t } rest

/-- The name of the file that holds the public paths. -/
def manifestName : String := "manifest.json"

/-- The public paths of assets as a document. -/
def manifestText (rows : List (String × String)) : String :=
  Json.print .page (.map (rows.map fun r => (.text r.1, .text r.2)))

/-- Write the file that holds the public paths, behind all assets. -/
def writeManifest (out : Location) (rows : List (String × String)) (o : Outcome) : Outcome :=
  if o.fault.isSome then o
  else
    let file := out.join (Location.ofText manifestName)
    match o.tree.write file (Bytes.ofText (manifestText rows)) with
    | .error f => { o with fault := some (.system f) }
    | .ok t =>
        { o with
          tree := t
          lines := o.lines ++
            [.text ("\nBundled " ++ toString rows.length ++ " assets into " ++ out.text),
             .text ("Manifest: " ++ file.text)] }

/-- Write assets and their public paths. -/
def bundleInto (t : FileTree) (out : Location) (assets : List Resolved)
    (rows : List (String × String)) : Outcome :=
  match t.makeDirectories out with
  | .error f => ⟨[], some (.system f), t⟩
  | .ok t => writeManifest out rows (writeAssets out.text (t.resolve out) ⟨[], none, t⟩ assets)

/-- Write the assets that the settings in a file list, as far as they may be looked up. -/
def bundle (t : FileTree) (settings root out : String) : Outcome :=
  let ready : Except CommandFault (List Resolved × List (String × String)) := do
    let (s, c) ← snapshotOf t settings root
    let service := Service.ofSnapshot s c
    let assets ← (service.paths.mapM s.resolve).mapError .failure
    let rows ← service.manifest.mapError .failure
    pure (assets, rows)
  match ready with
  | .error f => ⟨[], some f, t⟩
  | .ok (assets, rows) => bundleInto t (Location.ofText out) assets rows

end HashedAssets.CommandLine
