import HashedAssets.Service.Basic
import HashedAssets.Settings.Read

/-!
# Preparing a service

A draft collects options and registered assets, and is made into a service in the end. Options are
checked only then.

* `Draft.make`: a draft from settings or from named options;
* `setMode`, `setVariable`, `setVariables`, `setHashed`: options;
* `Draft.settings`, `Draft.create`: the service.
-/

namespace HashedAssets

/-- Options and assets of a service to be. -/
structure ServiceDraft where
  options : List (String × Value)
  catalog : Catalog
  hash : Option (Bytes → Bytes)
  compress : Option (Bytes → Bytes)
  watch : Option Watch

namespace ServiceDraft

/-- A draft without assets. Options come from settings or by name, but not in both ways. -/
def make (settings : Option Settings) (named : List (String × Value)) :
    Except SettingsFault ServiceDraft :=
  match settings, named with
  | some _, _ :: _ => .error .twofold
  | some s, [] => .ok ⟨s.options, ∅, none, none, none⟩
  | none, named => .ok ⟨named, ∅, none, none, none⟩

/-- Set an option in place of what was said before. -/
def set (name : String) (v : Value) : List (String × Value) → List (String × Value)
  | [] => [(name, v)]
  | (n, w) :: rest => if n = name then (name, v) :: rest else (n, w) :: set name v rest

/-- Set an option. -/
def setOption (d : ServiceDraft) (name : String) (v : Value) : ServiceDraft :=
  { d with options := set name v d.options }

/-- The entries of an option; one that was not set has none. -/
def entriesOf (d : ServiceDraft) (name : String) : Option (List (Value × Value)) :=
  match d.options.lookup name with
  | none => some []
  | some (.map entries) => some entries
  | some _ => none

/-- Set an entry of an option. Where the option is no mapping there is nowhere to put it. -/
def setEntry (d : ServiceDraft) (name key : String) (v : Value) : Except SettingsFault ServiceDraft :=
  match d.entriesOf name with
  | some entries => .ok (d.setOption name (.map (Value.addEntry (.text key) v entries)))
  | none => .error .unsuitable

/-- When assets are resolved. -/
def setMode (d : ServiceDraft) (mode : Value) : ServiceDraft := d.setOption "mode" mode

/-- The value of a variable. -/
def setVariable (d : ServiceDraft) (name : String) (v : Value) : Except SettingsFault ServiceDraft :=
  d.setEntry "variables" name v

/-- The values of several variables. -/
def setVariables (d : ServiceDraft) (values : Value) : Except SettingsFault ServiceDraft :=
  match d.entriesOf "variables" with
  | none => .error .withoutMembers
  | some entries => do
      let new ← values.entries
      let merged := new.foldl (fun es e => Value.addEntry e.1 e.2 es) entries
      pure (d.setOption "variables" (.map merged))

/-- Whether the public path of an asset carries its digest. -/
def setHashed (d : ServiceDraft) (path : String) (v : Value) : Except SettingsFault ServiceDraft :=
  d.setEntry "per_asset_hash_enabled" path v

/-- The settings that the options give. -/
def settings (d : ServiceDraft) : Except SettingsFault Settings :=
  match (d.options.map (·.1)).filter fun n => !Settings.optionNames.contains n with
  | [] => Settings.ofOptions d.options
  | unknown => .error (.unknownOptions (ascending unknown))

/-- The service of a draft whose options give the settings. -/
def create (d : ServiceDraft) (s : Settings) : Except Failure Service × List Event :=
  Service.create s d.catalog d.hash d.compress d.watch

end ServiceDraft

end HashedAssets
