import HashedAssets.Document.Yaml.Meaning
import HashedAssets.Settings.Read

/-!
# Settings from text

* `Settings.ofText`: settings from a YAML text.
-/

namespace HashedAssets

/-- What a fault in a text means for the settings described there. -/
def SettingsFault.ofYaml (text : String) : Yaml.Fault → SettingsFault
  | .scalar .notTruth => .notTruth
  | .scalar .notTime => .withoutMembers
  | .scalar .tooGreat => .tooGreat
  | .scalar f => .scalar f.message
  | .tooDeep => .tooDeep
  | f => .unreadable (f.message text.toList)

/-- Settings from a YAML text. -/
def Settings.ofText (text : String) : Except SettingsFault Settings :=
  match Yaml.read text with
  | .ok v => ofDocument v
  | .error f => .error (.ofYaml text f)

end HashedAssets
