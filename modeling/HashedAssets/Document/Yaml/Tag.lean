/-!
# Tags of YAML

A tag says what kind of value a node stands for.

* `Tag`: the tags that stand for something here, and all others by their name;
* `Tag.name`, `Tag.ofName`: the full names of tags.
-/

namespace HashedAssets.Yaml

/-- What kind of value a node stands for. -/
inductive Tag
  | null
  | bool
  | int
  | float
  | timestamp
  | text
  | sequence
  | mapping
  /-- The key whose value is a mapping that is merged into its own. -/
  | merge
  /-- The key of the value that a mapping stands for. -/
  | value
  | other (name : String)
  deriving DecidableEq, Repr

namespace Tag

/-- How the full names of the common tags begin. -/
def common : String := "tag:yaml.org,2002:"

/-- The full name of a tag. -/
def name : Tag → String
  | .null => common ++ "null"
  | .bool => common ++ "bool"
  | .int => common ++ "int"
  | .float => common ++ "float"
  | .timestamp => common ++ "timestamp"
  | .text => common ++ "str"
  | .sequence => common ++ "seq"
  | .mapping => common ++ "map"
  | .merge => common ++ "merge"
  | .value => common ++ "value"
  | .other name => name

/-- The tags that stand for something. -/
def known : List Tag :=
  [.null, .bool, .int, .float, .timestamp, .text, .sequence, .mapping, .merge, .value]

/-- The tag of a full name. -/
def ofName (s : String) : Tag := (known.find? (·.name == s)).getD (.other s)

end Tag

end HashedAssets.Yaml
