import HashedAssets.Settings.Basic

/-!
# Settings from values

* `Settings.ofDocument`: settings from the value of a document, lenient with numbers and truth values
  where texts are wanted;
* `Settings.ofOptions`: settings from named options, taken as they are;
* `Settings.options`: the options that give settings again.
-/

namespace HashedAssets

/-! ### Parts of a document -/

/-- The items that a value consists of: those of a list, the keys of a mapping, the characters of a
text. -/
def Value.items? : Value → Option (List Value)
  | .list items => some items
  | .map entries => some (entries.map (·.1))
  | .text s => some (s.toList.map fun c => .text c.toString)
  | _ => none

/-- The pair that a value is, as an entry of a mapping. -/
def Value.pair (index : Nat) (v : Value) : Except SettingsFault (Value × Value) :=
  match v.items? with
  | some [k, w] => if k.isKey then .ok (k, w) else .error .unsuitable
  | some items => .error (.notPair index items.length)
  | none => .error .unsuitable

/-- The entries of a mapping, or of a list of pairs. -/
def Value.entries (v : Value) : Except SettingsFault (List (Value × Value)) :=
  match v with
  | .map entries => .ok entries
  | v => match v.items? with
    | none => .error .unsuitable
    | some items => (items.zipIdx.mapM fun x => Value.pair x.2 x.1).map fun pairs =>
        pairs.foldl (fun es e => addEntry e.1 e.2 es) []

/-- Keys in order, to be written. -/
def Value.ordered (ks : List Value) : Except SettingsFault (List Value) :=
  match sortKeys? ks with
  | some ks => (Value.list ks).checkWritable.map fun _ => ks
  | none => .error .unsuitable

namespace ListedAsset

/-- The keys of a listed asset. -/
def keys : List String :=
  ["path", "hash", "embed", "serve", "template", "prepend", "append", "dynamic"]

/-- A listed asset from a value: its path alone, or a mapping. -/
def ofValue (v : Value) : Except SettingsFault ListedAsset :=
  match v with
  | .text s => .ok (ofPath s)
  | .map entries =>
      match Value.field? "path" entries with
      | none => refuse v
      | some path => do
          path.checkWritable
          let unknown := (entries.map (·.1)).filter fun k => !keys.any fun n => k.sameKey (.text n)
          if unknown.isEmpty then
            let flag (name : String) (absent : Bool) :=
              ((Value.field? name entries).map Value.isTrue).getD absent
            pure
              { path := path.plain
                hash := flag "hash" true
                embed := flag "embed" true
                serve := flag "serve" true
                template := flag "template" true
                dynamic := flag "dynamic" false
                prepend := (Value.field? "prepend" entries).getD .null
                append := (Value.field? "append" entries).getD .null }
          else throw (.unknownListedKeys path (← Value.ordered unknown))
  | v => refuse v
where
  /-- A value that is neither a path nor a mapping with one, if it can be told. -/
  refuse (v : Value) : Except SettingsFault ListedAsset := do
    v.checkWritable
    throw (.listedAsset v)

end ListedAsset

namespace Settings

/-- The keys of a document. -/
def keys : List String :=
  ["mode", "variables", "hash_length", "per_asset_hash_enabled", "hash_algorithm", "compression",
   "assets"]

/-- The names of the options. -/
def optionNames : List String := keys

/-- A value that counts as true, else nothing. -/
def given (v : Option Value) : Option Value := v.filter Value.isTrue

/-- The variables of a document. Everything but text is taken as the text it is shown as. -/
def variablesOf (v : Option Value) : Except SettingsFault (List (Value × Value)) :=
  match given v with
  | none => .ok []
  | some (.map entries) => (Value.map entries).checkWritable.map fun _ =>
      entries.foldl (fun es e => Value.addEntry (.text e.1.plain) (.text e.2.plain) es) []
  | some _ => .error .withoutMembers

/-- The overrides of a document. -/
def overridesOf (v : Option Value) : Except SettingsFault (List (Value × Value)) :=
  match given v with
  | none => .ok []
  | some v => v.entries

/-- The assets listed in a document. -/
def listedOf (v : Option Value) : Except SettingsFault (List ListedAsset) :=
  match given v with
  | none => .ok []
  | some v => match v.items? with
    | none => .error .unsuitable
    | some items => items.mapM ListedAsset.ofValue

/-- Settings from the entries of a document. -/
def ofEntries (entries : List (Value × Value)) : Except SettingsFault Settings := do
  let unknown := (entries.map (·.1)).filter fun k => !keys.any fun n => k.sameKey (.text n)
  if !unknown.isEmpty then throw (.unknownKeys (← Value.ordered unknown))
  let get (name : String) := Value.field? name entries
  let values ← variablesOf (get "variables")
  let overrides ← overridesOf (get "per_asset_hash_enabled")
  let listed ← listedOf (get "assets")
  let raw : RawSettings := {}
  RawSettings.check
    { mode := (get "mode").getD raw.mode
      values
      hashLength := (get "hash_length").getD raw.hashLength
      overrides
      hasher := (get "hash_algorithm").getD raw.hasher
      compressor := (get "compression").getD raw.compressor
      listed }

/-- Settings from the value of a document. An empty value of any kind says nothing. -/
def ofDocument (v : Value) : Except SettingsFault Settings :=
  if !v.isTrue then ofEntries []
  else match v with
    | .map entries => ofEntries entries
    | v => .error (.notMapping v.typeName)

/-! ### Options -/

/-- The entries of an option that has to be a mapping. -/
def optionEntries (v : Option Value) : Except SettingsFault (List (Value × Value)) :=
  match v with
  | none => .ok []
  | some (.map entries) => .ok entries
  | some _ => .error .withoutMembers

/-- Settings from named options. The assets listed among them are not looked at. -/
def ofOptions (options : List (String × Value)) : Except SettingsFault Settings := do
  if options.any fun o => !optionNames.contains o.1 then throw .unsuitable
  let values ← optionEntries (options.lookup "variables")
  let overrides ← optionEntries (options.lookup "per_asset_hash_enabled")
  let raw : RawSettings := {}
  RawSettings.check
    { mode := (options.lookup "mode").getD raw.mode
      values
      hashLength := (options.lookup "hash_length").getD raw.hashLength
      overrides
      hasher := (options.lookup "hash_algorithm").getD raw.hasher
      compressor := (options.lookup "compression").getD raw.compressor }

/-- The options that give settings again, but for the listed assets. -/
def options (s : Settings) : List (String × Value) :=
  [("mode", .text s.mode.word),
   ("variables", .map (s.values.bindings.map fun e => (.text e.1, .text e.2))),
   ("hash_length", .int s.hashLength),
   ("per_asset_hash_enabled", .map ((s.overrides.bindings.map fun e => (.text e.1, .bool e.2))
     ++ s.idleOverrides.map fun e => (e.1, .bool e.2))),
   ("hash_algorithm", .text s.hasher.name),
   ("compression", .text s.compressor.name)]

end Settings

end HashedAssets
