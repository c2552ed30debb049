import HashedAssets.Catalog.Definition
import HashedAssets.Codec
import HashedAssets.Document.Value

/-!
# Settings

How a set of assets is resolved: all at once or on demand, with which values of variables, with which
hash function and compressor, and how much of a digest stands in a path.

* `Mode`, `ListedAsset`, `Settings`: the settings;
* `Problem`, `SettingsFault`: what can be wrong with a description of settings;
* `RawSettings`, `RawSettings.check`: settings as described, and whether they are in order.
-/

namespace HashedAssets

/-- When assets are resolved. -/
inductive Mode
  | eager
  | lazy
  deriving DecidableEq, Repr

namespace Mode

/-- All modes. -/
def all : List Mode := [.eager, .lazy]

/-- The word for a mode. -/
def word : Mode → String
  | .eager => "eager"
  | .lazy => "lazy"

/-- The mode that a word stands for. -/
def ofWord? (s : String) : Option Mode := all.find? (·.word == s)

end Mode

/-! ### What can be wrong -/

/-- Something that is wrong with one of the settings. -/
inductive Problem
  | mode (v : Value)
  | hashLength (v : Value)
  | variable (key : Value)
  | override (key : Value)
  | hasher (v : Value)
  | compressor (v : Value)
  deriving Repr

/-- The text of a problem. -/
def Problem.message : Problem → String
  | .mode v =>
      "mode must be one of (" ++ ", ".intercalate (Mode.all.map fun m => Text.quoted m.word)
        ++ "), got " ++ v.shown
  | .hashLength v => "hash_length must be a positive integer, got " ++ v.shown
  | .variable key => "variable " ++ key.shown ++ " must map a string to a string"
  | .override key => "per_asset_hash_enabled[" ++ key.shown ++ "] must be a boolean"
  | .hasher v => unknown "hash algorithm" v (HashAlgorithm.all.map (·.name))
  | .compressor v => unknown "compression" v (Compression.all.map (·.name))
where
  /-- Nothing is registered under a value, which is told only if it has a text. -/
  unknown (what : String) (v : Value) (known : List String) : String :=
    if v.isWritable then (Failure.unknownCodec what v.plain known).message
    else Decimal.LimitFault.writing.message

/-- Whether a value that the text of a problem has to hold has no text itself. -/
def Problem.isUntold : Problem → Bool
  | .mode v => !v.isWritable
  | .hashLength v => !v.isWritable
  | .variable key => !key.isWritable
  | .override key => !key.isWritable
  | .hasher _ => false
  | .compressor _ => false

/-- Why a description does not give settings. -/
inductive SettingsFault
  /-- The text of the description cannot be read. -/
  | unreadable (reason : String)
  /-- A scalar of the description does not stand for a value of its kind. -/
  | scalar (reason : String)
  /-- A word of the description is no word for a truth value. -/
  | notTruth
  /-- The description is no mapping. -/
  | notMapping (typeName : String)
  /-- There are keys that mean nothing. -/
  | unknownKeys (keys : List Value)
  /-- There are options that mean nothing. -/
  | unknownOptions (names : List String)
  /-- A listed asset is neither a path nor a mapping with one. -/
  | listedAsset (v : Value)
  /-- A listed asset has keys that mean nothing. -/
  | unknownListedKeys (path : Value) (keys : List Value)
  /-- An entry given as a list is no pair. -/
  | notPair (index length : Nat)
  /-- Settings are given in two ways at once. -/
  | twofold
  /-- Some settings are wrong. -/
  | invalid (problems : List Problem)
  /-- A value that is to be written has no text. -/
  | unwritable
  /-- A value has no entries, or no text, where these are taken from it. -/
  | withoutMembers
  /-- A value cannot be gone through, cannot be a key, or cannot be put in order. -/
  | unsuitable
  /-- A number is too great. -/
  | tooGreat
  /-- Values stand too deeply within one another. -/
  | tooDeep
  deriving Repr

/-- The text of a fault; there is none for values of the wrong kind, and for those that are too
great or too deep. -/
def SettingsFault.message : SettingsFault → String
  | .unreadable reason => "Invalid YAML config: " ++ reason
  | .scalar reason => reason
  | .notTruth => ""
  | .notMapping t => "Config must be a mapping, got " ++ t
  | .unknownKeys ks => "Unknown config key(s): " ++ (Value.list ks).shown
  | .unknownOptions ns => "Unknown config option(s): " ++ Value.shownTexts ns
  | .listedAsset v => "Asset entry must be a path or a mapping with 'path': " ++ v.shown
  | .unknownListedKeys path ks =>
      "Unknown asset option(s) for " ++ path.plain ++ ": " ++ (Value.list ks).shown
  | .notPair index length =>
      "dictionary update sequence element #" ++ toString index ++ " has length "
        ++ toString length ++ "; 2 is required"
  | .twofold => "Pass either a Config or config options, not both"
  | .invalid problems => "Invalid config: " ++ Value.shownTexts (problems.map Problem.message)
  | .unwritable => Decimal.LimitFault.writing.message
  | .withoutMembers => ""
  | .unsuitable => ""
  | .tooGreat => ""
  | .tooDeep => ""

/-- A value that is to be written needs a text. -/
def Value.checkWritable (v : Value) : Except SettingsFault Unit :=
  if v.isWritable then .ok () else .error .unwritable

/-! ### Settings in order -/

/-- An asset listed in the settings, for hosts that read assets from files. The texts around its
content are looked at only when its treatment is asked for. -/
structure ListedAsset where
  path : String
  hash : Bool
  embed : Bool
  serve : Bool
  template : Bool
  dynamic : Bool
  prepend : Value
  append : Value
  deriving Repr

namespace ListedAsset

/-- A listed asset of which nothing but the path is said. -/
def ofPath (path : String) : ListedAsset :=
  { path, hash := true, embed := true, serve := true, template := true, dynamic := false
    prepend := .null, append := .null }

/-- The bytes of a text put before or behind a content, if there is one. -/
def surround : Value → Except SettingsFault (Option Bytes)
  | .null => .ok none
  | .text s => .ok (some (Bytes.ofText s))
  | _ => .error .withoutMembers

/-- How a listed asset is treated. -/
def choices (a : ListedAsset) : Except SettingsFault Choices := do
  let prepend ← surround a.prepend
  let append ← surround a.append
  pure { hashable := some a.hash, embeddable := some a.embed, serve := some a.serve
         template := some a.template, prepend, append }

end ListedAsset

/-- Settings in order. -/
structure Settings where
  mode : Mode
  /-- The values of variables. -/
  values : PathMap String
  /-- How many bytes of a digest stand in a path. -/
  hashLength : Nat
  hashLength_pos : 0 < hashLength
  /-- For some paths, whether the public path carries the digest. -/
  overrides : PathMap Bool
  /-- Overrides whose key is no text; they concern no path. -/
  idleOverrides : List (Value × Bool)
  hasher : HashAlgorithm
  compressor : Compression
  /-- The assets listed in the settings. -/
  listed : List ListedAsset

/-- How much of a digest stands in a path, if nothing is said: three bytes give four letters. -/
def defaultHashLength : Nat := 9

/-- Settings of which nothing is said. -/
def Settings.default : Settings :=
  { mode := .eager, values := ∅, hashLength := defaultHashLength, hashLength_pos := by decide
    overrides := ∅, idleOverrides := [], hasher := .sha256, compressor := .deflate, listed := [] }

instance : Inhabited Settings := ⟨Settings.default⟩

/-! ### Settings as described -/

/-- Settings as described. -/
structure RawSettings where
  mode : Value := .text "eager"
  values : List (Value × Value) := []
  hashLength : Value := .int defaultHashLength
  overrides : List (Value × Value) := []
  hasher : Value := .text "sha256"
  compressor : Value := .text "deflate"
  listed : List ListedAsset := []

namespace RawSettings

/-- The mode that a value stands for. -/
def modeOf? : Value → Option Mode
  | .text s => Mode.ofWord? s
  | _ => none

/-- A positive whole number. -/
def positive? : Value → Option { n : Nat // 0 < n }
  | .int n => if h : 0 < n.toNat then some ⟨n.toNat, h⟩ else none
  | _ => none

/-- A variable with its value, both texts. -/
def assignment? : Value × Value → Option (String × String)
  | (.text k, .text v) => some (k, v)
  | _ => none

/-- Something registered under a name. A value that cannot be a key cannot be looked up at all. -/
def named (find : String → Option α) (v : Value) : Except SettingsFault (Option α) :=
  match v with
  | .text s => .ok (find s)
  | v => if v.isKey then .ok none else .error .unsuitable

/-- An override whose value is a truth value. -/
def override? : Value × Value → Option (Value × Bool)
  | (k, .bool b) => some (k, b)
  | _ => none

/-- The problems of all but the codecs of a description, in a fixed order. -/
def plainProblems (r : RawSettings) : List Problem :=
  (if (modeOf? r.mode).isNone then [.mode r.mode] else [])
    ++ (if (positive? r.hashLength).isNone then [.hashLength r.hashLength] else [])
    ++ (r.values.filter fun e => (assignment? e).isNone).map (.variable ·.1)
    ++ (r.overrides.filter fun e => (override? e).isNone).map (.override ·.1)

/-- The problems of a description, in a fixed order; or the fault that they cannot be told. -/
def problems (r : RawSettings) : Except SettingsFault (List Problem) := do
  if r.plainProblems.any Problem.isUntold then throw .unwritable
  let hasher ← named HashAlgorithm.ofName? r.hasher
  let compressor ← named Compression.ofName? r.compressor
  pure (r.plainProblems
    ++ (if hasher.isNone then [.hasher r.hasher] else [])
    ++ (if compressor.isNone then [.compressor r.compressor] else []))

/-- The settings that are described, if there is nothing wrong with them. -/
def check (r : RawSettings) : Except SettingsFault Settings := do
  match ← r.problems with
  | [] =>
      match modeOf? r.mode, positive? r.hashLength, ← named HashAlgorithm.ofName? r.hasher,
          ← named Compression.ofName? r.compressor with
      | some mode, some ⟨hashLength, hashLength_pos⟩, some hasher, some compressor =>
          let overrides := r.overrides.filterMap override?
          pure
            { mode, hashLength, hashLength_pos, hasher, compressor
              values := PathMap.ofList (r.values.filterMap assignment?)
              overrides := PathMap.ofList (overrides.filterMap fun e => match e with
                | (.text k, b) => some (k, b)
                | _ => none)
              idleOverrides := overrides.filter fun e => match e with
                | (.text _, _) => false
                | _ => true
              listed := r.listed }
      | _, _, _, _ => .error (.invalid [])
  | ps => .error (.invalid ps)

end RawSettings

end HashedAssets
