import HashedAssets.Failure

/-!
# Definitions of assets

What the host registers under a logical path: where the bytes come from, and how the asset is to be
treated.

* `Options`, `Choices`: how an asset is treated, and what is said about it explicitly;
* `Definition`: a registered asset;
* `Definition.ofParts`: a definition from parts that may not fit together.
-/

namespace HashedAssets

/-- How an asset is treated. -/
structure Options where
  /-- Whether its final content is compressed when all assets are resolved at once. -/
  embeddable : Bool
  /-- Whether its public path carries its digest. -/
  hashable : Bool
  /-- Whether it may be looked up. -/
  serve : Bool
  /-- Whether directives are looked for in it. -/
  template : Bool
  /-- Bytes put before its content. -/
  prepend : Option Bytes
  /-- Bytes put behind its content. -/
  append : Option Bytes
  /-- The texts before and behind the digest that make up its public path. -/
  hashBetween : Option (String × String)
  deriving DecidableEq, Repr

/-- What is said about the treatment of an asset; the rest is left to defaults. -/
structure Choices where
  embeddable : Option Bool := none
  hashable : Option Bool := none
  serve : Option Bool := none
  template : Option Bool := none
  prepend : Option Bytes := none
  append : Option Bytes := none
  hashBetween : Option (String × String) := none
  deriving DecidableEq, Repr

/-- The treatment, where everything not said is yes, but for `embeddable` what is given here. -/
def Choices.options (c : Choices) (embeddable : Bool) : Options :=
  { embeddable := c.embeddable.getD embeddable
    hashable := c.hashable.getD true
    serve := c.serve.getD true
    template := c.template.getD true
    prepend := c.prepend
    append := c.append
    hashBetween := c.hashBetween }

/-- A registered asset. -/
structure Definition where
  path : String
  source : Source
  options : Options
  named : path ≠ ""

namespace Definition

/-- Whether the bytes come from a loader. -/
def isDynamic (d : Definition) : Bool := d.source.origin == .dynamic

/-- A definition of a path that is not empty. -/
def make (path : String) (source : Source) (options : Options) : Except Failure Definition :=
  if h : path = "" then .error .unnamed else .ok ⟨path, source, options, h⟩

/-- A definition from an origin, bytes and a loader, each of which may be missing: a dynamic asset
needs a loader, any other one needs bytes. -/
def ofParts (path : String) (origin : Origin) (content : Option Bytes) (loader : Option Loader)
    (options : Options) : Except Failure Definition :=
  if path = "" then .error .unnamed
  else match origin, content, loader with
    | .dynamic, held, some l => make path (.dynamic l held) options
    | .dynamic, _, none => .error (.withoutLoader path)
    | .static, some b, _ => make path (.static b) options
    | .directory, some b, _ => make path (.directory b) options
    | _, none, _ => .error (.withoutContent path)

/-- The bytes of an asset with what is put before and behind them. -/
def wrap (d : Definition) (content : Bytes) : Bytes :=
  d.options.prepend.getD [] ++ content ++ d.options.append.getD []

end Definition

end HashedAssets
