import HashedAssets.Document.Yaml.Node

/-!
# What nodes stand for

* `Node.value`: the value that a node stands for;
* `Yaml.read`: the value that a text stands for.

Of several faults the one that is least deep is told, of equally deep ones the first.
-/

namespace HashedAssets.Yaml

/-- A fault, and how deep in a node it is. -/
structure DeepFault where
  depth : Nat
  fault : Fault

/-- Two results together. -/
def together (x : Except DeepFault α) (y : Except DeepFault β) : Except DeepFault (α × β) :=
  match x, y with
  | .ok a, .ok b => .ok (a, b)
  | .error f, .ok _ => .error f
  | .ok _, .error g => .error g
  | .error f, .error g => .error (if g.depth < f.depth then g else f)

namespace Node

mutual

/-- The text that a node stands for where a scalar is wanted. A mapping stands for the value of its
entry for that, if it has one. -/
def scalarText? : Node → Option String
  | .scalar _ _ text => some text
  | .sequence .. => none
  | .mapping _ _ entries => textAmong? entries

/-- The text of the first entry that says what its mapping stands for. -/
def textAmong? : List (Node × Node) → Option String
  | [] => none
  | (k, v) :: rest => if k.tag = .value then v.scalarText? else textAmong? rest

end

/-- Another form of node is wanted. -/
def wrongForm (n : Node) (wanted : String) : Fault :=
  .found none none (.wrongNode wanted n.form) n.start

mutual

/-- What is wrong with the mappings that are merged into a mapping that begins at a place. -/
def mergeFault? (start : Mark) : List (Node × Node) → Option Fault
  | [] => none
  | (k, v) :: rest =>
      let here : Option Fault :=
        if k.tag = .merge then
          match v with
          | .mapping _ m entries => mergeFault? m entries
          | .sequence _ _ items => mergeFaultAmong? start items
          | .scalar _ m _ => some (.found (some .mapping) (some start) (.wrongMerges v.form) m)
        else none
      match here with
      | some f => some f
      | none => mergeFault? start rest

/-- What is wrong with a list of mappings that are merged into a mapping that begins at a place. -/
def mergeFaultAmong? (start : Mark) : List Node → Option Fault
  | [] => none
  | n :: rest =>
      let here : Option Fault := match n with
        | .mapping _ m entries => mergeFault? m entries
        | .sequence _ m _ => some (.found (some .mapping) (some start) (.wrongMerge n.form) m)
        | .scalar _ m _ => some (.found (some .mapping) (some start) (.wrongMerge n.form) m)
      match here with
      | some f => some f
      | none => mergeFaultAmong? start rest

end

/-- Keys and values in order. -/
abbrev Pairs := List (Value × Value)

/-- The value of a scalar at a depth. -/
def scalarAt (depth : Nat) (n : Node) : Except DeepFault Value :=
  match n.scalarText? with
  | none => .error ⟨depth, n.wrongForm "scalar"⟩
  | some text => match scalarValue? n.tag text with
    | some (.ok v) => .ok v
    | some (.error f) => .error ⟨depth, .scalar f⟩
    | none => .error ⟨depth, .found none none (.noMeaning n.tag.name) n.start⟩

/-- A key that cannot be one, unless it is wrong already. -/
def checkKey (depth : Nat) (start : Mark) (k : Node) (v : Except DeepFault Value) :
    Except DeepFault Value :=
  match v with
  | .error f =>
      if f.depth ≤ depth then .error f
      else .error ⟨depth, .found (some .mapping) (some start) .unsuitableKey k.start⟩
  | .ok v =>
      if v.isKey then .ok v
      else .error ⟨depth, .found (some .mapping) (some start) .unsuitableKey k.start⟩

mutual

/-- The value that a node stands for at a depth. -/
def valueAt (depth : Nat) : Node → Except DeepFault Value
  | .scalar tag start text =>
      match tag with
      | .sequence => .error ⟨depth + 1, (Node.scalar tag start text).wrongForm "sequence"⟩
      | .mapping => .error ⟨depth + 1, (Node.scalar tag start text).wrongForm "mapping"⟩
      | _ => scalarAt depth (.scalar tag start text)
  | .sequence tag start items =>
      match tag with
      | .sequence => (itemsAt (depth + 1) items).map .list
      | .mapping => .error ⟨depth + 1, (Node.sequence tag start items).wrongForm "mapping"⟩
      | .other name => .error ⟨depth, .found none none (.noMeaning name) start⟩
      | _ => scalarAt depth (.sequence tag start items)
  | .mapping tag start entries =>
      match tag with
      | .mapping =>
          match mergeFault? start entries with
          | some f => .error ⟨depth + 1, f⟩
          | none => (entriesAt (depth + 1) start entries).map fun p =>
              .map ((p.1 ++ p.2).foldl (fun es e => Value.addEntry e.1 e.2 es) [])
      | .sequence => .error ⟨depth + 1, (Node.mapping tag start entries).wrongForm "sequence"⟩
      | .other name => .error ⟨depth, .found none none (.noMeaning name) start⟩
      | _ => scalarAt depth (.mapping tag start entries)

/-- The values of items at a depth. -/
def itemsAt (depth : Nat) : List Node → Except DeepFault (List Value)
  | [] => .ok []
  | n :: rest => (together (valueAt depth n) (itemsAt depth rest)).map fun p => p.1 :: p.2

/-- The entries of a mapping that begins at a place: those that are merged into it, and its own. -/
def entriesAt (depth : Nat) (start : Mark) : List (Node × Node) → Except DeepFault (Pairs × Pairs)
  | [] => .ok ([], [])
  | (k, v) :: rest =>
      if k.tag = .merge then
        let merged : Except DeepFault Pairs := match v with
          | .mapping _ _ entries => (entriesAt depth start entries).map fun p => p.1 ++ p.2
          | .sequence _ _ items => mergedAt depth start items
          | .scalar .. => .ok []
        (together merged (entriesAt depth start rest)).map fun p => (p.1 ++ p.2.1, p.2.2)
      else
        let key : Except DeepFault Value :=
          if k.tag = .value then .ok (.text (k.scalarText?.getD "")) else valueAt depth k
        let pair := together (checkKey depth start k key) (valueAt depth v)
        (together pair (entriesAt depth start rest)).map fun p => (p.2.1, p.1 :: p.2.2)

/-- The entries of a list of mappings that are merged into one. Those of an earlier mapping come later,
so that they win. -/
def mergedAt (depth : Nat) (start : Mark) : List Node → Except DeepFault Pairs
  | [] => .ok []
  | n :: rest =>
      let here : Except DeepFault Pairs := match n with
        | .mapping _ _ entries => (entriesAt depth start entries).map fun p => p.1 ++ p.2
        | _ => .ok []
      (together (mergedAt depth start rest) here).map fun p => p.1 ++ p.2

end

/-- The value that a node stands for. -/
def value (n : Node) : Except Fault Value := (valueAt 0 n).mapError (·.fault)

end Node

/-- The value that a text stands for; an empty text stands for nothing. -/
def read (text : String) : Except Fault Value :=
  match Node.ofText? text.toList with
  | .error f => .error f
  | .ok none => .ok .null
  | .ok (some n) => n.value

end HashedAssets.Yaml
