import Elevation.Yaml.Node.KeyText
import Elevation.Yaml.Node.OfTree
import Elevation.Yaml.Token.Scan
import Elevation.Yaml.Tree.Build
import Elevation.Yaml.Value

/-! The value of a YAML text that holds one document. An alias has the value of the last node before
it with that anchor. So that a small text cannot stand for a huge value, the uses of an anchor times
what it stands for is limited. A text without a document is null, and a text with several documents,
like one that is not well formed anywhere, has no value. -/

namespace Elevation.Yaml

/-- The limit on the uses of an anchor, times the weight of its node. -/
def aliasLimit : Nat := 100

/-- What a node is made of, as far as its weight goes: whether it has a scalar, and the numbers of
the anchors that its aliases refer to. -/
structure Makeup where
  hasScalar : Bool
  anchors : List Nat
  deriving Repr

namespace Makeup

def nothing : Makeup := ⟨false, []⟩
def scalar : Makeup := ⟨true, []⟩
def reference (number : Nat) : Makeup := ⟨false, [number]⟩
def join (a b : Makeup) : Makeup := ⟨a.hasScalar || b.hasScalar, a.anchors ++ b.anchors⟩

end Makeup

/-- An anchor that was met. Its value is missing as long as its node is being evaluated; then an
alias to it stands for a value that contains itself. -/
structure Anchored where
  name : String
  value : Option Value
  makeup : Makeup
  uses : Nat
  weight : Nat
  itself : Value
  deriving Repr

structure Anchors where
  met : List Anchored
  cyclic : Bool
  deriving Repr

namespace Anchors

def empty : Anchors := ⟨[], false⟩

def find? (a : Anchors) (name : String) : Option Nat :=
  ((a.met.zipIdx.reverse).find? fun entry => entry.1.name = name).map (·.2)

def weightOf (a : Anchors) (m : Makeup) : Nat :=
  m.anchors.foldl (fun most number =>
    match a.met[number]? with
    | some entry => max most (entry.uses * entry.weight)
    | none => most) (if m.hasScalar then 1 else 0)

def use (a : Anchors) (number : Nat) : Option (Value × Anchors) := do
  let entry ← a.met[number]?
  let entry := { entry with uses := entry.uses + 1 }
  let a := { a with met := a.met.set number entry }
  let weight := if entry.weight = 0 then a.weightOf entry.makeup else entry.weight
  let entry := { entry with weight := weight }
  let a := { a with met := a.met.set number entry }
  if aliasLimit < entry.uses * entry.weight then none
  else
    match entry.value with
    | some value => some (value, a)
    | none => some (entry.itself, { a with cyclic := true })

def begin (a : Anchors) (name : String) (itself : Value) : Anchors :=
  { a with met := a.met ++ [⟨name, none, .scalar, 1, 0, itself⟩] }

def settle (a : Anchors) (number : Nat) (value : Value) (makeup : Makeup) : Anchors :=
  match a.met[number]? with
  | some entry =>
    { a with met := a.met.set number { entry with value := some value, makeup := makeup } }
  | none => a

end Anchors

structure Evaluated (α : Type) where
  value : α
  makeup : Makeup
  anchors : Anchors

namespace Node

def ofScalar : Scalar → Value
  | .null => .null
  | .boolean value => .boolean value
  | .number value => .number value
  | .string text => .string text
  | .date => .date
  | .bytes content => .bytes content
  | .merge => .symbol "<<"

def fieldName (version : Version) (key : Node) (value : Value) : String :=
  match value with
  | .null => ""
  | .boolean b => if b then "true" else "false"
  | .number n => n.text
  | .string text => text
  | .symbol description => "Symbol(" ++ description ++ ")"
  | .bytes content => String.ofList (Text.Utf8.decode content)
  | _ => key.keyText version

def mergedFields : Value → Option (List (String × Value))
  | .object fields => some fields
  | .array items => (items.mapM fun (item : Value) =>
      match item with
      | .object fields => some fields
      | _ => none).map List.flatten
  | _ => none

/-- A merged field does not replace one that is there. -/
def mergeField (fields : List (String × Value)) (field : String × Value) : List (String × Value) :=
  if (fields.lookup field.1).isSome then fields else fields ++ [field]

def isMergeKey : Node → Bool
  | scalar _ _ _ .merge => true
  | _ => false

def shape : Node → Value
  | map _ .plain _ => .object []
  | map _ .set _ => .set []
  | map _ .ordered _ => .map []
  | seq _ _ => .array []
  | pairs _ _ => .array []
  | _ => .null

mutual

/-- Evaluates a node. `cycles` gives the values that are used for aliases inside their own nodes, by
the number of the anchor. -/
def eval (version : Version) (cycles : List Value) (a : Anchors) :
    Node → Option (Evaluated Value)
  | reference name => do
    let number ← a.find? name
    let (value, a) ← a.use number
    return ⟨value, .reference number, a⟩
  | scalar marks _ _ value =>
    let value := ofScalar value
    match marks.anchor with
    | none => some ⟨value, .scalar, a⟩
    | some name =>
      let number := a.met.length
      some ⟨value, .scalar, (a.begin name value).settle number value .scalar⟩
  | map marks kind entries => do
    let number := a.met.length
    let itself := cycles.getD number (shape (map marks kind []))
    let begun := match marks.anchor with
      | none => a
      | some name => a.begin name itself
    let done ← match kind with
      | .plain => do
        let fields ← evalFields version cycles begun [] .nothing entries
        pure ⟨Value.object (Value.orderFields fields.value), fields.makeup, fields.anchors⟩
      | .set => do
        let found ← evalEntries version cycles begun true entries
        pure ⟨Value.set (found.value.map (·.1)), found.makeup, found.anchors⟩
      | .ordered => do
        let found ← evalEntries version cycles begun false entries
        pure ⟨Value.map found.value, found.makeup, found.anchors⟩
    return if marks.anchor.isNone then done
      else { done with anchors := done.anchors.settle number done.value done.makeup }
  | seq marks items => do
    let number := a.met.length
    let begun := match marks.anchor with
      | none => a
      | some name => a.begin name (cycles.getD number (.array []))
    let found ← evalItems version cycles begun items
    let value := Value.array found.value
    return ⟨value, found.makeup,
      if marks.anchor.isNone then found.anchors else found.anchors.settle number value found.makeup⟩
  | pairs marks entries => do
    let number := a.met.length
    let begun := match marks.anchor with
      | none => a
      | some name => a.begin name (cycles.getD number (.array []))
    let found ← evalEntries version cycles begun false entries
    let value := Value.array (found.value.map fun _ => .object [])
    return ⟨value, found.makeup,
      if marks.anchor.isNone then found.anchors else found.anchors.settle number value found.makeup⟩

def evalOption (version : Version) (cycles : List Value) (a : Anchors) :
    Option Node → Option (Evaluated Value)
  | none => some ⟨.null, .scalar, a⟩
  | some node => eval version cycles a node

def evalItems (version : Version) (cycles : List Value) (a : Anchors) :
    List Node → Option (Evaluated (List Value))
  | [] => some ⟨[], .nothing, a⟩
  | item :: rest => do
    let first ← eval version cycles a item
    let more ← evalItems version cycles first.anchors rest
    return ⟨first.value :: more.value, first.makeup.join more.makeup, more.anchors⟩

def evalEntries (version : Version) (cycles : List Value) (a : Anchors) (keysOnly : Bool) :
    List (Node × Option Node) → Option (Evaluated (List (Value × Value)))
  | [] => some ⟨[], .nothing, a⟩
  | (key, value) :: rest => do
    let key ← eval version cycles a key
    let value ←
      if keysOnly then pure ⟨.null, .scalar, key.anchors⟩
      else evalOption version cycles key.anchors value
    let more ← evalEntries version cycles value.anchors keysOnly rest
    return ⟨(key.value, value.value) :: more.value,
      (key.makeup.join value.makeup).join more.makeup, more.anchors⟩

def evalFields (version : Version) (cycles : List Value) (a : Anchors)
    (fields : List (String × Value)) (makeup : Makeup) :
    List (Node × Option Node) → Option (Evaluated (List (String × Value)))
  | [] => some ⟨fields, makeup, a⟩
  | (key, value) :: rest => do
    let keyDone ← eval version cycles a key
    let valueDone ← evalOption version cycles keyDone.anchors value
    let makeup := (makeup.join keyDone.makeup).join valueDone.makeup
    let fields ←
      if key.isMergeKey then
        (mergedFields valueDone.value).map fun merged => merged.foldl mergeField fields
      else
        some (Value.setField fields (fieldName version key keyDone.value) valueDone.value)
    evalFields version cycles valueDone.anchors fields makeup rest

end

/-- The value of a node. A value that contains itself is unfolded once, and what is inside it beyond
that is known by its kind alone. -/
def toValue? (version : Version) (node : Node) : Option Value := do
  let first ← eval version [] .empty node
  if first.anchors.cyclic then
    let cycles := first.anchors.met.map fun entry => entry.value.getD .null
    let second ← eval version cycles .empty node
    return second.value
  else return first.value

end Node

structure Reading where
  directives : Directives
  pending : Bool
  document : Option (Version × Node)

namespace Reading

def start : Reading := ⟨Directives.standard, false, none⟩

def add (r : Reading) : Part → Option Reading
  | .directive line => do
    let directives ← r.directives.add line
    return { r with directives := directives, pending := true }
  | .documentEnd tail =>
    if r.document.isNone then none else (tailEnd? true false 0 tail).map fun _ => r
  | .document start value tail offset =>
    if r.document.isSome then none
    else do
      let (node, marked) ← Node.ofDocument r.directives start value tail offset
      if r.pending && !marked then none
      else return ⟨Directives.standard, false, some (r.directives.version, node)⟩

/-- The value of the document that was read. Directives without a document are refused. -/
def value? (r : Reading) : Option Value :=
  match r.document with
  | none => if r.pending then none else some .null
  | some (version, node) => node.toValue? version

end Reading

def parse (text : List Char) : Option Value := do
  let parts ← parts (← tokens text)
  let reading ← parts.foldlM Reading.add Reading.start
  reading.value?

end Elevation.Yaml
