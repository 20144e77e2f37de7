import Elevation.Yaml.Node
import Elevation.Yaml.Node.Props
import Elevation.Yaml.Text

/-! Reading nodes from trees. Everything that YAML forbids beyond the shape of a tree is refused
here: keys that repeat, run over several lines or are too long, nodes that are not indented as they
should be, scalars that are not closed, and properties that have no meaning. -/

namespace Elevation.Yaml

structure Placed where
  node : Node
  finish : Nat
  deriving Inhabited, Repr

structure Scope where
  directives : Directives
  atKey : Bool
  atRoot : Bool

namespace Scope

def key (s : Scope) : Scope := { s with atKey := true, atRoot := false }

def inner (s : Scope) : Scope := { s with atKey := false, atRoot := false }

end Scope

/-- How far the mark behind an implicit key may be from the beginning of the key. -/
def keyLimit : Nat := 1024

namespace Node

def nameOf (t : Token) : Option String :=
  match t.text.drop 1 with
  | [] => none
  | name => some (String.ofList name)

def marksOf (s : Scope) (p : Props) : Option Marks := do
  let anchor ← match p.anchor with
    | none => pure none
    | some t => (nameOf t).map some
  let tag ← match p.tag with
    | none => pure none
    | some t => (s.directives.tagName? t.text).map some
  return ⟨anchor, if tag = some "" then none else tag⟩

/-- Reads the text of a scalar. Only a plain scalar without a tag is read by what it looks like. -/
def ofText (s : Scope) (marks : Marks) (style : Style) (text : List Char) : Option Node :=
  match marks.tag with
  | none =>
    let value :=
      if style = .plain then Scalar.ofPlain s.directives.version s.atKey text
      else Scalar.ofList text
    some (scalar marks style text value)
  | some tag =>
    if tag = "!" then some (scalar marks style text (Scalar.ofList text))
    else (Scalar.ofTag s.directives.version tag text).map (scalar marks style text)

/-- A node that is not there, with the properties of the place where it would be. A comment there
belongs to it. -/
def ofNothing (s : Scope) (p : Props) (before : List Token) : Option Placed := do
  let marks ← marksOf s p
  let node ← ofText s marks .plain []
  return ⟨node, if p.hasComment then p.finish else emptyOffset p.finish before⟩

def ofLeaf (s : Scope) (p : Props) (t : Token) (tail : List Token) : Option Placed := do
  let finish ← tailEnd? true false t.endOffset tail
  let read (style : Style) (text : Option (List Char)) : Option Placed := do
    let node ← ofText s (← marksOf s p) style (← text)
    return ⟨node, finish⟩
  match t.kind with
  | .reference =>
    if p.anchor.isSome || p.tag.isSome then none
    else (nameOf t).map fun name => ⟨reference name, finish⟩
  | .plain => read .plain (Text.plain t.text)
  | .singleQuoted => read .singleQuoted (Text.singleQuoted t.text)
  | .doubleQuoted => read .doubleQuoted (Text.DoubleQuoted.decode t.text)
  | _ => none

def headerTailFits (props : List Token) : Bool :=
  match props with
  | first :: _ => first.kind ≠ .comment
  | [] => true

def ofBlock (s : Scope) (p : Props) (header : Token) (props : List Token) (text : List Char)
    (indent : Nat) : Option Placed := do
  let indicators ← Text.BlockHeader.read header.text
  let value ← Text.block indicators indent s.atRoot text
  let node ← ofText s (← marksOf s p) .block value
  let width := Token.widthOf props + Token.width text
  if headerTailFits props then return ⟨node, header.endOffset + width⟩ else none

end Node

namespace Tree

def keyIndent : Tree → Nat
  | leaf t _ => t.indent
  | block _ _ _ indent => indent
  | map _ indent _ => indent
  | seq _ indent _ => indent
  | flow _ indent _ _ => indent

def isSeq : Tree → Bool
  | seq _ _ _ => true
  | _ => false

def isMap : Tree → Bool
  | map _ _ _ => true
  | _ => false

def isBlock : Tree → Bool
  | block _ _ _ _ => true
  | _ => false

mutual

def hasNewline : Tree → Bool
  | leaf t tail => t.text.contains '\n' || tail.any (Token.isKind .newline)
  | flow _ _ entries _ => entriesHaveNewline entries
  | _ => true

def entriesHaveNewline : List (Entry Tree) → Bool
  | [] => false
  | ⟨start, _, key, sep, value⟩ :: rest =>
    start.any (Token.isKind .newline) || (sep.getD []).any (Token.isKind .newline) ||
      optionHasNewline key || optionHasNewline value || entriesHaveNewline rest

def optionHasNewline : Option Tree → Bool
  | none => false
  | some t => t.hasNewline

end

end Tree

/-- What is known of a collection while its entries are read. The entries stand in reverse, and
`blankEnd` is the offset behind the last entry that holds comments alone. -/
structure Collected (α : Type) where
  offset : Nat
  blankEnd : Option Nat
  found : List α

namespace Collected

def start {α : Type} (offset : Nat) : Collected α := ⟨offset, none, []⟩

/-- The offset behind a block collection. In a map nothing may follow a comment that stands
alone. -/
def finish? {α : Type} (strict : Bool) (c : Collected α) : Option Nat :=
  match c.blankEnd with
  | none => some c.offset
  | some blankEnd => if strict && blankEnd < c.offset then none else some blankEnd

end Collected

abbrev Pairs := List (Node × Option Node)

namespace Pairs

def hasKey (pairs : Pairs) (key : Node) : Bool := pairs.any fun pair => pair.1.sameKey key

end Pairs

namespace Node

def seqPropsFit (p : Props) : Bool :=
  let last := match p.anchor, p.tag with
    | some anchor, some tag => some (max anchor.offset tag.offset)
    | some anchor, none => some anchor.offset
    | none, some tag => some tag.offset
    | none, none => none
  match last, p.newlineAfter with
  | none, _ => true
  | some _, none => false
  | some last, some newline => last ≤ newline.offset

/-- Whether a key that is not marked may stand here. -/
def implicitKeyFits (indent : Nat) (p : Props) (key : Option Tree) : Bool :=
  match key with
  | none => p.newlineAfter.isNone
  | some key =>
    !key.isSeq && key.keyIndent = indent && p.newlineAfter.isNone && !key.hasNewline

def valueMarkFits (keyProps valueProps : Props) (mark : Token) (value : Option Tree) : Bool :=
  let nested := (value.map Tree.isMap).getD false && !valueProps.hasNewline
  !nested && mark.offset ≤ keyProps.start + keyLimit

def commaFits (first : Bool) (p : Props) : Bool := first = p.comma.isNone

/-- A key of an entry of a flow sequence stands on one line with the mark behind it. -/
def pairMarkFits (keyProps : Props) (sep : List Token) (mark : Token) : Bool :=
  let between := sep.takeWhile fun t => t.offset ≠ mark.offset
  !between.any (Token.isKind .newline) && mark.offset ≤ keyProps.start + keyLimit

def isBlockCollection (t : Option Tree) : Bool := (t.map Tree.isBlockCollection).getD false

mutual

def ofTree (s : Scope) (p : Props) : Tree → Option Placed
  | .leaf t tail => ofLeaf s p t tail
  | .block header props text indent => ofBlock s p header props text indent
  | .map offset indent entries => do
    let marks ← marksOf s p
    let c ← ofMapEntries s indent (.start offset) entries
    let finish ← c.finish? true
    return ⟨← ofEntries marks c.found.reverse, finish⟩
  | .seq offset indent entries => do
    let marks ← marksOf s p
    let c ← ofSeqEntries s indent (.start offset) entries
    let finish ← c.finish? false
    if seqPropsFit p then return ⟨← ofItems marks c.found.reverse, finish⟩ else none
  | .flow opening indent entries closing => do
    let marks ← marksOf s p
    match closing with
    | [] => none
    | bracket :: tail =>
      let finish ← tailEnd? true false bracket.endOffset tail
      if opening.kind = .flowMapStart then
        let found ← ofFlowMapEntries s indent true opening.endOffset [] entries
        if bracket.kind = .flowMapEnd then return ⟨← ofEntries marks found.reverse, finish⟩
        else none
      else
        let found ← ofFlowSeqEntries s indent true opening.endOffset [] entries
        if bracket.kind = .flowSeqEnd then return ⟨← ofItems marks found.reverse, finish⟩
        else none

def ofOption (s : Scope) (p : Props) (before : List Token) : Option Tree → Option Placed
  | none => ofNothing s p before
  | some t => ofTree s p t

def ofMapEntries (s : Scope) (indent : Nat) (c : Collected (Node × Option Node)) :
    List (Entry Tree) → Option (Collected (Node × Option Node))
  | [] => some c
  | ⟨start, _, key, sep, value⟩ :: rest => do
    let keyProps ← Props.ofTokens?
      ⟨false, .keyMark, .ofTreeOr key sep, c.offset, indent, true⟩ start
    let bare := keyProps.found.isNone && keyProps.anchor.isNone && keyProps.tag.isNone
    if bare && sep.isNone then
      ofMapEntries s indent { c with blankEnd := some keyProps.finish } rest
    else
      let fits := match keyProps.found with
        | none => implicitKeyFits indent keyProps key
        | some mark => mark.indent = indent
      let keyNode ← ofOption s.key keyProps start key
      let onNewLine := (key.map Tree.isBlock).getD true
      let valueProps ← Props.ofTokens?
        ⟨false, .valueMark, .ofTree? value, keyNode.finish, indent, onNewLine⟩ (sep.getD [])
      if !fits || Pairs.hasKey c.found keyNode.node then none
      else
        match valueProps.found with
        | none =>
          if keyProps.found.isNone then none
          else
            ofMapEntries s indent
              { c with offset := valueProps.finish, found := (keyNode.node, none) :: c.found } rest
        | some mark =>
          if keyProps.found.isNone && !valueMarkFits keyProps valueProps mark value then none
          else
            let valueNode ← ofOption s.inner valueProps (sep.getD []) value
            ofMapEntries s indent
              { c with
                offset := valueNode.finish
                found := (keyNode.node, some valueNode.node) :: c.found } rest

def ofSeqEntries (s : Scope) (indent : Nat) (c : Collected Node) :
    List (Entry Tree) → Option (Collected Node)
  | [] => some c
  | ⟨start, _, _, _, value⟩ :: rest => do
    let props ← Props.ofTokens? ⟨false, .itemMark, .ofTree? value, c.offset, indent, true⟩ start
    if props.found.isSome then
      let item ← ofOption s.inner props start value
      ofSeqEntries s indent { c with offset := item.finish, found := item.node :: c.found } rest
    else if props.anchor.isSome || props.tag.isSome || value.isSome then none
    else ofSeqEntries s indent { c with blankEnd := some props.finish } rest

def ofFlowMapEntries (s : Scope) (indent : Nat) (first : Bool) (offset : Nat)
    (found : List (Node × Option Node)) :
    List (Entry Tree) → Option (List (Node × Option Node))
  | [] => some found
  | ⟨start, _, key, sep, value⟩ :: rest => do
    let props ← Props.ofTokens? ⟨true, .keyMark, .ofTreeOr key sep, offset, indent, false⟩ start
    let bare := props.found.isNone && props.anchor.isNone && props.tag.isNone
    if bare && sep.isNone && value.isNone then
      if first && props.comma.isSome || !rest.isEmpty then none else some found
    else
      let keyNode ← ofOption s.key props start key
      let valueProps ← Props.ofTokens?
        ⟨true, .valueMark, .ofTree? value, keyNode.finish, indent, false⟩ (sep.getD [])
      let blocks := isBlockCollection key || isBlockCollection value
      if !commaFits first props || blocks || Pairs.hasKey found keyNode.node then none
      else
        match valueProps.found with
        | none =>
          if value.isSome then none
          else
            ofFlowMapEntries s indent false valueProps.finish ((keyNode.node, none) :: found) rest
        | some _ =>
          let valueNode ← ofOption s.inner valueProps (sep.getD []) value
          ofFlowMapEntries s indent false valueNode.finish
            ((keyNode.node, some valueNode.node) :: found) rest

def ofFlowSeqEntries (s : Scope) (indent : Nat) (first : Bool) (offset : Nat) (found : List Node) :
    List (Entry Tree) → Option (List Node)
  | [] => some found
  | ⟨start, _, key, sep, value⟩ :: rest => do
    let props ← Props.ofTokens? ⟨true, .keyMark, .ofTreeOr key sep, offset, indent, false⟩ start
    let bare := props.found.isNone && props.anchor.isNone && props.tag.isNone
    if bare && sep.isNone && value.isNone then
      if first && props.comma.isSome || !rest.isEmpty then none else some found
    else if !commaFits first props || isBlockCollection key || isBlockCollection value then none
    else if props.found.isNone && (key.map Tree.hasNewline).getD false then none
    else if props.found.isNone && sep.isNone then
      let item ← ofOption s.inner props [] value
      ofFlowSeqEntries s indent false item.finish (item.node :: found) rest
    else
      let keyNode ← ofOption s.key props start key
      let valueProps ← Props.ofTokens?
        ⟨true, .valueMark, .ofTree? value, keyNode.finish, indent, false⟩ (sep.getD [])
      match valueProps.found with
      | none =>
        if value.isSome then none
        else
          let item := Node.map Marks.none .plain [(keyNode.node, none)]
          ofFlowSeqEntries s indent false valueProps.finish (item :: found) rest
      | some mark =>
        if props.found.isNone && !pairMarkFits props (sep.getD []) mark then none
        else
          let valueNode ← ofOption s.inner valueProps (sep.getD []) value
          let item := Node.map Marks.none .plain [(keyNode.node, some valueNode.node)]
          ofFlowSeqEntries s indent false valueNode.finish (item :: found) rest

end

/-- Reads the node of a document. A block collection does not begin on the line that begins the
document. -/
def ofDocument (directives : Directives) (start : List Token) (value : Option Tree)
    (tail : List Token) (offset : Nat) : Option (Node × Bool) := do
  let props ← Props.ofTokens?
    ⟨false, .documentStart, .ofTreeOr value (some tail), offset, 0, true⟩ start
  let marked := props.found.isSome
  if marked && isBlockCollection value && !props.hasNewline then none
  else
    let placed ← ofOption ⟨directives, false, true⟩ props start value
    let _ ← tailEnd? false false placed.finish tail
    return (placed.node, marked)

end Node

end Elevation.Yaml
