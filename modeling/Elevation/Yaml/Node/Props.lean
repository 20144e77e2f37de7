import Elevation.Yaml.Tree

/-! What stands in front of a node or of its parts: marks, anchors, tags, comments and white space.
They are checked for everything that may not stand together. -/

namespace Elevation.Yaml

inductive Follower where
  | nothing
  | token (t : Token)
  | tree (t : Tree)
  deriving Repr

namespace Follower

def ofTree? : Option Tree → Follower
  | none => nothing
  | some t => tree t

def ofTreeOr (t : Option Tree) (tokens : Option (List Token)) : Follower :=
  match t, tokens with
  | some t, _ => tree t
  | none, some (first :: _) => token first
  | none, _ => nothing

def isBlockCollection : Follower → Bool
  | tree t => t.isBlockCollection
  | _ => false

def isFlowCollection : Follower → Bool
  | tree (.flow _ _ _ _) => true
  | _ => false

end Follower

def Token.isSeparator (t : Token) : Bool := t.kind = .space || t.kind = .newline || t.kind = .comma

structure PropsPlace where
  inFlow : Bool
  mark : TokenKind
  next : Follower
  offset : Nat
  indent : Nat
  onNewLine : Bool

structure Props where
  comma : Option Token
  found : Option Token
  hasNewline : Bool
  hasComment : Bool
  anchor : Option Token
  tag : Option Token
  newlineAfter : Option Token
  /-- The offset of the first anchor or tag, or else that of the node. -/
  start : Nat
  finish : Nat
  deriving Repr

namespace Props

structure Reading where
  atNewline : Bool
  hasSpace : Bool
  needsSpace : Bool
  tab : Option Token
  start : Option Nat
  props : Props

namespace Reading

def init (p : PropsPlace) : Reading where
  atNewline := p.onNewLine
  hasSpace := p.onNewLine
  needsSpace := false
  tab := none
  start := none
  props := ⟨none, none, false, false, none, none, none, p.offset, p.offset⟩

/-- A tab counts as indentation, except inside a flow collection and in front of one that is the
whole document. -/
def tabOf (p : PropsPlace) (t : Token) : Option Token :=
  let free := p.inFlow || p.mark = .documentStart && p.next.isFlowCollection
  if !free && t.text.contains '\t' then some t else none

def addProp (r : Reading) (t : Token) (props : Props) : Reading :=
  { r with
    hasSpace := false, needsSpace := true, start := some (r.start.getD t.offset), props := props }

def add (p : PropsPlace) (r : Reading) (t : Token) : Option Reading :=
  let tabInFront := r.tab.isSome && r.atNewline && t.kind ≠ .comment && t.kind ≠ .newline
  if r.needsSpace && !t.isSeparator || tabInFront then none
  else
    let r := { r with needsSpace := false, tab := none }
    match t.kind with
    | .space => some { r with tab := tabOf p t, hasSpace := true }
    | .comment =>
      if r.hasSpace then
        some { r with atNewline := false, props := { r.props with hasComment := true } }
      else none
    | .newline =>
      let marked := r.props.anchor.isSome || r.props.tag.isSome
      let after := if marked then some t else r.props.newlineAfter
      some { r with
        atNewline := true, hasSpace := true
        props := { r.props with hasNewline := true, newlineAfter := after } }
    | .anchor =>
      if r.props.anchor.isSome then none
      else some ({ r with atNewline := false }.addProp t { r.props with anchor := some t })
    | .tag =>
      if r.props.tag.isSome then none
      else some ({ r with atNewline := false }.addProp t { r.props with tag := some t })
    | kind =>
      if kind = p.mark then
        if r.props.anchor.isSome || r.props.tag.isSome || r.props.found.isSome then none
        else
          some { r with
            atNewline := p.mark = .itemMark || p.mark = .keyMark, hasSpace := false
            props := { r.props with found := some t } }
      else if kind = .comma && p.inFlow && r.props.comma.isNone then
        some { r with
          atNewline := false, hasSpace := false
          props := { r.props with comma := some t } }
      else none

def mayFollow (r : Reading) : Follower → Bool
  | .nothing => true
  | .token t => !r.needsSpace || t.isSeparator
  | .tree t => !r.needsSpace || t.isEmptyText

def tabInFront (p : PropsPlace) (r : Reading) : Bool :=
  match r.tab with
  | none => false
  | some tab => r.atNewline && tab.indent ≤ p.indent || p.next.isBlockCollection

end Reading

def ofTokens? (p : PropsPlace) (tokens : List Token) : Option Props := do
  let r ← tokens.foldlM (Reading.add p) (Reading.init p)
  let finish := (tokens.getLast?.map Token.endOffset).getD p.offset
  if r.mayFollow p.next && !r.tabInFront p then
    return { r.props with finish := finish, start := r.start.getD finish }
  else none

end Props

/-- The offset behind the tokens at the end of a line, which may be white space and comments only. A
comment needs white space in front of it if `strict` is set. -/
def tailEnd? (strict : Bool) : (hasSpace : Bool) → (offset : Nat) → List Token → Option Nat
  | _, offset, [] => some offset
  | hasSpace, offset, t :: rest =>
    let offset := offset + Token.width t.text
    match t.kind with
    | .space | .newline => tailEnd? strict true offset rest
    | .comment => if strict && !hasSpace then none else tailEnd? strict hasSpace offset rest
    | _ => none

/-- The offset of a node that is not there: behind the last token before it that is more than white
space, and behind the spaces that follow that token. -/
def emptyOffset (offset : Nat) (before : List Token) : Nat :=
  let blank := (before.reverse.takeWhile Token.isTrivia).reverse
  let spaces := blank.takeWhile (Token.isKind .space)
  offset - Token.widthOf blank + if blank.length < before.length then Token.widthOf spaces else 0

end Elevation.Yaml
