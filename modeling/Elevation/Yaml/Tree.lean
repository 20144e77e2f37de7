import Elevation.Yaml.Token

/-! The shape of a YAML document: which tokens belong to which node, before anything is read into
them. An entry of a collection has tokens in front of it, a key, the tokens between key and value,
and a value; an item of a sequence is an entry with a value alone. -/

namespace Elevation.Yaml

structure Entry (α : Type) where
  start : List Token
  explicit : Bool
  key : Option α
  /-- Missing as long as the entry has neither a key nor a mark for its value. -/
  sep : Option (List Token)
  value : Option α
  deriving Repr

/-- A leaf is an alias or a scalar in one token. Behind a leaf and behind the closing bracket of a
flow collection stands the rest of the line. -/
inductive Tree where
  | leaf (token : Token) (tail : List Token)
  | block (header : Token) (props : List Token) (text : List Char) (indent : Nat)
  | map (offset indent : Nat) (entries : List (Entry Tree))
  | seq (offset indent : Nat) (entries : List (Entry Tree))
  | flow (opening : Token) (indent : Nat) (entries : List (Entry Tree)) (closing : List Token)
  deriving Inhabited, Repr

namespace Token

def isKind (kind : TokenKind) (t : Token) : Bool := t.kind = kind

def isTrivia (t : Token) : Bool := t.kind = .space || t.kind = .newline || t.kind = .comment

end Token

namespace Entry

def ofStart {α : Type} (start : List Token) : Entry α := ⟨start, false, none, none, none⟩

def ofKey {α : Type} (start : List Token) (key : Option α) (sep : List Token) : Entry α :=
  ⟨start, false, key, some sep, none⟩

def push {α : Type} (e : Entry α) (t : Token) : Entry α :=
  match e.sep with
  | some sep => { e with sep := some (sep ++ [t]) }
  | none => { e with start := e.start ++ [t] }

def isBlank {α : Type} (e : Entry α) : Bool :=
  e.sep.isNone && e.value.isNone && !e.start.isEmpty && e.start.all Token.isTrivia

def sepHas {α : Type} (e : Entry α) (kind : TokenKind) : Bool :=
  (e.sep.getD []).any (Token.isKind kind)

end Entry

namespace Tree

/-- Nodes that a colon can turn into a key: aliases, scalars in one token, and flow collections. -/
def isFlowing : Tree → Bool
  | leaf _ _ => true
  | flow _ _ _ _ => true
  | _ => false

def isBlockCollection : Tree → Bool
  | map _ _ _ => true
  | seq _ _ _ => true
  | _ => false

def isEmptyText : Tree → Bool
  | leaf token _ => token.kind = .plain && token.text = []
  | _ => false

def tail? : Tree → Option (List Token)
  | leaf _ tail => if tail = [] then none else some tail
  | flow _ _ _ closing => if closing = [] then none else some closing
  | _ => none

def addTail (extra : List Token) : Tree → Tree
  | leaf token tail => leaf token (tail ++ extra)
  | flow opening indent entries closing => flow opening indent entries (closing ++ extra)
  | tree => tree

end Tree

inductive Part where
  | directive (text : List Char)
  | document (start : List Token) (value : Option Tree) (tail : List Token) (offset : Nat)
  | documentEnd (tail : List Token)
  deriving Repr

end Elevation.Yaml
