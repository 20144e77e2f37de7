import Elevation.Text

/-! Tokens of a YAML text. The scanner yields lexemes, which are pieces of the text with their kind;
placing them adds the offset and the indentation at which each begins. -/

namespace Elevation.Yaml

inductive TokenKind where
  | byteOrderMark
  | directive
  | documentBegin
  | documentStart
  | documentEnd
  | newline
  | space
  | comment
  | comma
  | flowMapStart
  | flowMapEnd
  | flowSeqStart
  | flowSeqEnd
  | itemMark
  | keyMark
  | valueMark
  | reference
  | anchor
  | tag
  | plain
  | singleQuoted
  | doubleQuoted
  | blockHeader
  | blockText
  deriving DecidableEq, Repr

structure Lexeme where
  kind : TokenKind
  text : List Char
  deriving DecidableEq, Repr

/-- Offsets count 16-bit units. The indentation is that of the line as far as it was known when the
token began; marks of a compact collection count as indentation. -/
structure Token where
  kind : TokenKind
  text : List Char
  offset : Nat
  indent : Nat
  deriving DecidableEq, Repr

namespace Token

def width (text : List Char) : Nat := Text.Utf8.unitCount text

def widthOf : List Token → Nat
  | [] => 0
  | t :: rest => width t.text + widthOf rest

def endOffset (t : Token) : Nat := t.offset + width t.text

end Token

structure Position where
  offset : Nat
  indent : Nat
  atLineStart : Bool
  deriving DecidableEq, Repr

namespace Position

def start : Position := ⟨0, 0, true⟩

def after (p : Position) (l : Lexeme) : Position :=
  let width := Token.width l.text
  let offset := p.offset + width
  match l.kind with
  | .documentBegin => p
  | .newline => ⟨offset, 0, true⟩
  | .blockText => ⟨offset, 0, true⟩
  | .space =>
    if p.atLineStart ∧ l.text.head? = some ' ' then ⟨offset, p.indent + width, true⟩
    else ⟨offset, p.indent, p.atLineStart⟩
  | .itemMark | .keyMark | .valueMark =>
    if p.atLineStart then ⟨offset, p.indent + width, true⟩ else ⟨offset, p.indent, false⟩
  | _ => ⟨offset, p.indent, false⟩

end Position

/-- Block text has the indentation of its header's line and not one of its own. -/
def place : Position → List Lexeme → List Token
  | _, [] => []
  | p, l :: rest => ⟨l.kind, l.text, p.offset, p.indent⟩ :: place (p.after l) rest

end Elevation.Yaml
